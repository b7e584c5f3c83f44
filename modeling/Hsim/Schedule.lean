import Hsim.System

/-! The system, run by a schedule.

A step of the system leaves the choice of the process open. A schedule makes the
choice: a list of processes, each with what the memory systems answer to it.
Running it is a function, and what it reaches is reachable. -/
namespace Hsim.System

open TraceGenerator (SpeculativeControl)

/-- The process that runs next. -/
inductive Process where
  | elapse (d : Time)
  | host
  | hostNegedge
  | pimTraceDone
  | npuTraceDone
  | arbiterPeqFw
  | arbiterNegedge
  | arbiterPeqBw
  | arbiterPosedge
  | npuPeqFw
  | npuStart
  | npuCompute
  | npuPeqBw
  | npuResponse
  | memPeq
  | memIterate (answers : Bridge.Answers)
  | memPosedge
  | memNegedge
  | pimPeq
  | pimIterate (answers : Bridge.Answers)
  | pimResume (answers : Bridge.Answers)
  | pimPosedge
  | pimNegedge

/-- One activation, `none` if the process waits. -/
def fire (cfg : Config) (s : State) : Process → Option State
  | .elapse d => some {s with now := s.now + d}
  | .host => some (runHost cfg s)
  | .hostNegedge => some (hostNegedge s)
  | .pimTraceDone =>
    if s.pimTraceDone then some {s with pimTraceDone := false, host := Host.notePim s.host} else none
  | .npuTraceDone =>
    if s.npuTraceDone then some {s with npuTraceDone := false, host := Host.noteNpu s.host} else none
  | .arbiterPeqFw =>
    match s.arbiter.peqFw with
    | t :: rest => some {s with
        arbiter := Arbiter.peqFwCb cfg.dramEnabled t {s.arbiter with peqFw := rest}}
    | [] => none
  | .arbiterNegedge =>
    match s.arbiter.fwQueue with
    | (t, index) :: rest =>
      some (deliverFw cfg t index {s with arbiter := {s.arbiter with fwQueue := rest}})
    | [] => none
  | .arbiterPeqBw =>
    match s.arbiter.peqBw with
    | t :: rest => some {s with arbiter := Arbiter.peqBwCb t {s.arbiter with peqBw := rest}}
    | [] => none
  | .arbiterPosedge =>
    match s.arbiter.bwQueue with
    | (t, index) :: rest =>
      some (deliverBw t index {s with arbiter := {s.arbiter with bwQueue := rest}})
    | [] => none
  | .npuPeqFw =>
    match s.npu.peqFw with
    | t :: rest => some {s with npu := NpuTraceReplayer.peqFwCb t {s.npu with peqFw := rest}}
    | [] => none
  | .npuStart =>
    if s.npu.startEvent then some (runNpu (NpuTraceReplayer.startRun cfg.npu s.now) s) else none
  | .npuCompute =>
    match s.npu.thread with
    | .computing _ _ => some (runNpu (NpuTraceReplayer.endCompute cfg.npu s.now) s)
    | _ => none
  | .npuPeqBw =>
    match s.npu.peqBw with
    | t :: rest =>
      some (runNpu (NpuTraceReplayer.peqBwCb t) {s with npu := {s.npu with peqBw := rest}})
    | [] => none
  | .npuResponse =>
    if s.npu.responseEvent then some (runNpu (NpuTraceReplayer.onResponse cfg.npu s.now) s) else none
  | .memPeq =>
    match s.memPeq with
    | t :: rest => some (runMem (MemWrapper.peqCb s.now t) {s with memPeq := rest})
    | [] => none
  | .memIterate answers =>
    match s.mem.thread with
    | .waiting _ _ =>
      if cfg.dramEnabled then
        some (runMem (MemWrapper.iterate cfg.mem {
          active := s.active
          answers := answers} s.now) s)
      else none
    | _ => none
  | .memPosedge => some {s with mem := MemWrapper.clockPosedge s.mem}
  | .memNegedge => some (runMem MemWrapper.clockNegedge s)
  | .pimPeq =>
    match s.pimPeq with
    | t :: rest => some (runPim (PimWrapper.peqCb s.now t) {s with pimPeq := rest})
    | [] => none
  | .pimIterate answers =>
    match s.pim.thread with
    | .waiting _ _ =>
      if cfg.pimEnabled then
        some (runPim (PimWrapper.iterate cfg.pim {
          active := s.active
          answers := answers} s.now) s)
      else none
    | _ => none
  | .pimResume answers =>
    match s.pim.thread with
    | .switching t _ =>
      some (runPim (PimWrapper.resume cfg.pim {
        active := s.active
        answers := answers} s.now t) s)
    | _ => none
  | .pimPosedge => some (runPim (PimWrapper.clockPosedge cfg.pim s.now) s)
  | .pimNegedge => some (pimNegedge cfg s)

theorem fire_move {cfg : Config} {s s' : State} {p : Process} (h : fire cfg s p = some s') :
    Move cfg s s' := by
  cases p with
  | elapse d => cases h; exact .elapse d
  | host => cases h; exact .host
  | hostNegedge => cases h; exact .hostNegedge
  | pimTraceDone =>
    simp only [fire, Option.ite_none_right_eq_some] at h
    obtain ⟨hdone, h⟩ := h
    cases h
    exact .pimTraceDone hdone
  | npuTraceDone =>
    simp only [fire, Option.ite_none_right_eq_some] at h
    obtain ⟨hdone, h⟩ := h
    cases h
    exact .npuTraceDone hdone
  | arbiterPeqFw =>
    simp only [fire] at h
    split at h
    · next t rest hq => cases h; exact .arbiterPeqFw t rest hq
    · cases h
  | arbiterNegedge =>
    simp only [fire] at h
    split at h
    · next t index rest hq => cases h; exact .arbiterNegedge t index rest hq
    · cases h
  | arbiterPeqBw =>
    simp only [fire] at h
    split at h
    · next t rest hq => cases h; exact .arbiterPeqBw t rest hq
    · cases h
  | arbiterPosedge =>
    simp only [fire] at h
    split at h
    · next t index rest hq => cases h; exact .arbiterPosedge t index rest hq
    · cases h
  | npuPeqFw =>
    simp only [fire] at h
    split at h
    · next t rest hq => cases h; exact .npuPeqFw t rest hq
    · cases h
  | npuStart =>
    simp only [fire, Option.ite_none_right_eq_some] at h
    obtain ⟨hstart, h⟩ := h
    cases h
    exact .npuStart hstart
  | npuCompute =>
    simp only [fire] at h
    split at h
    · next wake rest hthread => cases h; exact .npuCompute wake rest hthread
    · cases h
  | npuPeqBw =>
    simp only [fire] at h
    split at h
    · next t rest hq => cases h; exact .npuPeqBw t rest hq
    · cases h
  | npuResponse =>
    simp only [fire, Option.ite_none_right_eq_some] at h
    obtain ⟨hresponse, h⟩ := h
    cases h
    exact .npuResponse hresponse
  | memPeq =>
    simp only [fire] at h
    split at h
    · next t rest hq => cases h; exact .memPeq t rest hq
    · cases h
  | memIterate answers =>
    simp only [fire] at h
    split at h
    · next wake onEvent hthread =>
      rw [Option.ite_none_right_eq_some] at h
      obtain ⟨henabled, h⟩ := h
      cases h
      exact .memIterate answers wake onEvent hthread henabled
    · cases h
  | memPosedge => cases h; exact .memPosedge
  | memNegedge => cases h; exact .memNegedge
  | pimPeq =>
    simp only [fire] at h
    split at h
    · next t rest hq => cases h; exact .pimPeq t rest hq
    · cases h
  | pimIterate answers =>
    simp only [fire] at h
    split at h
    · next wake onEvent hthread =>
      rw [Option.ite_none_right_eq_some] at h
      obtain ⟨henabled, h⟩ := h
      cases h
      exact .pimIterate answers wake onEvent hthread henabled
    · cases h
  | pimResume answers =>
    simp only [fire] at h
    split at h
    · next t wake hthread => cases h; exact .pimResume answers t wake hthread
    · cases h
  | pimPosedge => cases h; exact .pimPosedge
  | pimNegedge => cases h; exact .pimNegedge

instance (s : State) : Decidable (Running s) := inferInstanceAs (Decidable (_ ∧ _ ∧ _ ∧ _ ∧ _))

/-- The state a schedule leads to, `none` if a process has to wait or the simulation has
ended. -/
def run (cfg : Config) (s : State) : List Process → Option State
  | [] => some s
  | p :: rest =>
    if Running s then
      match fire cfg s p with
      | some s' => run cfg s' rest
      | none => none
    else none

theorem run_reachable {cfg : Config} {controls : List SpeculativeControl} {s s' : State}
    (h : Reachable cfg controls s) {schedule : List Process} (hrun : run cfg s schedule = some s') :
    Reachable cfg controls s' := by
  induction schedule generalizing s with
  | nil =>
    cases hrun
    exact h
  | cons p rest ih =>
    simp only [run, Option.ite_none_right_eq_some] at hrun
    obtain ⟨hrunning, hrun⟩ := hrun
    split at hrun
    · next s₁ hfire => exact ih (.next h ⟨hrunning, fire_move hfire⟩) hrun
    · cases hrun

/-- From the start. -/
theorem reachable_of_run {cfg : Config} {controls : List SpeculativeControl} {s : State}
    {schedule : List Process}
    (hrun : run cfg {host := {controls := controls}} schedule = some s) : Reachable cfg controls s :=
  run_reachable (.start rfl) hrun

/-- Memory systems that do nothing, measured at no time, and a compute model that takes none. -/
def idleModels : Models where
  dram := ⟨1, fun _ => 0⟩
  pim := ⟨1, fun _ => 0⟩
  dramCalibration := {}
  pimCalibration := {}
  operationComputeNs := fun _ _ => 0
  hostAllocate := fun n => n + 1
  npuAllocate := fun n => n + 1

end Hsim.System
