import Hsim.Launches
import Hsim.Lib.Pool

/-! Payload ownership.

The host and the NPU each have a pool, `mm`. A payload is acquired once, when
its module allocates it, and goes back to its pool when it is released as often.
The pools are not part of the modules' states: what a step allocates and
releases can be read off it, and a run with pools (`Pooled`) is a run of the
system in which every payload handed out is the one its pool hands out. -/
namespace Hsim.System

/-! ### The commands in the system -/

/-- The PIM commands that are not served, wherever they are. -/
def commands (s : State) : Multiset Payload :=
  (s.host.pendingQ.filter Payload.isPim : List Payload) +
    (s.arbiter.peqFw.filter Payload.isPim : List Payload) +
    ((s.arbiter.fwQueue.map (·.1)).filter Payload.isPim : List Payload) +
    (s.pimPeq.filter Payload.isPim : List Payload) + PimWrapper.inside s.pim true

/-- What the host acquires in a step: the payloads of the stage it launches. -/
def hostAcquired (s s' : State) : List Payload :=
  if s'.host.stage = s.host.stage then [] else s'.host.pendingQ.drop s.host.pendingQ.length

/-- The calls of a step. -/
def called (s s' : State) : List Effect := s'.log.drop s.log.length

theorem called_eq {s s' : State} {effects : List Effect} (h : s'.log = s.log ++ effects) :
    called s s' = effects := by
  rw [called, h, List.drop_left]

section
variable {cfg : Config} {s : State}

theorem filter_isPim_cons (t : Payload) (rest : List Payload) :
    (t :: rest).filter Payload.isPim = [t].filter Payload.isPim ++ rest.filter Payload.isPim := by
  rw [← List.filter_append, List.singleton_append]

theorem filter_isPim_eq (l : List Payload) :
    l.filter (fun t => t.isPim = true) = l.filter Payload.isPim := by
  congr 1
  funext t
  simp

/-- A process that moves what is inside the PIM module. -/
theorem commands_pim {pim : PimWrapper.State}
    (h : PimWrapper.inside pim true ≤ PimWrapper.inside s.pim true) (effects : List Effect)
    (hrequests : requestsOf effects = []) :
    commands (performAll {s with pim := pim} effects) ≤ commands s := by
  rw [performAll_eq, hrequests]
  simp only [commands, List.filter_nil, List.append_nil]
  exact add_le_add le_rfl h

theorem commands_mem (mem : MemWrapper.State) (effects : List Effect)
    (hrequests : requestsOf effects = []) :
    commands (performAll {s with mem := mem} effects) = commands s := by
  rw [performAll_eq, hrequests]
  simp [commands]

theorem commands_hostNegedge (h : Carried cfg s) : commands (hostNegedge s) ≤ commands s := by
  cases hq : s.host.pendingQ with
  | nil =>
    rw [hostNegedge_idle hq]
    exact le_rfl
  | cons t rest =>
    have ht := h.pendingQ t (by rw [hq]; exact List.mem_cons_self)
    rcases ht with ht | ht
    · rw [hostNegedge_command hq (by simp [ht.2])]
      simp only [commands, hq, filter_isPim_cons t rest, List.filter_append, ← Multiset.coe_add]
      apply le_of_eq
      abel
    · rw [hostNegedge_launch hq ht.2]
      simp [commands, hq, ht.isPim]

theorem commands_deliverFw {t : Payload} {index : Nat} {rest : List (Payload × Nat)}
    (hq : s.arbiter.fwQueue = (t, index) :: rest) :
    commands (deliverFw cfg t index {s with arbiter := {s.arbiter with fwQueue := rest}}) ≤
      commands s := by
  have hmap : ((t, index) :: rest).map (·.1) = t :: rest.map (·.1) := rfl
  have hleft : commands {s with arbiter := {s.arbiter with fwQueue := rest}} ≤ commands s := by
    simp only [commands, hq, hmap, filter_isPim_cons t (rest.map _), ← Multiset.coe_add]
    refine add_le_add (add_le_add (add_le_add le_rfl ?_) le_rfl) le_rfl
    exact Multiset.le_add_left _ _
  unfold deliverFw
  split
  · exact hleft
  · apply le_of_eq
    simp only [commands, hq, hmap, filter_isPim_cons t (rest.map _), List.filter_append,
      ← Multiset.coe_add]
    abel
  · exact hleft

theorem commands_pimNegedge : commands (pimNegedge cfg s) ≤ commands s := by
  have hle : PimWrapper.inside (PimWrapper.clockNegedge cfg.pim s.now s.pim).1 true ≤
      PimWrapper.inside s.pim true := by
    rcases PimWrapper.clockNegedge_serves cfg.pim s.now s.pim with
      ⟨-, hidle⟩ | ⟨t, rest, effects, -, -, -, hheld, -⟩
    · rw [hidle]
    · rw [hheld]
      exact Multiset.le_cons_self _ _
  exact commands_pim hle _ (clockNegedge_quiet cfg.pim s.now s.pim).1

theorem commands_pimPosedge (h : Carried cfg s) :
    commands (runPim (PimWrapper.clockPosedge cfg.pim s.now) s) ≤ commands s := by
  rcases PimWrapper.clockPosedge_answers cfg.pim s.now (fun t ht => (h.pim t ht).1) with
    hidle | ⟨t, heffects, -, hsame⟩
  · rw [runPim, hidle]
    exact commands_pim le_rfl [] rfl
  · exact commands_pim hsame.le _ (by rw [heffects]; rfl)

/-- A stage that is launched is what the host acquires. -/
theorem hostAcquired_launched {s' : State} {control : TraceGenerator.SpeculativeControl}
    {rest : List TraceGenerator.SpeculativeControl} {transactions : List Payload}
    (hhost : s'.host = launchedHost cfg s.host control rest transactions) :
    hostAcquired s s' = stagePayloads cfg s.host control transactions := by
  rw [hostAcquired, hhost]
  simp [launchedHost]

/-- A stage that is launched adds its payloads. -/
theorem commands_runHost :
    commands (runHost cfg s) ≤
      commands s + ((hostAcquired s (runHost cfg s)).filter Payload.isPim : List Payload) := by
  cases runHost_turn cfg s with
  | launched control rest transactions _ _ _ hs =>
    have hacquired : hostAcquired s (runHost cfg s) = stagePayloads cfg s.host control transactions :=
      hostAcquired_launched (by rw [hs])
    rw [hacquired, hs]
    simp only [commands, launchedHost, List.filter_append, ← Multiset.coe_add]
    apply le_of_eq
    abel
  | passed layer _ hs =>
    rw [hs]
    exact Multiset.le_add_right _ _
  | other thread active effects _ _ hs =>
    rw [hs]
    exact Multiset.le_add_right _ _

theorem runNpu_requests {npu₀ npu : NpuTraceReplayer.State} {effects : List Effect}
    (hran : NpuTraceReplayer.Ran cfg.npu npu₀ npu effects) :
    commands (performAll {s with npu := npu} effects) = commands s := by
  have hnone : ((requestsOf effects).filter (fun t => ¬ t.dstId = .npu)).filter Payload.isPim = [] := by
    rw [List.filter_eq_nil_iff]
    intro t ht
    have hpim := (hran.sent t (List.mem_of_mem_filter ht)).1.fromNpu.isPim
    simp [hpim]
  rw [performAll_eq]
  simp only [commands, List.filter_append, hnone, List.append_nil]

end

/-- **What a step does to the commands.** It moves them on, serves one, or adds those of a
stage. -/
theorem Step.commands {cfg : Config} {s s' : State} (h : Carried cfg s) (hstep : Step cfg s s') :
    System.commands s' ≤
      System.commands s + ((hostAcquired s s').filter Payload.isPim : List Payload) := by
  suffices hkept : System.commands s' ≤ System.commands s ∨ s' = runHost cfg s by
    rcases hkept with hkept | rfl
    · exact hkept.trans (Multiset.le_add_right _ _)
    · exact commands_runHost
  cases hstep.2 with
  | elapse d => exact .inl le_rfl
  | host => exact .inr rfl
  | hostNegedge => exact .inl (commands_hostNegedge h)
  | pimTraceDone _ =>
    refine .inl (le_of_eq ?_)
    unfold Host.notePim
    split <;> rfl
  | npuTraceDone _ =>
    refine .inl (le_of_eq ?_)
    unfold Host.noteNpu
    split <;> rfl
  | arbiterPeqFw t rest hq =>
    refine .inl (le_of_eq ?_)
    simp only [System.commands, Arbiter.peqFwCb, hq, filter_isPim_cons t rest, List.map_append,
      List.map_cons, List.map_nil, List.filter_append, ← Multiset.coe_add]
    abel
  | arbiterNegedge t index rest hq => exact .inl (commands_deliverFw hq)
  | arbiterPeqBw t rest hq => exact .inl le_rfl
  | arbiterPosedge t index rest hq =>
    refine .inl (le_of_eq ?_)
    unfold deliverBw
    split <;> rfl
  | npuPeqFw t rest hq => exact .inl le_rfl
  | npuStart hstart =>
    exact .inl (runNpu_requests (NpuTraceReplayer.startRun_ran h.npu s.now)).le
  | npuCompute wake rest hthread =>
    exact .inl (runNpu_requests (NpuTraceReplayer.endCompute_ran h.npu s.now)).le
  | npuPeqBw t rest hq => exact .inl le_rfl
  | npuResponse hevent =>
    exact .inl (runNpu_requests (NpuTraceReplayer.onResponse_ran h.npu s.now)).le
  | memPeq t rest hq =>
    have ht := h.memPeq t (by rw [hq]; exact List.mem_cons_self)
    have hlocal := (MemWrapper.peqCb_arrives h.mem s.now ht).2.2
    exact .inl (commands_mem (s := {s with memPeq := rest}) _ _ hlocal.silent.requests).le
  | memIterate answers wake onEvent _ _ =>
    exact .inl (commands_mem _ _ (MemWrapper.iterate_moves h.mem cfg.mem _ _).locals.silent.requests).le
  | memPosedge => exact .inl le_rfl
  | memNegedge =>
    refine .inl (commands_mem _ _ ?_).le
    rcases MemWrapper.clockNegedge_answers h.mem with hidle | ⟨t, heffects, -, -⟩
    · rw [hidle]
      rfl
    · rw [heffects]
      rfl
  | pimPeq t rest hq =>
    refine .inl (le_of_eq ?_)
    have hinside := PimWrapper.peqCb_inside s.now t s.pim true
    rw [filter_isPim_eq] at hinside
    have hs : System.commands (runPim (PimWrapper.peqCb s.now t) {s with pimPeq := rest}) =
        System.commands {s with
          pimPeq := rest
          pim := (PimWrapper.peqCb s.now t s.pim).1} := rfl
    rw [hs]
    simp only [System.commands, hinside, hq, filter_isPim_cons t rest, ← Multiset.coe_add]
    abel
  | pimIterate answers wake onEvent hthread _ =>
    have hmoves := PimWrapper.iterate_moves hthread cfg.pim {
      active := s.active
      answers := answers} s.now
    exact .inl (commands_pim (hmoves.inside true).le _ hmoves.locals.silent.requests)
  | pimResume answers t wake hthread =>
    have hmoves := PimWrapper.resume_moves hthread cfg.pim {
      active := s.active
      answers := answers} s.now
    exact .inl (commands_pim (hmoves.inside true).le _ hmoves.locals.silent.requests)
  | pimPosedge => exact .inl (commands_pimPosedge h)
  | pimNegedge => exact .inl commands_pimNegedge

/-! ### Runs with pools -/

/-- `mm`: objects are known by their address. -/
abbrev Mm := Lib.Pool Nat

/-- The system with the pools of the host and the NPU and the reference counts of the
payloads. Ghost: the payloads acquired so far. -/
structure Pooled where
  system : State
  host : Mm := {}
  npu : Mm := {}
  refs : Nat → Nat := fun _ => 0
  acquired : List Payload := []

namespace Pooled

/-- `release`: the last reference gives the payload back to the pool that made it. -/
def release (x : Pooled) (t : Payload) : Pooled :=
  let count := x.refs t.ptr - 1
  let x := {x with refs := Function.update x.refs t.ptr count}
  if count = 0 then
    if t.ptr ∈ x.npu.made then {x with npu := x.npu.free t.ptr} else {x with host := x.host.free t.ptr}
  else x

/-- The pools after a step of the system, `none` if a payload is not the one its pool hands
out. No object is at the null pointer or at the address of another. -/
def advance (x : Pooled) (s : State) : Option Pooled :=
  let forHost := hostAcquired x.system s
  let forNpu := issuedByNpu (called x.system s)
  (x.host.allocateAll (0 :: x.npu.made) (forHost.map (·.ptr))).bind fun host =>
    (x.npu.allocateAll (0 :: host.made) (forNpu.map (·.ptr))).bind fun npu =>
      some ((releasesOf (called x.system s)).foldl release {
        system := s
        host := host
        npu := npu
        refs := fun ptr => x.refs ptr + ((forHost ++ forNpu).map (·.ptr)).count ptr
        acquired := x.acquired ++ forHost ++ forNpu})

def Step (cfg : Config) (x x' : Pooled) : Prop :=
  System.Step cfg x.system x'.system ∧ x.advance x'.system = some x'

abbrev Reachable (cfg : Config) (controls : List TraceGenerator.SpeculativeControl) : Pooled → Prop :=
  Lib.Reach (fun x => x = {system := {host := {controls := controls}}}) (Step cfg)

theorem Reachable.system {cfg : Config} {controls : List TraceGenerator.SpeculativeControl} {x : Pooled}
    (h : Reachable cfg controls x) : System.Reachable cfg controls x.system := by
  induction h with
  | start hi =>
    rw [hi]
    exact .start rfl
  | next _ hs ih => exact .next ih hs.1

end Pooled

/-! ### The host's payloads -/

/-- A step of the host from stage to stage: it launches one, passes its barrier, or stays on
the same side of it. -/
inductive StageMoved (cfg : Config) (s s' : State) : Prop where
  | launched (control : TraceGenerator.SpeculativeControl)
    (rest : List TraceGenerator.SpeculativeControl) (transactions : List Payload)
    (hthread : s.host.thread = .nextControl) (hemission : cfg.host.emission control = .ok transactions)
    (hhost : s'.host = launchedHost cfg s.host control rest transactions)
  | passed (layer : String) (hthread : s.host.thread = .barrier layer true true)
    (hhost : s'.host = {s.host with thread := .nextControl})
  | same (hstage : s'.host.stage = s.host.stage) (hemitted : s'.host.emitted = s.host.emitted)
    (hbarrier : atBarrier s'.host.thread = atBarrier s.host.thread)

theorem Move.stage {cfg : Config} {s s' : State} (hm : Move cfg s s') : StageMoved cfg s s' := by
  have hcalls : ∀ (s₀ : State) (effects : List Effect), (performAll s₀ effects).host = s₀.host := by
    intro s₀ effects
    rw [performAll_eq]
  have hsame (hhost : s'.host = s.host) : StageMoved cfg s s' :=
    .same (by rw [hhost]) (by rw [hhost]) (by rw [hhost])
  cases hm with
  | host =>
    cases runHost_turn cfg s with
    | launched control rest transactions hthread _ hemission hs =>
      exact .launched control rest transactions hthread hemission (by rw [hs])
    | passed layer hthread hs => exact .passed layer hthread (by rw [hs])
    | other thread active effects hthread _ hs =>
      rw [hs]
      refine .same rfl rfl ?_
      rcases hthread with rfl | ⟨hfrom, hto⟩
      · rfl
      · exact hto.trans hfrom.symm
  | hostNegedge =>
    have hhost : (System.hostNegedge s).host = (Host.clockNegedge s.host).1 := hcalls _ _
    unfold Host.clockNegedge at hhost
    split at hhost <;> exact .same (by rw [hhost]) (by rw [hhost]) (by rw [hhost])
  | pimTraceDone _ =>
    unfold Host.notePim
    split
    · next hthread => exact .same rfl rfl (by rw [hthread]; rfl)
    · exact .same rfl rfl rfl
  | npuTraceDone _ =>
    unfold Host.noteNpu
    split
    · next hthread => exact .same rfl rfl (by rw [hthread]; rfl)
    · exact .same rfl rfl rfl
  | arbiterNegedge t index rest _ =>
    unfold deliverFw at hsame ⊢
    split at hsame <;> exact hsame rfl
  | arbiterPosedge t index rest _ =>
    unfold deliverBw
    split <;> exact .same rfl rfl rfl
  | elapse d => exact hsame rfl
  | arbiterPeqFw t rest _ => exact hsame rfl
  | arbiterPeqBw t rest _ => exact hsame rfl
  | npuPeqFw t rest _ => exact hsame rfl
  | npuStart _ => exact hsame (hcalls _ _)
  | npuCompute wake rest _ => exact hsame (hcalls _ _)
  | npuPeqBw t rest _ => exact hsame (hcalls _ _)
  | npuResponse _ => exact hsame (hcalls _ _)
  | memPeq t rest _ => exact hsame (hcalls _ _)
  | memIterate answers wake onEvent _ _ => exact hsame (hcalls _ _)
  | memPosedge => exact hsame rfl
  | memNegedge => exact hsame (hcalls _ _)
  | pimPeq t rest _ => exact hsame (hcalls _ _)
  | pimIterate answers wake onEvent _ _ => exact hsame (hcalls _ _)
  | pimResume answers t wake _ => exact hsame (hcalls _ _)
  | pimPosedge => exact hsame (hcalls _ _)
  | pimNegedge => exact hsame (hcalls _ _)

end Hsim.System
