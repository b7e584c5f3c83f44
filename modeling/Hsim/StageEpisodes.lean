import Hsim.DraftLane
import Hsim.StageReports

/-! The episode of a stage.

The host launches an episode under the name of a control record. Both ends are
reported under the name that a label spells: the NPU reads it from the launch,
the PIM from the last command. While the host waits, both are the labels of the
record it waits for, so a barrier that has seen both events has both ends. -/
namespace Hsim.System

open Host (samplePrefix)
open Host.Config (LabelledFor)
open Metrics (begun NpuReported PimReported)
open TraceGenerator (SpeculativeControl)

/-- The control records whose barrier the host has passed. -/
def passed (s : State) : Nat := s.host.stage - (atBarrier s.host.thread).toNat

/-- Both ends of an episode have been reported. -/
def EndsReported (s : State) (id : String) : Prop :=
  NpuReported (metricsCalls s.log) id ∧ PimReported (metricsCalls s.log) id

/-- Everything under way is labelled for a record, and an actor that is done has reported
its end. -/
structure Underway (control : SpeculativeControl) (s : State) : Prop where
  commands : ∀ t ∈ s.host.emitted, LabelledFor control t
  starts : ∀ t ∈ launches s, episodeIdFromLayer t.layer = samplePrefix control
  episode : s.npu.startEvent = true ∨ s.npu.thread ≠ .waitStart →
    s.npu.launch.episodeId = samplePrefix control
  npuEnd : s.npuTraceDone = true ∨ npuSeen s.host.thread = true →
    NpuReported (metricsCalls s.log) (samplePrefix control)
  pimEnd : s.pimTraceDone = true ∨ pimSeen s.host.thread = true →
    PimReported (metricsCalls s.log) (samplePrefix control)

structure Recorded (controls : List SpeculativeControl) (s : State) : Prop where
  stage : s.host.stage ≤ controls.length
  rest : s.host.controls = controls.drop s.host.stage
  begun : begun (metricsCalls s.log) = (controls.take s.host.stage).map samplePrefix
  closed : ∀ control ∈ controls.take (passed s), EndsReported s (samplePrefix control)
  current : atBarrier s.host.thread = true → ∃ i control, s.host.stage = i + 1 ∧
    controls[i]? = some control ∧ Underway control s

theorem recorded_initial {controls : List SpeculativeControl} {s : State} (h : Initial controls s) :
    Recorded controls s := by
  subst h
  refine ⟨Nat.zero_le _, rfl, rfl, ?_, ?_⟩
  · simp [passed]
  · simp [atBarrier]

section
variable {cfg : Config} {route : Bool} {controls : List SpeculativeControl}
  {control : SpeculativeControl} {s s' s₀ : State} {effects : List Effect}

theorem EndsReported.append {id : String} (h : EndsReported s id) (hlog : s'.log = s.log ++ effects) :
    EndsReported s' id := by
  rw [EndsReported, hlog, metricsCalls_append]
  exact ⟨h.1.append _, h.2.append _⟩

/-- A step in which the host neither launches nor passes a barrier. -/
theorem Recorded.still (h : Recorded controls s) (hlog : s'.log = s.log ++ effects)
    (hnone : NoLaunch effects) (hcontrols : s'.host.controls = s.host.controls)
    (hstage : s'.host.stage = s.host.stage)
    (hat : atBarrier s'.host.thread = atBarrier s.host.thread)
    (hunderway : ∀ control, samplePrefix control ∈ Metrics.begun (metricsCalls s.log) →
      Underway control s → Underway control s') : Recorded controls s' := by
  refine ⟨hstage.trans_le h.stage, ?_, ?_, fun control hcontrol => ?_, fun hbarrier => ?_⟩
  · rw [hcontrols, hstage]
    exact h.rest
  · rw [hlog, metricsCalls_append, Metrics.begun_append, hnone, List.append_nil, hstage]
    exact h.begun
  · rw [passed, hstage, hat] at hcontrol
    exact (h.closed control hcontrol).append hlog
  · rw [hat] at hbarrier
    obtain ⟨i, control, hi, hcontrol, hnow⟩ := h.current hbarrier
    refine ⟨i, control, hstage.trans hi, hcontrol, hunderway control ?_ hnow⟩
    rw [h.begun, hi]
    refine List.mem_map_of_mem (List.mem_of_getElem? (i := i) ?_)
    rw [List.getElem?_take_of_lt (Nat.lt_succ_self i)]
    exact hcontrol

/-- A step that neither launches, nor starts a run, nor raises an event. -/
theorem Underway.still (h : Underway control s) (hlog : s'.log = s.log ++ effects)
    (hhost : s'.host.thread = s.host.thread ∧ s'.host.emitted = s.host.emitted)
    (hlaunches : launches s' = launches s)
    (hnpu : s'.npu.startEvent = s.npu.startEvent ∧ s'.npu.thread = s.npu.thread ∧
      s'.npu.launch = s.npu.launch)
    (hevents : s'.npuTraceDone = s.npuTraceDone ∧ s'.pimTraceDone = s.pimTraceDone) :
    Underway control s' := by
  constructor
  · rw [hhost.2]
    exact h.commands
  · rw [hlaunches]
    exact h.starts
  · rw [hnpu.1, hnpu.2.1, hnpu.2.2]
    exact h.episode
  · rw [hevents.1, hhost.1, hlog, metricsCalls_append]
    exact fun hdone => (h.npuEnd hdone).append _
  · rw [hevents.2, hhost.1, hlog, metricsCalls_append]
    exact fun hdone => (h.pimEnd hdone).append _

/-- A step of another module, with calls the stage does not hear. -/
theorem Recorded.calls (h : Recorded controls s) (hhost : s₀.host = s.host) (hnpu : s₀.npu = s.npu)
    (hlog : s₀.log = s.log)
    (hevents : s₀.npuTraceDone = s.npuTraceDone ∧ s₀.pimTraceDone = s.pimTraceDone)
    (hrequests : ∀ t ∈ requestsOf effects, t.dstId ≠ .npu) (hnpuDone : Effect.npuTraceDone ∉ effects)
    (hpimDone : Effect.pimTraceDone ∉ effects) (hnone : NoLaunch effects) :
    Recorded controls (performAll s₀ effects) := by
  have hfiltered : (requestsOf effects).filter (fun t => t.dstId = .npu) = [] := by
    simpa [List.filter_eq_nil_iff] using hrequests
  rw [performAll_eq, hfiltered]
  have hlog' : s₀.log ++ effects = s.log ++ effects := by rw [hlog]
  refine h.still hlog' hnone ?_ ?_ ?_ fun control _ hnow => hnow.still hlog' ?_ ?_ ?_ ?_
  · show s₀.host.controls = _
    rw [hhost]
  · show s₀.host.stage = _
    rw [hhost]
  · show atBarrier s₀.host.thread = _
    rw [hhost]
  · show s₀.host.thread = _ ∧ s₀.host.emitted = _
    rw [hhost]
    exact ⟨rfl, rfl⟩
  · show s₀.npu.peqFw ++ [] ++ s₀.host.pendingQ.filter _ = _
    rw [hhost, hnpu, List.append_nil]
    rfl
  · show s₀.npu.startEvent = _ ∧ s₀.npu.thread = _ ∧ s₀.npu.launch = _
    rw [hnpu]
    exact ⟨rfl, rfl, rfl⟩
  · show (s₀.npuTraceDone || _) = _ ∧ (s₀.pimTraceDone || _) = _
    simp [hnpuDone, hpimDone, hevents]

theorem Recorded.local (h : Recorded controls s) (hhost : s₀.host = s.host) (hnpu : s₀.npu = s.npu)
    (hlog : s₀.log = s.log)
    (hevents : s₀.npuTraceDone = s.npuTraceDone ∧ s₀.pimTraceDone = s.pimTraceDone)
    (hlocal : Local effects) (hnone : NoLaunch effects) : Recorded controls (performAll s₀ effects) :=
  h.calls hhost hnpu hlog hevents (by simp [hlocal.silent.requests]) hlocal.silent.npuTraceDone
    hlocal.silent.pimTraceDone hnone

end

/-! ### The host -/

section
variable {cfg : Config} {route : Bool} {controls : List SpeculativeControl} {s : State}

/-- The stage of a recognised record when it is launched. -/
theorem underway_launched {control : SpeculativeControl} {rest : List SpeculativeControl}
    {transactions : List Payload} (hone : OneLaunch s) (hlined : Lined cfg route s)
    (hlabels : cfg.host.Recognised control) (hthread : s.host.thread = .nextControl)
    (hemission : cfg.host.emission control = .ok transactions) {log : List Effect} :
    Underway control {s with
      host := launchedHost cfg s.host control rest transactions
      served := []
      log := log} := by
  have hzero : launchTokens s = 0 := by
    rw [OneLaunch, hthread] at hone
    simpa [atBarrier] using hone
  simp only [launchTokens, Nat.add_eq_zero_iff] at hzero
  obtain ⟨⟨⟨⟨hlaunches, hstart⟩, hbusy⟩, hdone⟩, -⟩ := hzero
  have hdisarmed : s.npu.startEvent = false := by simpa using hstart
  have hidle : s.npu.thread = .waitStart := by simpa using hbusy
  have hquiet : s.npuTraceDone = false := by simpa using hdone
  have hraised : s.pimTraceDone = false := by
    refine (hlined.order.quiet ?_).2
    rw [laneOf, hthread]
    rfl
  have hlaunch : (stagePayloads cfg s.host control transactions).filter (fun t => t.dstId = .npu) = _ :=
    stagePayloads_launch hemission
  constructor
  · intro t ht
    obtain ⟨i, hi, rfl⟩ := List.mem_mapIdx.mp ht
    exact cfg.host.emission_labelled hlabels hemission transactions[i] (List.getElem_mem hi)
  · intro t ht
    have hnone := List.length_eq_zero_iff.mp hlaunches
    simp only [launches, List.append_eq_nil_iff] at hnone
    simp only [launches, launchedHost, List.filter_append, hlaunch, hnone.1, hnone.2,
      List.nil_append] at ht
    rw [List.mem_singleton.mp ht]
    have hname : episodeIdFromLayer ("target." ++ samplePrefix control ++ "") = samplePrefix control :=
      Host.episodeIdFromLayer_name (by decide) control (by simp)
    simpa [Host.Config.launch] using hname
  · rintro (harmed | hrunning)
    · exact absurd (harmed.symm.trans hdisarmed) (by simp)
    · exact absurd hidle hrunning
  · rintro (hended | hseen)
    · exact absurd (hended.symm.trans hquiet) (by simp)
    · cases hseen
  · rintro (hended | hseen)
    · exact absurd (hended.symm.trans hraised) (by simp)
    · cases hseen

theorem runHost_recorded (hlabels : ∀ control ∈ controls, cfg.host.Recognised control)
    (hone : OneLaunch s) (hlined : Lined cfg route s) (h : Recorded controls s) :
    Recorded controls (runHost cfg s) := by
  cases runHost_turn cfg s with
  | launched control rest transactions hthread hcontrols hemission hs =>
    have hdrop : controls.drop s.host.stage = control :: rest := h.rest.symm.trans hcontrols
    have hat : controls[s.host.stage]? = some control := by
      have hhead := congrArg List.head? hdrop
      rwa [List.head?_drop, List.head?_cons] at hhead
    have hpassed : passed s = s.host.stage := by
      rw [passed, hthread]
      rfl
    rw [hs]
    refine ⟨(List.getElem?_eq_some_iff.mp hat).1, ?_, ?_, fun past hpast => ?_,
      fun _ => ⟨s.host.stage, control, rfl, hat, ?_⟩⟩
    · show rest = controls.drop (s.host.stage + 1)
      rw [← List.drop_drop, hdrop]
      rfl
    · show begun (metricsCalls (s.log ++ _)) = (controls.take (s.host.stage + 1)).map samplePrefix
      rw [metricsCalls_append, Metrics.begun_append, h.begun, List.take_add_one, hat, List.map_append]
      rfl
    · have hbefore : past ∈ controls.take (passed s) := by
        rw [hpassed]
        exact hpast
      exact (h.closed past hbefore).append rfl
    · exact underway_launched hone hlined (hlabels control (List.mem_of_getElem? hat)) hthread hemission
  | passed layer hthread hs =>
    obtain ⟨i, control, hi, hcontrol, hnow⟩ := h.current (by rw [hthread]; rfl)
    have hpassed : passed s = i := by
      rw [passed, hthread, hi]
      rfl
    have hclosed : EndsReported s (samplePrefix control) :=
      ⟨hnow.npuEnd (.inr (by rw [hthread]; rfl)), hnow.pimEnd (.inr (by rw [hthread]; rfl))⟩
    rw [hs]
    refine ⟨h.stage, h.rest, ?_, fun past hpast => ?_, fun hbarrier => by cases hbarrier⟩
    · show begun (metricsCalls (s.log ++ _)) = _
      rw [metricsCalls_append, Metrics.begun_append, h.begun]
      exact List.append_nil _
    · have hsplit : past ∈ controls.take (passed s) ∨ past = control := by
        change past ∈ controls.take s.host.stage at hpast
        rw [hi, List.take_add_one, hcontrol, List.mem_append] at hpast
        rw [hpassed]
        exact hpast.imp_right (fun hlast => List.mem_singleton.mp hlast)
      rcases hsplit with hpast | rfl
      · exact (h.closed past hpast).append rfl
      · exact hclosed.append rfl
  | other thread active effects hthread heffects hs =>
    have hnone : NoLaunch effects := by
      rcases heffects with rfl | ⟨message, rfl⟩ <;> rfl
    rw [hs]
    rcases hthread with rfl | ⟨hfrom, hto⟩
    · exact h.still rfl hnone rfl rfl rfl fun control _ hnow =>
        hnow.still rfl ⟨rfl, rfl⟩ rfl ⟨rfl, rfl, rfl⟩ ⟨rfl, rfl⟩
    · refine ⟨h.stage, h.rest, ?_, fun past hpast => ?_, fun hbarrier => ?_⟩
      · show begun (metricsCalls (s.log ++ effects)) = _
        rw [metricsCalls_append, Metrics.begun_append, hnone, List.append_nil]
        exact h.begun
      · have hbefore : past ∈ controls.take (passed s) := by
          rw [passed, hfrom]
          rwa [passed, hto] at hpast
        exact (h.closed past hbefore).append rfl
      · exact absurd (hbarrier.symm.trans hto) (by simp)

theorem hostNegedge_recorded (h : Recorded controls s) : Recorded controls (hostNegedge s) := by
  cases hq : s.host.pendingQ with
  | nil =>
    rw [hostNegedge_idle hq]
    exact h.local rfl rfl rfl ⟨rfl, rfl⟩ (by simp [Local]) rfl
  | cons t rest =>
    by_cases hdst : t.dstId = .npu
    · rw [hostNegedge_launch hq hdst]
      exact h.still rfl rfl rfl rfl rfl fun control _ hnow =>
        hnow.still rfl ⟨rfl, rfl⟩ (by simp [launches, hq, hdst]) ⟨rfl, rfl, rfl⟩ ⟨rfl, rfl⟩
    · rw [hostNegedge_command hq hdst]
      exact h.still rfl rfl rfl rfl rfl fun control _ hnow =>
        hnow.still rfl ⟨rfl, rfl⟩ (by simp [launches, hq, hdst]) ⟨rfl, rfl, rfl⟩ ⟨rfl, rfl⟩

/-- An event is noted at the barrier. -/
theorem notePim_recorded (h : Recorded controls s) (hdone : s.pimTraceDone = true) :
    Recorded controls {s with pimTraceDone := false, host := Host.notePim s.host} := by
  unfold Host.notePim
  split
  · next layer pim npu hthread =>
    refine h.still (List.append_nil _).symm rfl rfl rfl (by rw [hthread]; rfl) fun control _ hnow => ?_
    exact ⟨hnow.commands, hnow.starts, hnow.episode,
      fun hend => hnow.npuEnd (by rw [hthread]; exact hend), fun _ => hnow.pimEnd (.inl hdone)⟩
  · refine h.still (List.append_nil _).symm rfl rfl rfl rfl fun control _ hnow => ?_
    exact ⟨hnow.commands, hnow.starts, hnow.episode, hnow.npuEnd, fun _ => hnow.pimEnd (.inl hdone)⟩

theorem noteNpu_recorded (h : Recorded controls s) (hdone : s.npuTraceDone = true) :
    Recorded controls {s with npuTraceDone := false, host := Host.noteNpu s.host} := by
  unfold Host.noteNpu
  split
  · next layer pim npu hthread =>
    refine h.still (List.append_nil _).symm rfl rfl rfl (by rw [hthread]; rfl) fun control _ hnow => ?_
    exact ⟨hnow.commands, hnow.starts, hnow.episode, fun _ => hnow.npuEnd (.inl hdone),
      fun hend => hnow.pimEnd (by rw [hthread]; exact hend)⟩
  · refine h.still (List.append_nil _).symm rfl rfl rfl rfl fun control _ hnow => ?_
    exact ⟨hnow.commands, hnow.starts, hnow.episode, fun _ => hnow.npuEnd (.inl hdone), hnow.pimEnd⟩

/-! ### The actors -/

/-- A launch reaches the NPU's registers. -/
theorem npuPeqFw_recorded (hc : Carried cfg s) (h : Recorded controls s) {t : Payload}
    {rest : List Payload} (hq : s.npu.peqFw = t :: rest) :
    Recorded controls {s with npu := NpuTraceReplayer.peqFwCb t {s.npu with peqFw := rest}} := by
  have ht := hc.launches t (by rw [hq]; exact List.mem_cons_self)
  rw [NpuTraceReplayer.peqFwCb, if_pos ht.1]
  refine h.still (List.append_nil _).symm rfl rfl rfl rfl fun control _ hnow => ?_
  have hfront : launches s = t :: (rest ++ s.host.pendingQ.filter (fun t => t.dstId = .npu)) := by
    rw [launches, hq, List.cons_append]
  have hstarts := hnow.starts
  rw [hfront, List.forall_mem_cons] at hstarts
  exact ⟨hnow.commands, hstarts.2, fun _ => hstarts.1, hnow.npuEnd, hnow.pimEnd⟩

/-- The replay thread runs, at its start or in a run. -/
theorem npu_recorded (h : Recorded controls s) {npu₀ npu : NpuTraceReplayer.State}
    {effects : List Effect} {now : Time} (hran : NpuTraceReplayer.Ran cfg.npu npu₀ npu effects)
    (hmemory : cfg.npu.memory = if cfg.dramEnabled then .dram else .pim)
    (hcloses : NpuTraceReplayer.Closes s.npu.launch.episodeId now effects)
    (hlaunch : npu₀.launch = s.npu.launch) (hfw : npu₀.peqFw = s.npu.peqFw)
    (hbusy : s.npu.startEvent = true ∨ s.npu.thread ≠ .waitStart) :
    Recorded controls (performAll {s with npu := npu} effects) := by
  rw [performAll_ran s hran hmemory]
  refine h.still rfl hcloses.noLaunch rfl rfl rfl fun control hbegun hnow => ?_
  have hname := hnow.episode hbusy
  constructor
  · exact hnow.commands
  · intro t ht
    refine hnow.starts t ?_
    rw [launches, ← hfw, ← hran.peqFw]
    simpa [launches] using ht
  · intro _
    show npu.launch.episodeId = samplePrefix control
    rw [hran.launch, hlaunch]
    exact hname
  · intro hend
    show NpuReported (metricsCalls (s.log ++ effects)) (samplePrefix control)
    rw [metricsCalls_append]
    by_cases hdone : Effect.npuTraceDone ∈ effects
    · have hcall := hcloses.closed hdone
      rw [hname] at hcall
      exact Metrics.endReported_of_mem hbegun hcall
    · refine (hnow.npuEnd ?_).append _
      simpa [hdone] using hend
  · intro hend
    show PimReported (metricsCalls (s.log ++ effects)) (samplePrefix control)
    rw [metricsCalls_append]
    refine (hnow.pimEnd ?_).append _
    simpa [hran.pimTraceDone] using hend

/-- The falling edge of the PIM serves a command of the record. -/
theorem pimNegedge_recorded (hlined : Lined cfg route s) (h : Recorded controls s) :
    Recorded controls (pimNegedge cfg s) := by
  have hnoLaunch := PimWrapper.clockNegedge_noLaunch cfg.pim s.now s.pim
  rcases PimWrapper.clockNegedge_serves cfg.pim s.now s.pim with
    ⟨hq, -⟩ | ⟨t, rest, effects, hq, heffects, hlocal, -, -⟩
  · rw [pimNegedge_idle hq]
    exact h.local rfl rfl rfl ⟨rfl, rfl⟩ (by simp [Local]) rfl
  · have hlane : t ∈ lane s := by
      simp [lane, PimWrapper.computeLane, PimWrapper.engineLane, hq]
    obtain ⟨hrequests, -, -, hnpuDone⟩ := clockNegedge_quiet cfg.pim s.now s.pim
    have hpimDone : Effect.pimTraceDone ∈ (PimWrapper.clockNegedge cfg.pim s.now s.pim).2 →
        t.last = true := by
      rw [heffects]
      cases t.last <;> simp [hlocal.silent.pimTraceDone]
    rw [pimNegedge, runPim, performAll_eq, hrequests]
    refine h.still rfl hnoLaunch rfl rfl rfl fun control hbegun hnow => ?_
    constructor
    · exact hnow.commands
    · simpa [launches] using hnow.starts
    · exact hnow.episode
    · intro hend
      show NpuReported (metricsCalls (s.log ++ _)) (samplePrefix control)
      rw [metricsCalls_append]
      refine (hnow.npuEnd ?_).append _
      simpa [hnpuDone] using hend
    · intro hend
      show PimReported (metricsCalls (s.log ++ _)) (samplePrefix control)
      rw [metricsCalls_append]
      by_cases hdone : Effect.pimTraceDone ∈ (PimWrapper.clockNegedge cfg.pim s.now s.pim).2
      · obtain ⟨hdraft, hname⟩ := hnow.commands t (hlined.mem_emitted hlane)
        have hcall := PimWrapper.clockNegedge_announces cfg.pim s.now hq (hpimDone hdone) hdraft
        rw [hname] at hcall
        exact Metrics.endReported_of_mem hbegun hcall
      · refine (hnow.pimEnd ?_).append _
        simpa [hdone] using hend

end

/-- **A step keeps the account of the episodes.** -/
theorem Step.recorded {cfg : Config} {route : Bool}
    (hmemory : cfg.npu.memory = if cfg.dramEnabled then .dram else .pim)
    {controls : List SpeculativeControl} (hlabels : ∀ control ∈ controls, cfg.host.Recognised control)
    {s s' : State} (hc : Carried cfg s) (hkinds : PimWrapper.Kinds s.pim) (hone : OneLaunch s)
    (hlined : Lined cfg route s) (h : Recorded controls s) (hstep : Step cfg s s') :
    Recorded controls s' := by
  have hquiet : ∀ s', s'.log = s.log → s'.host = s.host → s'.npu = s.npu →
      s'.npuTraceDone = s.npuTraceDone ∧ s'.pimTraceDone = s.pimTraceDone → Recorded controls s' := by
    intro s' hlog hhost hnpu hevents
    have hsame : s'.log = s.log ++ [] := by rw [hlog, List.append_nil]
    refine h.still hsame rfl ?_ ?_ ?_ fun control _ hnow => hnow.still hsame ?_ ?_ ?_ hevents
    all_goals simp [hhost, hnpu, launches]
  cases hstep.2 with
  | elapse d => exact hquiet _ rfl rfl rfl ⟨rfl, rfl⟩
  | host => exact runHost_recorded hlabels hone hlined h
  | hostNegedge => exact hostNegedge_recorded h
  | pimTraceDone hdone => exact notePim_recorded h hdone
  | npuTraceDone hdone => exact noteNpu_recorded h hdone
  | arbiterPeqFw t rest hq => exact hquiet _ rfl rfl rfl ⟨rfl, rfl⟩
  | arbiterNegedge t index rest hq =>
    unfold deliverFw
    split <;> exact hquiet _ rfl rfl rfl ⟨rfl, rfl⟩
  | arbiterPeqBw t rest hq => exact hquiet _ rfl rfl rfl ⟨rfl, rfl⟩
  | arbiterPosedge t index rest hq =>
    unfold deliverBw
    split <;> exact h.still (List.append_nil _).symm rfl rfl rfl rfl fun control _ hnow =>
      hnow.still (List.append_nil _).symm ⟨rfl, rfl⟩ rfl ⟨rfl, rfl, rfl⟩ ⟨rfl, rfl⟩
  | npuPeqFw t rest hq => exact npuPeqFw_recorded hc h hq
  | npuStart hstart =>
    exact npu_recorded h (NpuTraceReplayer.startRun_ran hc.npu s.now) hmemory
      (NpuTraceReplayer.startRun_closes cfg.npu s.now s.npu) rfl rfl (.inl hstart)
  | npuCompute wake rest hthread =>
    exact npu_recorded h (NpuTraceReplayer.endCompute_ran hc.npu s.now) hmemory
      (NpuTraceReplayer.endCompute_closes cfg.npu s.now s.npu) rfl rfl (.inr (by simp [hthread]))
  | npuPeqBw t rest hq =>
    exact h.still rfl rfl rfl rfl rfl fun control _ hnow =>
      hnow.still rfl ⟨rfl, rfl⟩ (by simp [launches, performAll, perform, runNpu, NpuTraceReplayer.peqBwCb])
        ⟨rfl, rfl, rfl⟩ ⟨rfl, rfl⟩
  | npuResponse hevent =>
    by_cases hthread : s.npu.thread = .waitStart
    · have hsame : NpuTraceReplayer.onResponse cfg.npu s.now s.npu =
          ({s.npu with responseEvent := false}, []) := by
        simp only [NpuTraceReplayer.onResponse, hthread]
      have hs : Recorded controls {s with npu := {s.npu with responseEvent := false}} :=
        h.still (List.append_nil _).symm rfl rfl rfl rfl fun control _ hnow =>
          hnow.still (List.append_nil _).symm ⟨rfl, rfl⟩ rfl ⟨rfl, rfl, rfl⟩ ⟨rfl, rfl⟩
      rw [runNpu, hsame]
      exact hs.local rfl rfl rfl ⟨rfl, rfl⟩ (by simp [Local]) rfl
    · exact npu_recorded h (NpuTraceReplayer.onResponse_ran hc.npu s.now) hmemory
        (NpuTraceReplayer.onResponse_closes cfg.npu s.now s.npu) rfl rfl (.inr hthread)
  | memPeq t rest hq =>
    have ht := hc.memPeq t (by rw [hq]; exact List.mem_cons_self)
    obtain ⟨-, -, hlocal⟩ := MemWrapper.peqCb_arrives hc.mem s.now ht
    exact h.local rfl rfl rfl ⟨rfl, rfl⟩ hlocal rfl
  | memIterate answers wake onEvent _ _ =>
    exact h.local rfl rfl rfl ⟨rfl, rfl⟩ (MemWrapper.iterate_moves hc.mem cfg.mem _ _).locals
      (MemWrapper.iterate_noLaunch hc.mem cfg.mem _ _)
  | memPosedge => exact hquiet _ rfl rfl rfl ⟨rfl, rfl⟩
  | memNegedge =>
    have hnone := MemWrapper.clockNegedge_noLaunch s.mem
    rcases MemWrapper.clockNegedge_answers hc.mem with hidle | ⟨t, heffects, -, -⟩
    · rw [runMem, hidle]
      exact h.local rfl rfl rfl ⟨rfl, rfl⟩ (by simp [Local]) rfl
    · rw [runMem, heffects]
      exact h.calls rfl rfl rfl ⟨rfl, rfl⟩ (by simp [requestsOf]) (by simp) (by simp) rfl
  | pimPeq t rest hq =>
    have hlocal : Local (PimWrapper.peqCb s.now t s.pim).2 := by
      simp [Local, PimWrapper.peqCb, Effect.isLocal]
    exact h.local rfl rfl rfl ⟨rfl, rfl⟩ hlocal rfl
  | pimIterate answers wake onEvent hthread _ =>
    exact h.local rfl rfl rfl ⟨rfl, rfl⟩ (PimWrapper.iterate_moves hthread cfg.pim _ _).locals
      (PimWrapper.iterate_completes cfg.pim _ _ hkinds).noLaunch
  | pimResume answers t wake hthread =>
    exact h.local rfl rfl rfl ⟨rfl, rfl⟩ (PimWrapper.resume_moves hthread cfg.pim _ _).locals
      (PimWrapper.resume_completes cfg.pim _ _ t _).noLaunch
  | pimPosedge =>
    rcases PimWrapper.clockPosedge_answers cfg.pim s.now (fun t ht => (hc.pim t ht).1) with
      hidle | ⟨t, heffects, -, -⟩
    · rw [runPim, hidle]
      exact h.local rfl rfl rfl ⟨rfl, rfl⟩ (by simp [Local]) rfl
    · rw [runPim, heffects]
      exact h.calls rfl rfl rfl ⟨rfl, rfl⟩ (by simp [requestsOf]) (by simp) (by simp) rfl
  | pimNegedge => exact pimNegedge_recorded hlined h

end Hsim.System
