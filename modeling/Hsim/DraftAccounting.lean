import Hsim.ByteAccounting
import Hsim.StageEpisodes

/-! The draft's work, from the commands to the report.

A command of a recognised record is at the PIM's desk from its arrival to its
completion, so the ledger has a record of it and files its interval with the
draft's. A barrier is passed when every command of its record has been served;
what the report says about the draft then leaves nothing out. -/
namespace Hsim.System

open Metrics (Device Contributed LabelledDraft completedCommands configured)
open TraceGenerator (SpeculativeControl)

section
variable {cfg : Config} {route : Bool} {controls : List SpeculativeControl}
  {setup : List (Device × UInt32 × String)} {s s' : State} {effects : List Effect}

/-! ### The commands at the desks -/

/-- A command at a desk is on the lane. -/
theorem Lined.desk (h : Lined cfg route s) (hc : Carried cfg s) (hkinds : PimWrapper.Kinds s.pim)
    {d : Device} {t : Payload} (ht : t ∈ waitingAt s d + servingAt s d) (hpim : t.isPim = true) :
    t ∈ lane s := by
  cases d with
  | dram =>
    have hheld : t ∈ MemWrapper.held s.mem := by
      rw [MemWrapper.held_eq]
      exact Multiset.mem_add.mpr (.inl ht)
    have hnot := (hc.mem.traffic t hheld).isPim
    exact absurd (hpim.symm.trans hnot) (by simp)
  | pim =>
    suffices hlane : t ∈ PimWrapper.computeLane s.pim by simp [lane, hlane]
    simp only [PimWrapper.computeLane, PimWrapper.engineLane, List.mem_append, List.mem_filter]
    change t ∈ s.pim.waiting + s.pim.serving at ht
    rw [PimWrapper.waiting_eq] at ht
    simp only [PimWrapper.State.serving, Multiset.mem_add, Multiset.mem_coe] at ht
    rcases ht with ht | (ht | ht) | ht
    · exact .inr ⟨ht, hpim⟩
    · obtain ⟨e, he, rfl⟩ := List.mem_map.mp ht
      exact absurd (hpim.symm.trans (hkinds false e he)) (by simp)
    · exact .inl (.inl (.inr ht))
    · exact .inl (.inr (bridge_lane h.routed.kinds ht hpim))

/-- Between two records nothing is on the lane and every command has been served. -/
theorem Lined.between (h : Lined cfg route s) (hat : atBarrier s.host.thread = false) :
    lane s = [] ∧ s.served = s.host.emitted := by
  have hnone : lane s = [] := (h.order.quiet hat).1
  have horder : s.served ++ lane s = s.host.emitted := h.order.order
  rw [hnone, List.append_nil] at horder
  exact ⟨hnone, horder⟩

/-- The commands at the desks are labelled as draft work. -/
theorem Recorded.labelled (h : Recorded controls s) (hlined : Lined cfg route s) (hc : Carried cfg s)
    (hkinds : PimWrapper.Kinds s.pim) (d : Device) :
    ∀ t ∈ waitingAt s d + servingAt s d, LabelledDraft t := by
  intro t ht hpim
  have hlane := hlined.desk hc hkinds ht hpim
  have hat : atBarrier s.host.thread = true := by
    by_contra hnot
    have hnone := (hlined.between (by simpa using hnot)).1
    rw [hnone] at hlane
    cases hlane
  obtain ⟨i, control, -, -, hnow⟩ := h.current hat
  exact (hnow.commands t (hlined.mem_emitted hlane)).1

/-! ### What a step serves -/

/-- The commands of the current record that are served, or completed and about to be. -/
def finished (s : State) : List Payload := s.served ++ s.pim.computeCompletedQueue

/-- What a step finishes it has reported. -/
theorem Step.finishes (hkinds : PimWrapper.Kinds s.pim) (hstep : Step cfg s s') :
    ∀ t ∈ finished s', t ∈ finished s ∨ t ∈ completedCommands (metricsCalls (called s s')) := by
  have hkept : ∀ s', s'.served = s.served → s'.pim.computeCompletedQueue = s.pim.computeCompletedQueue →
      ∀ t ∈ finished s', t ∈ finished s ∨ t ∈ completedCommands (metricsCalls (called s s')) := by
    intro s' hserved hqueue t ht
    rw [finished, hserved, hqueue] at ht
    exact .inl ht
  have hcalls : ∀ (s₀ : State) (effects : List Effect), (performAll s₀ effects).served = s₀.served ∧
      (performAll s₀ effects).pim = s₀.pim := by
    intro s₀ effects
    rw [performAll_eq]
    exact ⟨rfl, rfl⟩
  have hother : ∀ (s₀ : State) (effects : List Effect), s₀.served = s.served → s₀.pim = s.pim →
      ∀ t ∈ finished (performAll s₀ effects), t ∈ finished s ∨
        t ∈ completedCommands (metricsCalls (called s (performAll s₀ effects))) := by
    intro s₀ effects hserved hpim
    refine hkept _ ((hcalls _ _).1.trans hserved) ?_
    rw [(hcalls _ _).2, hpim]
  have hcompletes : ∀ (pim : PimWrapper.State) (effects : List Effect),
      PimWrapper.Completes s.pim pim effects →
      ∀ t ∈ finished (performAll {s with pim := pim} effects), t ∈ finished s ∨
        t ∈ completedCommands (metricsCalls (called s (performAll {s with pim := pim} effects))) := by
    intro pim effects h t ht
    have hcalled : called s (performAll {s with pim := pim} effects) = effects := called_eq rfl
    rw [hcalled]
    rw [finished, (hcalls _ _).1, (hcalls _ _).2, h.queue, ← List.append_assoc] at ht
    exact List.mem_append.mp ht
  cases hstep.2 with
  | host =>
    have hpim : (runHost cfg s).pim = s.pim := (hcalls _ _).2
    intro t ht
    refine .inl ?_
    rw [finished, hpim] at ht
    rcases List.mem_append.mp ht with ht | ht
    · refine List.mem_append_left _ ?_
      rw [runHost, (hcalls _ _).1] at ht
      dsimp only at ht
      split at ht
      · exact ht
      · cases ht
    · exact List.mem_append_right _ ht
  | pimIterate answers wake onEvent _ _ =>
    exact hcompletes _ _ (PimWrapper.iterate_completes cfg.pim _ _ hkinds)
  | pimResume answers t wake _ => exact hcompletes _ _ (PimWrapper.resume_completes cfg.pim _ _ t _)
  | pimPosedge =>
    refine hkept _ (hcalls _ _).1 ?_
    rw [runPim, (hcalls _ _).2]
    unfold PimWrapper.clockPosedge
    split <;> rfl
  | pimNegedge =>
    intro t ht
    refine .inl ?_
    have hqueue : s.pim.computeCompletedQueue = s.pim.computeCompletedQueue.take 1 ++
        (PimWrapper.clockNegedge cfg.pim s.now s.pim).1.computeCompletedQueue := by
      unfold PimWrapper.clockNegedge
      cases hq : s.pim.computeCompletedQueue with
      | nil => simp [hq]
      | cons t rest => rfl
    have hpim : (pimNegedge cfg s).pim = (PimWrapper.clockNegedge cfg.pim s.now s.pim).1 := (hcalls _ _).2
    rw [finished, hpim] at ht
    rw [finished, hqueue, ← List.append_assoc]
    exact ht
  | arbiterNegedge t index rest _ =>
    unfold deliverFw
    split <;> exact hkept _ rfl rfl
  | arbiterPosedge t index rest _ =>
    unfold deliverBw
    split <;> exact hkept _ rfl rfl
  | elapse d => exact hkept _ rfl rfl
  | hostNegedge => exact hother _ _ rfl rfl
  | pimTraceDone _ => exact hkept _ rfl rfl
  | npuTraceDone _ => exact hkept _ rfl rfl
  | arbiterPeqFw t rest _ => exact hkept _ rfl rfl
  | arbiterPeqBw t rest _ => exact hkept _ rfl rfl
  | npuPeqFw t rest _ => exact hkept _ rfl rfl
  | npuStart _ => exact hother _ _ rfl rfl
  | npuCompute wake rest _ => exact hother _ _ rfl rfl
  | npuPeqBw t rest _ => exact hkept _ rfl rfl
  | npuResponse _ => exact hother _ _ rfl rfl
  | memPeq t rest _ => exact hkept _ rfl rfl
  | memIterate answers wake onEvent _ _ => exact hother _ _ rfl rfl
  | memPosedge => exact hkept _ rfl rfl
  | memNegedge => exact hother _ _ rfl rfl
  | pimPeq t rest _ => exact hkept _ rfl rfl

/-! ### The draft's timeline -/

/-- The finished commands are on the draft's timeline, and it is the PIM's. -/
structure DraftFiled (setup : List (Device × UInt32 × String)) (s : State) : Prop where
  finished : ∀ t ∈ finished s, Contributed (configured setup) (metricsCalls s.log) t
  timelines : (ledger setup s).pimDraftComputeIntervals = (ledger setup s).pimComputeIntervals

/-- A step in which everything at the desks is draft work. -/
theorem Reported.draftFiled (hr : Reported cfg s s' effects) (ha : Audited cfg setup s)
    (hdraft : ∀ d, ∀ t ∈ waitingAt s d + servingAt s d, LabelledDraft t)
    (hfinishes : ∀ t ∈ System.finished s', t ∈ System.finished s ∨
      t ∈ completedCommands (metricsCalls effects))
    (h : DraftFiled setup s) : DraftFiled setup s' := by
  have hkept : ∀ t, Contributed (configured setup) (metricsCalls s.log) t →
      Contributed (configured setup) (metricsCalls s'.log) t := by
    intro t ht
    rw [hr.log, metricsCalls_append]
    exact ht.append _
  cases hr.desk with
  | handled d hdesk _ =>
    constructor
    · intro t ht
      rcases hfinishes t ht with ht | ht
      · exact hkept t (h.finished t ht)
      · rw [hr.log, metricsCalls_append]
        exact Metrics.Tallied.contributes hdesk ha.tallied rfl rfl (hdraft d) t ht
    · rw [ledger_append hr.log]
      exact Metrics.Tallied.sameTimelines hdesk ha.tallied rfl rfl (hdraft d) h.timelines
  | arrived d t bytes k now hcalls =>
    constructor
    · intro u hu
      rcases hfinishes u hu with hu | hu
      · exact hkept u (h.finished u hu)
      · rw [hcalls] at hu
        cases hu
    · have hsame := Metrics.apply_timelines (s := ledger setup s) (c := .arrived d t bytes k now) (by simp)
      rw [ledger_append hr.log, hcalls]
      exact (hsame.2.trans h.timelines).trans hsame.1.symm

end

/-! ### Runs with pools -/

namespace Pooled

open Host (samplePrefix)

variable {cfg : Config} {route : Bool} {controls : List SpeculativeControl}
  {setup : List (Device × UInt32 × String)} {x x' : Pooled}

/-- The accounts of a run. A command the host has acquired belongs to the record it waits
for, or its interval is on the draft's timeline. -/
structure Accounts (cfg : Config) (route : Bool) (controls : List SpeculativeControl)
    (setup : List (Device × UInt32 × String)) (x : Pooled) : Prop where
  lined : x.system.failed = false → Lined cfg route x.system
  recorded : Recorded controls x.system
  draftFiled : DraftFiled setup x.system
  acquired : ∀ t ∈ x.acquired, t.isPim = true →
    (atBarrier x.system.host.thread = true ∧ t ∈ x.system.host.emitted ∧
      t.stage = x.system.host.stage) ∨
    Contributed (configured setup) (metricsCalls x.system.log) t

theorem accounts_initial : Accounts cfg route controls setup {system := {host := {controls := controls}}} := by
  refine ⟨fun _ => lined_initial cfg route rfl, recorded_initial rfl, ⟨?_, ?_⟩, ?_⟩
  · simp [finished]
  · have hdraft := Metrics.configured_kept Metrics.State.pimDraftComputeIntervals
      (fun s d channels mode => by cases d <;> rfl) setup
    have hcompute := Metrics.configured_kept Metrics.State.pimComputeIntervals
      (fun s d channels mode => by cases d <;> rfl) setup
    exact hdraft.trans hcompute.symm
  · simp

/-- What the host acquires of the compute kind is the record it launches. -/
theorem hostAcquired_commands {s s' : State} (hm : Move cfg s s') {t : Payload}
    (ht : t ∈ hostAcquired s s') (hpim : t.isPim = true) :
    atBarrier s'.host.thread = true ∧ t ∈ s'.host.emitted ∧ t.stage = s'.host.stage := by
  have hnone (hstage : s'.host.stage = s.host.stage) : t ∉ hostAcquired s s' := by
    rw [hostAcquired, if_pos hstage]
    exact List.not_mem_nil
  cases hm.stage with
  | launched control rest transactions _ _ hhost =>
    rw [hostAcquired_launched hhost] at ht
    rw [hhost]
    rcases List.mem_cons.mp ht with rfl | ht
    · cases hpim
    · refine ⟨rfl, ht, ?_⟩
      obtain ⟨i, hi, rfl⟩ := List.mem_mapIdx.mp ht
      rfl
  | passed layer _ hhost => exact absurd ht (hnone (by rw [hhost]))
  | same hstage _ _ => exact absurd ht (hnone hstage)

/-- A command of the record the host waits for, after a step. -/
theorem Accounts.waited (h : Accounts cfg route controls setup x) (hlined : Lined cfg route x.system)
    {s : State} {effects : List Effect} (hlog : s.log = x.system.log ++ effects)
    (hm : Move cfg x.system s) {t : Payload} (hat : atBarrier x.system.host.thread = true)
    (ht : t ∈ x.system.host.emitted) (hstage : t.stage = x.system.host.stage) :
    (atBarrier s.host.thread = true ∧ t ∈ s.host.emitted ∧ t.stage = s.host.stage) ∨
      Contributed (configured setup) (metricsCalls s.log) t := by
  cases hm.stage with
  | launched control rest transactions hthread _ _ =>
    rw [hthread] at hat
    cases hat
  | passed layer hthread _ =>
    -- both events are seen, so the whole record has been served
    have hserved : x.system.served = x.system.host.emitted := by
      refine (hlined.order.all_served hat (.inr ?_)).2
      rw [laneOf, hthread]
      rfl
    rw [← hserved] at ht
    have hdone := h.draftFiled.finished t (List.mem_append_left _ ht)
    rw [hlog, metricsCalls_append]
    exact .inr (hdone.append _)
  | same hsame hemitted hbarrier =>
    rw [hbarrier, hemitted, hsame]
    exact .inl ⟨hat, ht, hstage⟩

/-- **A step keeps the accounts.** -/
theorem Step.accounts (hmemory : cfg.npu.memory = if cfg.dramEnabled then .dram else .pim)
    (hroute : ∀ control transactions, cfg.host.emission control = .ok transactions →
      ∀ t ∈ transactions, cfg.pim.localCompute t = route)
    (hlabels : ∀ control ∈ controls, cfg.host.Recognised control) (hx : Reachable cfg controls x)
    (h : Accounts cfg route controls setup x) (hstep : Step cfg x x') :
    Accounts cfg route controls setup x' := by
  have haudited := Reachable.audited hmemory setup hx
  have hone := (Reachable.system hx).oneLaunch hmemory
  obtain ⟨hc, ha⟩ := (Reachable.system hx).accounted hmemory
  have hlined := h.lined hstep.1.1.1
  obtain ⟨effects, hr⟩ := hstep.1.reported hmemory hc ha haudited.kinds
  have hfinishes := hstep.1.finishes haudited.kinds
  rw [called_eq hr.log] at hfinishes
  refine ⟨hstep.1.lined hroute hc hlined, hstep.1.recorded hmemory hlabels hc haudited.kinds hone hlined
    h.recorded, hr.draftFiled haudited (h.recorded.labelled hlined hc haudited.kinds) hfinishes
    h.draftFiled, fun t ht hpim => ?_⟩
  rw [(advance_same hstep.2).2, List.mem_append, List.mem_append] at ht
  rcases ht with (ht | ht) | ht
  · rcases h.acquired t ht hpim with ⟨hat, hemitted, hstage⟩ | hdone
    · exact h.waited hlined hr.log hstep.1.2 hat hemitted hstage
    · rw [hr.log, metricsCalls_append]
      exact .inr (hdone.append _)
  · exact .inl (hostAcquired_commands hstep.1.2 ht hpim)
  · have hnot := (issuedByNpu_fromNpu _ t ht).isPim
    exact absurd (hpim.symm.trans hnot) (by simp)

theorem Reachable.accounts (hmemory : cfg.npu.memory = if cfg.dramEnabled then .dram else .pim)
    (hroute : ∀ control transactions, cfg.host.emission control = .ok transactions →
      ∀ t ∈ transactions, cfg.pim.localCompute t = route)
    (hlabels : ∀ control ∈ controls, cfg.host.Recognised control)
    (setup : List (Device × UInt32 × String)) (h : Reachable cfg controls x) :
    Accounts cfg route controls setup x := by
  induction h with
  | start hi =>
    rw [hi]
    exact accounts_initial
  | next hx hs ih => exact hs.accounts hmemory hroute hlabels hx ih

/-! ### The passed barriers -/

/-- The ledger leaves nothing of a passed stage out: its episode has both ends, the interval
of each of its PIM transactions is on the draft's timeline, every stage run is a completed
episode, and the draft's busy time is that of all PIM computation. -/
structure StagesClosed (controls : List SpeculativeControl) (setup : List (Device × UInt32 × String))
    (x : Pooled) : Prop where
  episodes : ∀ i < passed x.system, ∀ control, controls[i]? = some control →
    ∃ e, (ledger setup x.system).parallelEpisodes[i]? = some e ∧ e.id = samplePrefix control ∧
      e.launchNs ≤ e.npuEndNs ∧ e.launchNs ≤ e.pimEndNs
  drafts : ∀ t ∈ x.acquired, t.isPim = true → t.stage ≤ passed x.system →
    Contributed (configured setup) (metricsCalls x.system.log) t
  completed : atBarrier x.system.host.thread = false →
    (ledger setup x.system).completedEpisodes = x.system.host.stage
  busy : (ledger setup x.system).pimDraftBusyNs =
    Metrics.intervalUnionNs (ledger setup x.system).pimComputeIntervals

/-- The names of the launched stages are those of distinct records. -/
theorem begun_distinct (h : Recorded controls x.system)
    (hdistinct : (controls.map fun control => (control.sampleIndex, control.iteration)).Nodup) :
    "" ∉ Metrics.begun (metricsCalls x.system.log) ∧
      (Metrics.begun (metricsCalls x.system.log)).Nodup := by
  have hnames : (controls.map samplePrefix).Nodup := by
    rw [List.Nodup, List.pairwise_map] at hdistinct ⊢
    refine hdistinct.imp fun hne hname => hne ?_
    obtain ⟨hsample, hiteration⟩ := Host.samplePrefix_inj.mp hname
    rw [hsample, hiteration]
  rw [h.begun]
  constructor
  · intro hmem
    obtain ⟨control, -, hcontrol⟩ := List.mem_map.mp hmem
    exact TraceGenerator.samplePrefix_ne_empty control hcontrol
  · rw [List.map_take]
    exact hnames.sublist (List.take_sublist _ _)

theorem Accounts.stagesClosed (h : Accounts cfg route controls setup x)
    (hdistinct : (controls.map fun control => (control.sampleIndex, control.iteration)).Nodup) :
    StagesClosed controls setup x := by
  obtain ⟨hne, hnodup⟩ := begun_distinct h.recorded hdistinct
  have hledger := Metrics.configured_unlaunched setup
  have hids : (ledger setup x.system).episodeIds =
      (controls.take x.system.host.stage).map samplePrefix := by
    rw [← h.recorded.begun]
    exact (hledger.launched hne hnodup).1
  have hpassed : passed x.system ≤ x.system.host.stage := Nat.sub_le _ _
  have hclosed : ∀ i < passed x.system, ∀ control, controls[i]? = some control →
      ∃ e, (ledger setup x.system).parallelEpisodes[i]? = some e ∧ e.id = samplePrefix control ∧
        e.launchNs ≤ e.npuEndNs ∧ e.launchNs ≤ e.pimEndNs := by
    intro i hi control hcontrol
    have hmem : control ∈ controls.take (passed x.system) := by
      refine List.mem_of_getElem? (i := i) ?_
      rw [List.getElem?_take_of_lt hi]
      exact hcontrol
    have hname : (Metrics.begun (metricsCalls x.system.log))[i]? = some (samplePrefix control) := by
      rw [h.recorded.begun, List.getElem?_map, List.getElem?_take_of_lt (hi.trans_le hpassed), hcontrol]
      rfl
    obtain ⟨hnpu, hpim⟩ := h.recorded.closed control hmem
    exact hledger.closed hne hnodup hname hnpu hpim
  refine ⟨hclosed, fun t ht hpim hstage => ?_, fun hat => ?_, ?_⟩
  · rcases h.acquired t ht hpim with ⟨hat, -, hnow⟩ | hdone
    · obtain ⟨i, control, hi, -, -⟩ := h.recorded.current hat
      rw [passed, hat, hi, Bool.toNat_true] at hstage
      omega
    · exact hdone
  · have hlength : (ledger setup x.system).parallelEpisodes.length = x.system.host.stage := by
      have hcount := congrArg List.length hids
      rw [Metrics.State.episodeIds, List.length_map, List.length_map, List.length_take] at hcount
      rw [hcount]
      exact min_eq_left h.recorded.stage
    have hall : passed x.system = x.system.host.stage := by
      rw [passed, hat]
      rfl
    rw [Metrics.completedEpisodes_eq, hlength]
    intro e he
    obtain ⟨i, hi⟩ := List.mem_iff_getElem?.mp he
    have hlt : i < x.system.host.stage := by
      rw [← hlength]
      exact (List.getElem?_eq_some_iff.mp hi).1
    have hin := hlt.trans_le h.recorded.stage
    obtain ⟨e', he', -, hnpu, hpim⟩ := hclosed i (hall ▸ hlt) controls[i] (List.getElem?_eq_getElem hin)
    obtain rfl := Option.some.inj (hi.symm.trans he')
    exact ⟨hnpu, hpim⟩
  · rw [Metrics.State.pimDraftBusyNs, h.draftFiled.timelines]

/-- **Every passed barrier closes its episode**, when the commands of each record are labelled
for its stage and all commands of the run take the same path through the PIM module. -/
theorem barriers_close_episodes (c : Configurations) (models : Models)
    (setup : List (Device × UInt32 × String)) {controls : List SpeculativeControl}
    (hdistinct : (controls.map fun control => (control.sampleIndex, control.iteration)).Nodup)
    (hlabels : ∀ control ∈ controls, (Host.Config.of c).Recognised control)
    (hpath : (Host.Config.of c).OnePath c.fastLayerModeEnabled) {x : Pooled}
    (h : Reachable (Config.of c models) controls x) : StagesClosed controls setup x := by
  obtain ⟨route, hroute⟩ : ∃ route, ∀ control transactions,
      (Config.of c models).host.emission control = .ok transactions →
      ∀ t ∈ transactions, (Config.of c models).pim.localCompute t = route :=
    Host.Config.OnePath.exists_route _ hpath
  exact (Reachable.accounts rfl hroute hlabels setup h).stagesClosed hdistinct

/-- A run of the projection, with the records of a trace of one iteration. -/
def projectionRun (f : ModeFlags) (schedule : List Process) :
    Option (Configurations × List SpeculativeControl × Pooled) :=
  match initConfigurations (projectionFiles f .partitioned) with
  | .error _ => none
  | .ok c =>
    match TraceGenerator.loadSpeculativeControlTrace c.speculative [TraceGenerator.warmRecord 1 10 11] with
    | .error _ => none
    | .ok controls =>
      (run (Config.of c pooledModels) {system := {host := {controls := controls}}} schedule).map
        fun x => (c, controls, x)

theorem projectionRun_reachable {f : ModeFlags} {schedule : List Process}
    {r : Configurations × List SpeculativeControl × Pooled} (h : projectionRun f schedule = some r) :
    initConfigurations (projectionFiles f .partitioned) = .ok r.1 ∧
      Reachable (Config.of r.1 pooledModels) r.2.1 r.2.2 := by
  unfold projectionRun at h
  split at h
  · cases h
  · next c hc =>
    split at h
    · cases h
    · next controls _ =>
      obtain ⟨x, hx, rfl⟩ := Option.map_eq_some_iff.mp h
      exact ⟨hc, run_reachable (.start rfl) hx⟩

/-- Distinct records, and the barrier of the first is passed. -/
def firstPassed (r : Configurations × List SpeculativeControl × Pooled) : Bool :=
  decide ((r.2.1.map fun control => (control.sampleIndex, control.iteration)).Nodup) &&
    !r.2.1.isEmpty && decide (passed r.2.2.system = 1)

/-- Synthetic macros, and a command of the first stage. -/
def macroPassed (r : Configurations × List SpeculativeControl × Pooled) : Bool :=
  firstPassed r && r.1.syntheticPim.enabled && r.1.syntheticPim.fastLayerMode &&
    r.2.2.acquired.any fun t => t.isPim && decide (t.stage ≤ 1)

theorem projection_passed :
    (projectionRun ⟨true, true, false, true⟩ (wholeStage ++ [.host])).any macroPassed = true := by
  decide +kernel

theorem barriers_close_episodes_projection : ∃ c controls x,
    initConfigurations (projectionFiles ⟨true, true, false, true⟩ .partitioned) = .ok c ∧
    Reachable (Config.of c pooledModels) controls x ∧ passed x.system = 1 ∧
    (∃ t ∈ x.acquired, t.isPim = true ∧ t.stage ≤ passed x.system) ∧ StagesClosed controls [] x := by
  obtain ⟨⟨c, controls, x⟩, hrun, hseen⟩ := (Option.any_eq_true _ _).mp projection_passed
  obtain ⟨hc, hx⟩ := projectionRun_reachable hrun
  simp only [macroPassed, firstPassed, Bool.and_eq_true, List.any_eq_true, decide_eq_true_eq] at hseen
  obtain ⟨⟨⟨⟨⟨hdistinct, -⟩, hpassed⟩, henabled⟩, hfast⟩, t, ht, hpim, hstage⟩ := hseen
  refine ⟨c, controls, x, hc, hx, hpassed, ⟨t, ht, hpim, hstage.trans_eq hpassed.symm⟩, ?_⟩
  refine barriers_close_episodes c pooledModels [] hdistinct (fun _ _ => .inl henabled) (.inr (.inl ?_)) hx
  refine ⟨henabled, ?_⟩
  show (c.syntheticPim.aggregateMicroCommands || c.syntheticPim.fastLayerMode) = true
  rw [hfast, Bool.or_true]

/-- The projection from its profile: the NPU reads from the DRAM, then the PIM serves one
micro command. -/
def templateStage : List Process :=
  [.host, .hostNegedge, .npuPeqFw, .npuStart, .arbiterPeqFw, .arbiterNegedge, .memPeq, .memPosedge,
    .memIterate {accepts := fun _ => true}, .memIterate {callbacks := [(false, 0x10000000)]},
    .memIterate {}, .memNegedge, .arbiterPeqBw, .arbiterPosedge, .npuPeqBw, .npuResponse,
    .npuTraceDone, .hostNegedge, .arbiterPeqFw, .arbiterNegedge, .pimPeq, .pimIterate {},
    .pimResume {}, .elapse 10000, .pimIterate {}, .pimIterate {}, .pimNegedge, .pimTraceDone, .host]

/-- The first episode has no end on the PIM. -/
def openEpisode (r : Configurations × List SpeculativeControl × Pooled) : Bool :=
  firstPassed r && (ledger [] r.2.2.system).parallelEpisodes.head?.any fun e =>
    decide (e.pimEndNs < e.launchNs)

theorem template_passed :
    (projectionRun ⟨false, false, false, false⟩ templateStage).any openEpisode = true := by
  decide +kernel

/-- Without the synthetic PIM the commands are labelled with the layer of their profile, and
their episode stays open. -/
theorem barriers_close_episodes_fails : ¬ ∀ (files : Files) (c : Configurations) (models : Models)
    (setup : List (Device × UInt32 × String)) (controls : List SpeculativeControl) (x : Pooled),
    initConfigurations files = .ok c →
    (controls.map fun control => (control.sampleIndex, control.iteration)).Nodup →
    Reachable (Config.of c models) controls x → StagesClosed controls setup x := by
  intro hall
  obtain ⟨⟨c, controls, x⟩, hrun, hseen⟩ := (Option.any_eq_true _ _).mp template_passed
  obtain ⟨hc, hx⟩ := projectionRun_reachable hrun
  simp only [openEpisode, firstPassed, Bool.and_eq_true, Bool.not_eq_true', List.isEmpty_eq_false_iff,
    decide_eq_true_eq] at hseen
  obtain ⟨⟨⟨hdistinct, hne⟩, hpassed⟩, hopen⟩ := hseen
  have hclosed := hall _ c pooledModels [] controls x hc hdistinct hx
  obtain ⟨control, rest, rfl⟩ := List.exists_cons_of_ne_nil hne
  obtain ⟨e, he, -, -, hend⟩ := hclosed.episodes 0 (by rw [hpassed]; exact Nat.one_pos) control rfl
  rw [List.head?_eq_getElem?, he] at hopen
  simp only [Option.any_some, decide_eq_true_eq] at hopen
  omega

end Pooled

end Hsim.System
