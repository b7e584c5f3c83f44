import Hsim.DraftAccounting
import Hsim.DraftLabels
import Hsim.NpuAddresses
import Hsim.NpuLabels

/-! The draft in the cycle log of a run.

In a run every macro is handed to the engine once, in the order of the records
and of their loops, and nothing else is logged under a draft label: the target's
traffic has labels of its own, and the other modules write other records. So if
the macros of a run have different coordinates, each has a bar of its own, which
is its slot on the engine in whole nanoseconds, and no bar reaches into the next. -/
namespace Hsim

open PimWrapper (Unmarked unmarked_nil unmarked_cons isDraft engineLane started)

/-! ### The calls of the other modules -/

namespace MemWrapper

theorem unmarked_signalSync (map : String → Option UInt32) (layer : String) :
    Unmarked (signalSync map layer) := by
  unfold signalSync
  split
  · refine Unmarked.append ?_ (unmarked_cons rfl unmarked_nil)
    split
    · exact unmarked_cons rfl unmarked_nil
    · exact unmarked_nil
  · exact unmarked_nil

theorem takeCompleted_unmarked (cfg : Config) (now : Time) (s : State) :
    Unmarked (takeCompleted cfg now s).2 := by
  unfold takeCompleted
  split
  · exact unmarked_nil
  · next t bridge hget =>
    have hwrite : Unmarked (completeWriteRequest cfg now t) := by
      unfold completeWriteRequest
      refine Unmarked.append ?_ (unmarked_cons rfl unmarked_nil)
      split
      · exact (unmarked_signalSync _ _).append (PimWrapper.unmarked_sender t _)
      · exact unmarked_nil
    have hhost : ∀ s : State, Unmarked (acknowledgeHostWrite cfg now t s).2 := by
      intro s
      unfold acknowledgeHostWrite
      dsimp only
      split
      · split
        · exact unmarked_cons rfl (unmarked_cons rfl (unmarked_cons rfl unmarked_nil))
        · exact unmarked_cons rfl unmarked_nil
      · exact unmarked_cons rfl unmarked_nil
    dsimp only
    split
    · exact unmarked_cons rfl unmarked_nil
    · split
      · split
        · exact unmarked_cons rfl hwrite
        · split
          · exact unmarked_cons rfl (hhost _)
          · split <;> exact unmarked_cons rfl unmarked_nil
      · exact unmarked_nil

theorem sendRequests_unmarked (cfg : Config) (now : Time) (s : State) :
    Unmarked (sendRequests cfg now s).2 := by
  have hone : ∀ t (s : State), Unmarked (sendRequest cfg now t s).2 := by
    intro t s
    unfold sendRequest
    dsimp only
    split
    · exact unmarked_cons rfl (unmarked_cons rfl unmarked_nil)
    · exact unmarked_cons rfl unmarked_nil
  refine sendRequests_rule cfg now s (fun _ _ effects => Unmarked effects) unmarked_nil ?_
  intro t _ s effects heffects
  exact heffects.append (hone t s)

/-- The DRAM module writes no record of the PIM. -/
theorem iterate_unmarked (cfg : Config) (env : Env) (now : Time) (s : State) :
    Unmarked (iterate cfg env now s).2 := by
  refine Unmarked.append ?_ ((takeCompleted_unmarked cfg now _).append ?_)
  · intro e he
    obtain ⟨entry, -, he⟩ := List.mem_flatMap.mp he
    rcases List.mem_cons.mp he with rfl | he
    · rfl
    · rw [List.mem_singleton.mp he]
      rfl
  · dsimp only
    split
    · exact unmarked_nil
    · refine (sendRequests_unmarked cfg now _).append ?_
      unfold finishIteration
      dsimp only
      split
      · exact unmarked_cons rfl unmarked_nil
      · split
        · split <;> exact unmarked_nil
        · exact unmarked_nil

theorem clockNegedge_unmarked (s : State) : Unmarked (clockNegedge s).2 := by
  unfold clockNegedge
  split
  · exact unmarked_nil
  · exact unmarked_cons rfl unmarked_nil

end MemWrapper

namespace System

open TraceGenerator (SpeculativeControl)
open NpuTraceReplayer (Named OfRun)

/-! ### The target's labels -/

/-- Everything the NPU sends is under a label of its runs. -/
structure TargetNamed (s : State) : Prop where
  npu : Named s.npu
  issued : ∀ t ∈ issuedByNpu s.log, OfRun t.layer

section
variable {cfg : Config} {controls : List SpeculativeControl} {s s' : State}

/-- An activation of the replay thread. -/
theorem npuProcess_speaks (h : Named s.npu) {process : Action NpuTraceReplayer.State}
    (hprocess : process = NpuTraceReplayer.startRun cfg.npu s.now ∨
      process = NpuTraceReplayer.endCompute cfg.npu s.now ∨
      process = NpuTraceReplayer.onResponse cfg.npu s.now) :
    NpuTraceReplayer.Speaks (process s.npu).1 (process s.npu).2 := by
  rcases hprocess with rfl | rfl | rfl
  · exact NpuTraceReplayer.startRun_speaks h s.now
  · exact NpuTraceReplayer.endCompute_speaks h s.now
  · exact NpuTraceReplayer.onResponse_speaks h s.now

theorem NpuTurn.named (h : TargetNamed s) (hturn : NpuTurn cfg s s') : TargetNamed s' := by
  cases hturn with
  | ran process hprocess hs =>
    have hspeaks := npuProcess_speaks h.npu hprocess
    subst hs
    refine ⟨?_, ?_⟩
    · rw [runNpu, performAll_eq]
      exact ⟨hspeaks.named.unsent, hspeaks.named.script⟩
    · have hlog : (runNpu process s).log = s.log ++ (process s.npu).2 := rfl
      rw [hlog, issuedByNpu_append]
      exact List.forall_mem_append.mpr ⟨h.issued,
        fun t ht => hspeaks.requests t (List.mem_of_mem_filter ht)⟩
  | still hthread hrun effects hlog hissued =>
    refine ⟨⟨hthread ▸ h.npu.unsent, hthread ▸ h.npu.script⟩, ?_⟩
    rw [hlog, issuedByNpu_append, hissued, List.append_nil]
    exact h.issued

/-- What is memory traffic in the PIM module has no draft label. -/
theorem TargetNamed.memory (h : TargetNamed s) (ha : Accounted s) :
    ∀ t ∈ PimWrapper.inside s.pim false, isDraft t.layer = false := by
  intro t ht
  have htraffic : t ∈ traffic s := Multiset.mem_of_le (pimHeld_le_traffic s) ht
  have hunanswered : t ∈ System.unanswered s.log := Multiset.mem_of_le ha.traffic_le htraffic
  have hissued : t ∈ issuedByNpu s.log := Multiset.mem_of_le (Multiset.sub_le_self _ _) hunanswered
  exact (h.issued t hissued).not_isDraft

/-! ### What a step does on the PIM path -/

/-- The commands of the current record that have been handed to the engine. -/
def handed (s : State) : List Payload := s.served ++ engineLane s.pim

/-- The host is at the same record. -/
structure SameRecord (s s' : State) : Prop where
  stage : s'.host.stage = s.host.stage
  emitted : s'.host.emitted = s.host.emitted
  controls : s'.host.controls = s.host.controls

/-- A step that launches a record, or one that keeps it. What is started is handed over. -/
inductive DraftTurn (cfg : Config) (s s' : State) : Prop where
  | launched (control : SpeculativeControl) (rest : List SpeculativeControl)
    (transactions : List Payload) (hthread : s.host.thread = .nextControl)
    (hcontrols : s.host.controls = control :: rest)
    (hemission : cfg.host.emission control = .ok transactions)
    (hhost : s'.host = launchedHost cfg s.host control rest transactions) (hserved : s'.served = [])
    (hpim : s'.pim = s.pim) (effects : List Effect) (hlog : s'.log = s.log ++ effects)
    (hunmarked : Unmarked effects)
  | kept (hrecord : SameRecord s s') (effects : List Effect) (hlog : s'.log = s.log ++ effects)
    (htimeline : PimWrapper.OnTimeline s.pim s.log → PimWrapper.OnTimeline s'.pim (s.log ++ effects))
    (hhanded : handed s' = handed s ++ (started effects).map (·.1))

/-- A step of another module. -/
theorem DraftTurn.aside (hrecord : SameRecord s s') {effects : List Effect}
    (hlog : s'.log = s.log ++ effects) (hunmarked : Unmarked effects) (hpim : s'.pim = s.pim)
    (hserved : s'.served = s.served) : DraftTurn cfg s s' := by
  refine .kept hrecord effects hlog (fun htimeline => ?_) ?_
  · rw [hpim]
    exact (PimWrapper.follows_unmarked rfl rfl rfl hunmarked).timeline _ htimeline
  · rw [handed, hpim, hserved, hunmarked.started]
    exact (List.append_nil _).symm

/-- Another module calls out. -/
theorem DraftTurn.calls {x : State} {effects : List Effect} (hrecord : SameRecord s x)
    (hlog : x.log = s.log) (hunmarked : Unmarked effects) (hpim : x.pim = s.pim)
    (hserved : x.served = s.served) : DraftTurn cfg s (performAll x effects) := by
  rw [performAll_eq]
  refine .aside ⟨hrecord.stage, hrecord.emitted, hrecord.controls⟩ ?_ hunmarked hpim hserved
  rw [hlog]

/-- A process of the PIM module. -/
theorem DraftTurn.ran {x : State} {process : Action PimWrapper.State} (hrecord : SameRecord s x)
    (hlog : x.log = s.log) (hpim : x.pim = s.pim) (hserved : x.served = s.served)
    (h : PimWrapper.Follows s.pim (process s.pim).1 (process s.pim).2) :
    DraftTurn cfg s (runPim process x) := by
  rw [runPim, performAll_eq, hpim]
  refine .kept ⟨hrecord.stage, hrecord.emitted, hrecord.controls⟩ (process s.pim).2 ?_
    (h.timeline s.log) ?_
  · rw [hlog]
  · rw [handed, handed, List.append_assoc, ← h.lane, hserved]

/-- The falling edge moves a command from the engine to those served. -/
theorem pimNegedge_draftTurn (hfast : cfg.pim.fastLayerMode = true) (s : State) :
    DraftTurn cfg s (pimNegedge cfg s) := by
  have hunmarked := PimWrapper.clockNegedge_unmarked hfast s.now s.pim
  have hkept : engineLane s.pim = s.pim.computeCompletedQueue.take 1 ++
      engineLane (PimWrapper.clockNegedge cfg.pim s.now s.pim).1 ∧
      (PimWrapper.clockNegedge cfg.pim s.now s.pim).1.fastComputeCompletedQueue =
        s.pim.fastComputeCompletedQueue ∧
      (PimWrapper.clockNegedge cfg.pim s.now s.pim).1.fastComputeAvailable =
        s.pim.fastComputeAvailable := by
    unfold PimWrapper.clockNegedge
    split
    · next hq => exact ⟨by simp [hq], rfl, rfl⟩
    · next t rest hq => exact ⟨by simp [engineLane, hq], rfl, rfl⟩
  obtain ⟨hlane, hqueue, havailable⟩ := hkept
  rw [pimNegedge, runPim, performAll_eq]
  refine .kept ⟨rfl, rfl, rfl⟩ _ rfl ?_ ?_
  · rintro ⟨past, running, htimeline⟩
    refine ⟨past, running, ?_⟩
    rw [hqueue, havailable]
    exact htimeline.unmarked hunmarked
  · rw [hunmarked.started, List.map_nil, List.append_nil, handed, handed, hlane, List.append_assoc]

/-- A step by what it hands to the engine. -/
theorem Step.draftTurn (hfast : cfg.pim.fastLayerMode = true)
    (hrouted : PimWrapper.Routed cfg.pim true s.pim) (hlabelled : PimWrapper.Labelled cfg.pim s.pim)
    (hnamed : TargetNamed s) (hstep : Step cfg s s') : DraftTurn cfg s s' := by
  have hnpu : ∀ process : Action NpuTraceReplayer.State,
      NpuTraceReplayer.Speaks (process s.npu).1 (process s.npu).2 → DraftTurn cfg s (runNpu process s) :=
    fun process hspeaks => .calls ⟨rfl, rfl, rfl⟩ rfl hspeaks.unmarked rfl rfl
  have hquiet (hrecord : SameRecord s s') (hlog : s'.log = s.log) (hpim : s'.pim = s.pim)
      (hserved : s'.served = s.served) : DraftTurn cfg s s' :=
    .aside hrecord (hlog.trans (List.append_nil _).symm) unmarked_nil hpim hserved
  cases hstep.2 with
  | host =>
    cases runHost_turn cfg s with
    | launched control rest transactions hthread hcontrols hemission hs =>
      rw [hs]
      exact .launched control rest transactions hthread hcontrols hemission rfl rfl rfl _ rfl
        (unmarked_cons rfl (unmarked_cons rfl unmarked_nil))
    | passed layer hthread hs =>
      rw [hs]
      exact .aside ⟨rfl, rfl, rfl⟩ rfl (unmarked_cons rfl unmarked_nil) rfl rfl
    | other thread active effects hthread heffects hs =>
      rw [hs]
      refine .aside ⟨rfl, rfl, rfl⟩ rfl ?_ rfl rfl
      rcases heffects with rfl | ⟨message, rfl⟩
      · exact unmarked_nil
      · exact unmarked_cons rfl unmarked_nil
  | hostNegedge =>
    unfold System.hostNegedge Host.clockNegedge
    split
    · exact .calls ⟨rfl, rfl, rfl⟩ rfl unmarked_nil rfl rfl
    · exact .calls ⟨rfl, rfl, rfl⟩ rfl (unmarked_cons rfl unmarked_nil) rfl rfl
  | pimTraceDone _ =>
    unfold Host.notePim at hquiet ⊢
    split at hquiet <;> exact hquiet ⟨rfl, rfl, rfl⟩ rfl rfl rfl
  | npuTraceDone _ =>
    unfold Host.noteNpu at hquiet ⊢
    split at hquiet <;> exact hquiet ⟨rfl, rfl, rfl⟩ rfl rfl rfl
  | arbiterNegedge t index rest _ =>
    unfold deliverFw at hquiet ⊢
    split at hquiet <;> exact hquiet ⟨rfl, rfl, rfl⟩ rfl rfl rfl
  | arbiterPosedge t index rest _ =>
    unfold deliverBw
    split <;> exact .aside ⟨rfl, rfl, rfl⟩ (List.append_nil _).symm unmarked_nil rfl rfl
  | elapse d => exact hquiet ⟨rfl, rfl, rfl⟩ rfl rfl rfl
  | arbiterPeqFw t rest _ => exact hquiet ⟨rfl, rfl, rfl⟩ rfl rfl rfl
  | arbiterPeqBw t rest _ => exact hquiet ⟨rfl, rfl, rfl⟩ rfl rfl rfl
  | npuPeqFw t rest _ => exact hquiet ⟨rfl, rfl, rfl⟩ rfl rfl rfl
  | memPosedge => exact hquiet ⟨rfl, rfl, rfl⟩ rfl rfl rfl
  | npuStart _ => exact hnpu _ (NpuTraceReplayer.startRun_speaks hnamed.npu s.now)
  | npuCompute wake rest _ => exact hnpu _ (NpuTraceReplayer.endCompute_speaks hnamed.npu s.now)
  | npuResponse _ => exact hnpu _ (NpuTraceReplayer.onResponse_speaks hnamed.npu s.now)
  | npuPeqBw t rest _ =>
    exact .calls ⟨rfl, rfl, rfl⟩ rfl (unmarked_cons rfl unmarked_nil) rfl rfl
  | memPeq t rest _ => exact .calls ⟨rfl, rfl, rfl⟩ rfl (unmarked_cons rfl unmarked_nil) rfl rfl
  | memIterate answers wake onEvent _ _ =>
    exact .calls ⟨rfl, rfl, rfl⟩ rfl (MemWrapper.iterate_unmarked _ _ _ _) rfl rfl
  | memNegedge => exact .calls ⟨rfl, rfl, rfl⟩ rfl (MemWrapper.clockNegedge_unmarked _) rfl rfl
  | pimPeq t rest _ => exact .ran ⟨rfl, rfl, rfl⟩ rfl rfl rfl (PimWrapper.peqCb_follows s.now t)
  | pimIterate answers wake onEvent hthread _ =>
    exact .ran ⟨rfl, rfl, rfl⟩ rfl rfl rfl (PimWrapper.iterate_follows hrouted hlabelled hthread _ _)
  | pimResume answers t wake hthread =>
    exact .ran ⟨rfl, rfl, rfl⟩ rfl rfl rfl (PimWrapper.resume_follows hrouted hlabelled hthread _ _)
  | pimPosedge => exact .ran ⟨rfl, rfl, rfl⟩ rfl rfl rfl (PimWrapper.clockPosedge_follows s.now)
  | pimNegedge => exact pimNegedge_draftTurn hfast s

/-- Only a lost command ends the simulation in a step, and nothing is handed over then. -/
theorem Step.handed_of_failed (hstep : Step cfg s s') (hfailed : s'.failed = true) :
    handed s' = handed s := by
  have hok : s.failed = false := hstep.1.1
  have hcalls : ∀ (x : State) (effects : List Effect), (performAll x effects).failed = x.failed := by
    intro x effects
    rw [performAll_eq]
  have hnever (hsame : s'.failed = s.failed) : handed s' = handed s := by
    rw [hsame, hok] at hfailed
    cases hfailed
  cases hstep.2 with
  | arbiterNegedge t index rest _ =>
    unfold deliverFw
    split <;> rfl
  | arbiterPosedge t index rest _ =>
    unfold deliverBw
    split <;> rfl
  | host => exact hnever (hcalls _ _)
  | hostNegedge => exact hnever (hcalls _ _)
  | npuStart _ => exact hnever (hcalls _ _)
  | npuCompute wake rest _ => exact hnever (hcalls _ _)
  | npuPeqBw t rest _ => exact hnever (hcalls _ _)
  | npuResponse _ => exact hnever (hcalls _ _)
  | memPeq t rest _ => exact hnever (hcalls _ _)
  | memIterate answers wake onEvent _ _ => exact hnever (hcalls _ _)
  | memNegedge => exact hnever (hcalls _ _)
  | pimPeq t rest _ => exact hnever (hcalls _ _)
  | pimIterate answers wake onEvent _ _ => exact hnever (hcalls _ _)
  | pimResume answers t wake _ => exact hnever (hcalls _ _)
  | pimPosedge => exact hnever (hcalls _ _)
  | pimNegedge => exact hnever (hcalls _ _)
  | _ => exact hnever rfl

/-! ### The log of a run -/

/-- The macros of the launched records. -/
def launchedMacros (cfg : Config) (controls : List SpeculativeControl) (s : State) :
    List Host.Coordinates :=
  (controls.take s.host.stage).flatMap cfg.host.macros

/-- The macros handed over are those of the launched records, from the first on, and they
have slots and records of their own. -/
structure Logged (cfg : Config) (controls : List SpeculativeControl) (s : State) : Prop where
  named : TargetNamed s
  timeline : PimWrapper.OnTimeline s.pim s.log
  rest : s.host.controls = controls.drop s.host.stage
  within : handed s <+: s.host.emitted
  history : ∃ past, (started s.log).map (·.1) = past ++ handed s ∧
    (past ++ s.host.emitted).map (·.layer) = (launchedMacros cfg controls s).map Host.Coordinates.label

theorem logged_initial (h : Initial controls s) : Logged cfg controls s := by
  subst h
  refine ⟨⟨NpuTraceReplayer.named_initial, by simp [issuedByNpu]⟩, ⟨[], [], PimWrapper.timeline_initial⟩,
    rfl, List.nil_prefix, [], rfl, rfl⟩

/-- The engine is at the front of the lane. -/
theorem engineLane_front (s : State) : engineLane s.pim <+: lane s := by
  simp only [lane, PimWrapper.computeLane, List.append_assoc]
  exact List.prefix_append _ _

theorem Lined.handed_front {route : Bool} (h : Lined cfg route s) : handed s <+: s.host.emitted := by
  have horder : s.served ++ lane s = s.host.emitted := h.order.order
  rw [← horder, handed]
  exact (List.prefix_append_right_inj _).mpr (engineLane_front s)

/-- The macros in the PIM module have draft labels, and nothing else has. -/
theorem Logged.labelled (h : Logged cfg controls s) (ha : Accounted s) (hlined : Lined cfg true s) :
    PimWrapper.Labelled cfg.pim s.pim := by
  refine ⟨h.named.memory ha, fun t ht hpim => ?_⟩
  have hlane : t ∈ lane s := by
    simp [lane, PimWrapper.computeLane, ht, hpim]
  have hemitted := hlined.mem_emitted hlane
  refine ⟨hlined.fits t hemitted, ?_⟩
  obtain ⟨past, -, hlabels⟩ := h.history
  have hlabel : t.layer ∈ (past ++ s.host.emitted).map (·.layer) :=
    List.mem_map_of_mem (List.mem_append_right _ hemitted)
  rw [hlabels] at hlabel
  obtain ⟨x, -, hx⟩ := List.mem_map.mp hlabel
  rw [← hx]
  exact x.label_draft

/-- A record is launched: the macros before it have all been handed over. -/
theorem Logged.launch (h : Logged cfg controls s) (hlined : Lined cfg true s)
    (hsynthetic : cfg.host.syntheticPim.enabled = true) (haggregate : cfg.host.aggregateMicro = true)
    {control : SpeculativeControl} {rest : List SpeculativeControl} {transactions : List Payload}
    (hthread : s.host.thread = .nextControl) (hcontrols : s.host.controls = control :: rest)
    (hemission : cfg.host.emission control = .ok transactions)
    (hhost : s'.host = launchedHost cfg s.host control rest transactions) :
    s'.host.controls = controls.drop s'.host.stage ∧ handed s = s.host.emitted ∧
      engineLane s.pim = [] ∧
      ∀ past, (past ++ s.host.emitted).map (·.layer) =
          (launchedMacros cfg controls s).map Host.Coordinates.label →
        (past ++ s.host.emitted ++ s'.host.emitted).map (·.layer) =
          (launchedMacros cfg controls s').map Host.Coordinates.label := by
  obtain ⟨hlane, hserved⟩ := hlined.between (by rw [hthread]; rfl)
  have hengine : engineLane s.pim = [] := by
    have hle := engineLane_front s
    rw [hlane] at hle
    exact List.prefix_nil.mp hle
  have hdrop : controls.drop s.host.stage = control :: rest := h.rest.symm.trans hcontrols
  have hnext : controls[s.host.stage]? = some control := by
    rw [← List.head?_drop, hdrop]
    rfl
  have htake : controls.take (s.host.stage + 1) = controls.take s.host.stage ++ [control] := by
    rw [List.take_add_one, hnext]
    rfl
  refine ⟨?_, ?_, hengine, fun past hlabels => ?_⟩
  · rw [hhost, launchedHost, ← List.drop_drop, hdrop]
    rfl
  · rw [handed, hengine, List.append_nil, hserved]
  · have hmacros := cfg.host.emission_macros hsynthetic haggregate hemission
    have hstage : s'.host.stage = s.host.stage + 1 := by rw [hhost]; rfl
    have hemitted : s'.host.emitted.map (·.layer) = transactions.map (·.layer) := by
      rw [hhost, launchedHost, stagePayloads, List.tail_cons, Host.map_mapIdx_kept]
      exact fun _ _ => rfl
    rw [List.map_append, hlabels, hemitted, hmacros, launchedMacros, launchedMacros, hstage, htake,
      List.flatMap_append, List.map_append, List.flatMap_singleton]

/-- **A step keeps the draft's log.** -/
theorem Step.logged (hmemory : cfg.npu.memory = if cfg.dramEnabled then .dram else .pim)
    (hsynthetic : cfg.host.syntheticPim.enabled = true) (haggregate : cfg.host.aggregateMicro = true)
    (hfast : cfg.pim.fastLayerMode = true) (hc : Carried cfg s) (ha : Accounted s)
    (hlined : Lined cfg true s) (hlined' : s'.failed = false → Lined cfg true s')
    (h : Logged cfg controls s) (hstep : Step cfg s s') : Logged cfg controls s' := by
  have hturn := hstep.draftTurn hfast hlined.routed (h.labelled ha hlined) h.named
  have hnamed := (hstep.npuTurn hmemory hc).named h.named
  obtain ⟨past, hpast, hlabels⟩ := h.history
  cases hturn with
  | launched control rest transactions hthread hcontrols hemission hhost hserved hpim effects hlog
      hunmarked =>
    obtain ⟨hrest, hall, hengine, hnext⟩ :=
      h.launch hlined hsynthetic haggregate hthread hcontrols hemission hhost
    have hnone : handed s' = [] := by rw [handed, hserved, hpim, hengine, List.append_nil]
    refine ⟨hnamed, ?_, hrest, ?_, past ++ s.host.emitted, ?_, hnext past hlabels⟩
    · rw [hpim, hlog]
      exact (PimWrapper.follows_unmarked rfl rfl rfl hunmarked).timeline _ h.timeline
    · rw [hnone]
      exact List.nil_prefix
    · rw [hlog, PimWrapper.started_append, hunmarked.started, List.append_nil, hpast, hall, hnone,
        List.append_nil]
  | kept hrecord effects hlog htimeline hhanded =>
    refine ⟨hnamed, ?_, ?_, ?_, past, ?_, ?_⟩
    · rw [hlog]
      exact htimeline h.timeline
    · rw [hrecord.controls, hrecord.stage]
      exact h.rest
    · cases hfailed : s'.failed with
      | false => exact (hlined' hfailed).handed_front
      | true =>
        rw [hstep.handed_of_failed hfailed, hrecord.emitted]
        exact h.within
    · rw [hlog, PimWrapper.started_append, List.map_append, hpast, hhanded, List.append_assoc]
    · rw [hrecord.emitted, launchedMacros, hrecord.stage]
      exact hlabels

/-- **The draft's log in every run.** -/
theorem Reachable.logged (hmemory : cfg.npu.memory = if cfg.dramEnabled then .dram else .pim)
    (hsynthetic : cfg.host.syntheticPim.enabled = true) (haggregate : cfg.host.aggregateMicro = true)
    (hfast : cfg.pim.fastLayerMode = true) (h : Reachable cfg controls s) :
    (s.failed = false → Lined cfg true s) ∧ Logged cfg controls s := by
  have hroute : ∀ control transactions, cfg.host.emission control = .ok transactions →
      ∀ t ∈ transactions, cfg.pim.localCompute t = true := by
    intro control transactions hemission t ht
    have hnamed := cfg.host.emission_named hemission t ht
    rw [hsynthetic, haggregate, Bool.and_self, Host.Config.Named, if_pos rfl] at hnamed
    rw [PimWrapper.Config.localCompute, hfast, hnamed, Bool.and_self]
  induction h with
  | start hi => exact ⟨fun _ => lined_initial cfg true hi, logged_initial hi⟩
  | next hx hs ih =>
    obtain ⟨hlined, hlogged⟩ := ih
    obtain ⟨hc, ha⟩ := Reachable.accounted hmemory hx
    have hrunning := hlined hs.1.1
    have hnext := hs.lined hroute hc hrunning
    exact ⟨hnext, hs.logged hmemory hsynthetic haggregate hfast hc ha hrunning hnext hlogged⟩

theorem Logged.labels (h : Logged cfg controls s) :
    (started s.log).map (·.1.layer) <+: (launchedMacros cfg controls s).map Host.Coordinates.label := by
  obtain ⟨past, hpast, hlabels⟩ := h.history
  have hstarted : (started s.log).map (·.1.layer) = (past ++ handed s).map (·.layer) := by
    rw [← hpast, List.map_map]
    rfl
  rw [hstarted, ← hlabels]
  exact ((List.prefix_append_right_inj past).mpr h.within).map _

/-- A record under a draft label is that of one macro. -/
theorem Logged.record (h : Logged cfg controls s) {layer : String} (hdraft : isDraft layer = true)
    (hrecord : (Logger.bar s.log layer).isSome = true) :
    ∃! x, x ∈ launchedMacros cfg controls s ∧ x.label = layer := by
  obtain ⟨past, running, htimeline⟩ := h.timeline
  have hlayer : layer ∈ (started s.log).map (·.1.layer) := by
    rw [htimeline.started, List.map_map]
    exact htimeline.known layer hdraft hrecord
  obtain ⟨x, hx, hlabel⟩ := List.mem_map.mp (h.labels.subset hlayer)
  exact ⟨x, ⟨hx, hlabel⟩, fun y hy => Host.Coordinates.label_injective (hy.2.trans hlabel.symm)⟩

/-- The bars of the macros that have been handed over: first those that have ended, then
those still on the engine, which have no end yet. -/
structure DraftBars (s : State) (past running : List (Lib.Slot Time Payload)) : Prop where
  started : started s.log = (past ++ running).map fun o => (o.job, o.start)
  queue : s.pim.fastComputeCompletedQueue = running.map Lib.Slot.entry
  lasts : ∀ o ∈ past ++ running, o.done = o.start + Bridge.computeDelay o.job
  ended : ∀ o ∈ past, Logger.bar s.log o.job.layer = some (toCycle o.start, toCycle o.done)
  open_ : ∀ o ∈ running, Logger.bar s.log o.job.layer = some (toCycle o.start, 0)
  apart : (past ++ running).Pairwise fun a b => ∃ bar bar', Logger.bar s.log a.job.layer = some bar ∧
    Logger.bar s.log b.job.layer = some bar' ∧ bar.2 ≤ bar'.1

theorem Logged.bars (h : Logged cfg controls s) (hnodup : (launchedMacros cfg controls s).Nodup) :
    ∃ past running, DraftBars s past running := by
  obtain ⟨past, running, htimeline⟩ := h.timeline
  have hkeys : ((started s.log).map (·.1.layer)).Nodup :=
    (hnodup.map Host.Coordinates.label_injective).sublist h.labels.sublist
  have hlabels : ((past ++ running).map (·.job.layer)).Nodup := by
    rw [htimeline.started, List.map_map] at hkeys
    exact hkeys
  obtain ⟨hended, hopen⟩ := htimeline.bars hlabels
  exact ⟨past, running, htimeline.started, htimeline.queue, htimeline.lasts, hended, hopen,
    htimeline.bars_apart hlabels⟩

end

/-- **The draft's keys in the log do not collide.** The label of a macro tells its coordinates.
In fast mode the macros handed over are those of the launched records, each draft record is
that of one macro, no call writes the records of two, and if no two have the same
coordinates each has the bar of its slot, cut down to whole nanoseconds, and no bar reaches
into a later one. -/
theorem draft_log_keys (c : Configurations) (models : Models) (controls : List SpeculativeControl) :
    Function.Injective Host.Coordinates.label ∧
    ((Host.Config.of c).aggregateMicro = true → ∀ control work layerId op transactions,
      layerId < 2 ^ 32 → (Host.Config.of c).operationTransactions control work layerId op = .ok transactions →
      ∀ t ∈ transactions, t.layer = ((Host.Config.of c).coordinates control work layerId op).label) ∧
    (c.syntheticPim.enabled = true → (Host.Config.of c).aggregateMicro = true →
      c.fastLayerModeEnabled = true → ∀ s, Reachable (Config.of c models) controls s →
      (started s.log).map (·.1.layer) <+:
        (launchedMacros (Config.of c models) controls s).map Host.Coordinates.label ∧
      (∀ layer, isDraft layer = true → (Logger.bar s.log layer).isSome = true →
        ∃! x, x ∈ launchedMacros (Config.of c models) controls s ∧ x.label = layer) ∧
      (∀ e ∈ s.log, ∀ x y : Host.Coordinates, Logger.Writes x.label e → Logger.Writes y.label e → x = y) ∧
      ((launchedMacros (Config.of c models) controls s).Nodup →
        ∃ past running, DraftBars s past running)) := by
  refine ⟨Host.Coordinates.label_injective, ?_, ?_⟩
  · intro haggregate control work layerId op transactions hlayer htransactions
    exact (Host.Config.of c).operationTransactions_label work hlayer haggregate htransactions
  · intro hsynthetic haggregate hfast s h
    have hlogged := (Reachable.logged rfl hsynthetic haggregate hfast h).2
    refine ⟨hlogged.labels, fun layer => hlogged.record, fun e _ x y hx hy => ?_, hlogged.bars⟩
    exact Host.Coordinates.label_injective (hx.unique hy)

/-- A stage whose macro finds the PIM in its mode; it ends at the poll. -/
def secondStage : List Process :=
  [.host, .host, .hostNegedge, .npuPeqFw, .npuStart, .arbiterPeqFw, .arbiterNegedge, .memPeq,
    .memPosedge, .memIterate {}, .elapse 103000, .memIterate {}, .memNegedge, .arbiterPeqBw,
    .arbiterPosedge, .npuPeqBw, .npuResponse, .npuCompute, .npuTraceDone, .hostNegedge, .arbiterPeqFw,
    .arbiterNegedge, .pimPeq, .pimIterate {}, .elapse 10000, .pimIterate {}]

/-- Two macros of different coordinates have been handed over, and both have ended. -/
def twoMacros (controls : List SpeculativeControl) (s : State) : Bool :=
  (started s.log).length == 2 && s.pim.fastComputeCompletedQueue.isEmpty &&
    decide (launchedMacros (Config.of fastProjection idleModels) controls s).Nodup

/-- A run over two records. -/
def twoStages : Bool :=
  match TraceGenerator.loadSpeculativeControlTrace fastProjection.speculative
    [TraceGenerator.warmRecord 1 10 11, TraceGenerator.warmRecord 2 11 12] with
  | .error _ => false
  | .ok controls => (run (Config.of fastProjection idleModels) {host := {controls := controls}}
      (wholeStage ++ secondStage)).any (twoMacros controls)

theorem draft_log_keys_twoStages : ∃ controls s past,
    Reachable (Config.of fastProjection idleModels) controls s ∧ (started s.log).length = 2 ∧
    (launchedMacros (Config.of fastProjection idleModels) controls s).Nodup ∧ DraftBars s past [] := by
  have hseen : twoStages = true := by decide +kernel
  unfold twoStages at hseen
  split at hseen
  · cases hseen
  · next controls _ =>
    obtain ⟨s, hs, htwo⟩ := (Option.any_eq_true _ _).mp hseen
    have hreach := reachable_of_run hs
    simp only [twoMacros, Bool.and_eq_true, beq_iff_eq, List.isEmpty_iff, decide_eq_true_eq] at htwo
    obtain ⟨⟨hlength, hempty⟩, hnodup⟩ := htwo
    have hkeys := draft_log_keys fastProjection idleModels controls
    obtain ⟨past, running, hbars⟩ := (hkeys.2.2 rfl rfl rfl s hreach).2.2.2 hnodup
    have hended : running = [] := List.map_eq_nil_iff.mp (hbars.queue.symm.trans hempty)
    exact ⟨controls, s, past, hreach, hlength, hnodup, hended ▸ hbars⟩

end System

end Hsim
