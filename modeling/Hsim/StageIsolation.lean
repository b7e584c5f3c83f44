import Hsim.Schedule
import Hsim.TraceContinuity
import Hsim.TrafficControl

/-! The barrier isolates the stages of a speculative replay.

With the synthetic PIM and both actors in the same mode, nothing of a control
record is left anywhere when the host passes its barrier: the mark is on the
last command of the record, commands are served in order, and the NPU says it is
done only when every request is answered. -/
namespace Hsim.System

open TraceGenerator (SpeculativeControl)

/-! ### Everything in the system -/

/-- The transactions inside the PIM module, in the hands of its thread, its queues and its
bridge. -/
def pimContents (s : PimWrapper.State) : Multiset Payload :=
  (PimWrapper.waiting s : Multiset Payload) + (s.memoryCompletedQueue : Multiset Payload) +
    (s.computeCompletedQueue : Multiset Payload) +
    (s.fastMemoryCompletedQueue.map (·.2) : List Payload) +
    (s.fastComputeCompletedQueue.map (·.2) : List Payload) + Bridge.contents s.bridge

/-- The transactions in all queues of the system. -/
def transactions (s : State) : Multiset Payload :=
  (s.host.pendingQ : Multiset Payload) + (s.host.readRspQ : Multiset Payload) +
    (s.arbiter.peqFw : Multiset Payload) + (s.arbiter.fwQueue.map (·.1) : List Payload) +
    (s.arbiter.peqBw : Multiset Payload) + (s.arbiter.bwQueue.map (·.1) : List Payload) +
    (s.npu.peqFw : Multiset Payload) + (s.npu.peqBw : Multiset Payload) +
    (s.memPeq : Multiset Payload) + MemWrapper.held s.mem +
    (s.pimPeq : Multiset Payload) + pimContents s.pim

/-- A compute command in a bridge is on its lane. -/
theorem bridge_lane {b : Bridge.State} (h : Bridge.Kinds b) {t : Payload}
    (ht : t ∈ Bridge.contents b) (hpim : t.isPim = true) : t ∈ Bridge.computeLane b := by
  have hmemory : ∀ {l : List (UInt64 × Payload)}, (∀ e ∈ l, e.2.isPim = false) →
      t ∉ l.map (·.2) := by
    intro l hl hmem
    obtain ⟨e, he, rfl⟩ := List.mem_map.mp hmem
    rw [hl e he] at hpim
    exact absurd hpim (by simp)
  simp only [Bridge.contents, Multiset.mem_add, Multiset.mem_coe, Multiset.mem_sum] at ht
  rcases ht with (((⟨c, -, ht⟩ | ht) | ht) | ht) | ht
  · rw [h.incoming c t ht] at hpim
    exact absurd hpim (by simp)
  · exact absurd ht (hmemory h.readDone)
  · exact absurd ht (hmemory h.writeDone)
  · exact List.mem_append_right _ ht
  · exact List.mem_append_left _ (List.mem_filter.mpr ⟨ht, hpim⟩)

/-- What the PIM module holds is on its lane or part of the traffic. -/
theorem mem_pimContents {cfg : PimWrapper.Config} {s : PimWrapper.State}
    (h : PimWrapper.Direct cfg s) {t : Payload} (ht : t ∈ pimContents s) :
    t ∈ PimWrapper.computeLane s ∨ t ∈ PimWrapper.memoryHeld s := by
  simp only [pimContents, Multiset.mem_add, Multiset.mem_coe] at ht
  simp only [PimWrapper.computeLane, PimWrapper.engineLane, PimWrapper.memoryHeld,
    PimWrapper.State.inFlight, PimWrapper.State.completedQueue, PimWrapper.State.fastCompletedQueue,
    List.mem_append, List.mem_filter, Multiset.mem_add, Multiset.mem_coe, Multiset.mem_filter,
    Bool.false_eq_true, if_false, decide_eq_true_eq]
  rcases ht with ((((ht | ht) | ht) | ht) | ht) | ht
  · cases hpim : t.isPim with
    | true => exact .inl (.inr ⟨ht, rfl⟩)
    | false => exact .inr (.inr ⟨ht, rfl⟩)
  · exact .inr (.inl (.inl (.inl ht)))
  · exact .inl (.inl (.inl (.inl ht)))
  · exact .inr (.inl (.inl (.inr ht)))
  · exact .inl (.inl (.inl (.inr ht)))
  · cases hpim : t.isPim with
    | true => exact .inl (.inl (.inr (bridge_lane h.kinds ht hpim)))
    | false => exact .inr (.inl (.inr ⟨ht, rfl⟩))

/-- Every transaction is of one of the three kinds. -/
theorem mem_transactions {cfg : Config} {s : State} (h : Wired cfg s) {t : Payload}
    (ht : t ∈ transactions s) : t ∈ lane s ∨ t ∈ traffic s ∨ t ∈ launches s := by
  simp only [transactions, Multiset.mem_add, Multiset.mem_coe, h.host.readRspQ, List.not_mem_nil,
    or_false] at ht
  simp only [lane, traffic, launches, Multiset.mem_add, Multiset.mem_coe, List.mem_append,
    List.mem_filter, decide_eq_true_eq]
  rcases ht with (((((((((ht | ht) | ht) | ht) | ht) | ht) | ht) | ht) | ht) | ht) | ht
  · rcases h.host.pendingQ t ht with hk | hk
    · exact .inl (.inr ⟨ht, hk.isPim⟩)
    · exact .inr (.inr (.inr ⟨ht, hk.2⟩))
  case inr =>
    rcases mem_pimContents h.pim ht with ht | ht <;> simp [ht]
  all_goals cases hpim : t.isPim <;> simp [ht]

/-! ### What is left at the barrier -/

/-- Nothing of any control record is left: no transaction in any queue, and the NPU back
at `wait(start_event)`. -/
structure Drained (s : State) : Prop where
  transactions : transactions s = 0
  npuThread : s.npu.thread = .waitStart
  startEvent : s.npu.startEvent = false
  pendingResponses : s.npu.pendingResponses = 0
  outstanding : s.mem.outstanding = 0

theorem drained_of_quiet {cfg : Config} {s : State} (h : Wired cfg s)
    (hq : Lib.Stages.Quiet (view s)) : Drained s := by
  have hnone : transactions s = 0 := by
    refine Multiset.eq_zero_of_forall_notMem fun t ht => ?_
    have hlane : lane s = [] := hq.lane
    have htraffic : traffic s = 0 := hq.traffic
    have hlaunches : launches s = [] := hq.starts
    rcases mem_transactions h ht with ht | ht | ht
    · rw [hlane] at ht
      exact absurd ht List.not_mem_nil
    · rw [htraffic] at ht
      exact absurd ht (Multiset.notMem_zero t)
    · rw [hlaunches] at ht
      exact absurd ht List.not_mem_nil
  have hthread : s.npu.thread = .waitStart := by simpa [view] using hq.running
  refine ⟨hnone, hthread, hq.armed, h.npu.settled (by rw [hthread]; rfl), ?_⟩
  have hsent : MemWrapper.sent s.mem = 0 := by
    refine Multiset.eq_zero_of_forall_notMem fun t ht => ?_
    have hmem : t ∈ transactions s := by
      simp [transactions, MemWrapper.held, ht]
    rw [hnone] at hmem
    exact absurd hmem (Multiset.notMem_zero t)
  rw [h.mem.count, hsent]
  rfl

/-- A launch reaches the NPU's registers through its queue only. -/
theorem Move.launch {cfg : Config} {s s' : State} (h : Wired cfg s)
    (hm : Move cfg s s') : s'.npu.launch = s.npu.launch ∨ s.npu.peqFw ≠ [] := by
  have hperform : ∀ (s : State) (effects : List Effect),
      (performAll s effects).npu.launch = s.npu.launch := by
    intro s effects
    rw [performAll_eq]
  cases hm with
  | npuPeqFw t rest hq => exact .inr (by rw [hq]; simp)
  | npuStart _ =>
    left
    rw [runNpu, hperform]
    exact (NpuTraceReplayer.startRun_ran h.npu s.now).launch
  | npuCompute wake rest _ =>
    left
    rw [runNpu, hperform]
    exact (NpuTraceReplayer.endCompute_ran h.npu s.now).launch
  | npuResponse _ =>
    left
    rw [runNpu, hperform]
    exact (NpuTraceReplayer.onResponse_ran h.npu s.now).launch
  | arbiterNegedge t index rest hq =>
    left
    unfold deliverFw
    split <;> rfl
  | arbiterPosedge t index rest hq =>
    left
    unfold deliverBw
    split <;> rfl
  | pimNegedge => exact .inl (hperform _ _)
  | _ => first | exact .inl rfl | exact .inl (hperform _ _)

/-- The assumptions on the configuration: the synthetic PIM, one mode for both actors,
and a memory with PIM. -/
structure Isolating (c : Configurations) : Prop where
  enabled : c.syntheticPim.enabled = true
  mode : c.syntheticNpu.fastLayerMode = c.syntheticPim.fastLayerMode
  memory : c.memoryStructure ≠ .baseline

theorem Isolating.linked {c : Configurations} (h : Isolating c) (models : Models) :
    (Config.of c models).Linked := by
  have hfast : c.fastLayerModeEnabled = true → c.syntheticPim.fastLayerMode = true := by
    intro hfast
    simpa [Configurations.fastLayerModeEnabled, h.mode] using hfast
  refine ⟨?_, rfl, rfl, fun hf => ?_, fun hf control transactions hemission => ?_⟩
  · have hmemory := h.memory
    show c.pimEnabled = true
    cases hc : c.memoryStructure <;> simp_all [SystemInfo.pimEnabled]
  · exact h.mode.trans (hfast hf)
  · refine Host.Config.emission_staysLocal _ h.enabled ?_ hemission
    show (c.syntheticPim.aggregateMicroCommands || c.syntheticPim.fastLayerMode) = true
    rw [hfast hf, Bool.or_true]

/-- The last command of every stage is marked and no other is. -/
theorem Isolating.final {c : Configurations} (h : Isolating c) (models : Models) {jobs : List Payload}
    (hjobs : (Config.of c models).Emits jobs) : Lib.Stages.Final marks jobs := by
  obtain ⟨control, transactions, ptr, stage, hemission, rfl⟩ := hjobs
  exact Host.Config.emission_final _ h.enabled hemission ptr stage

theorem reachable_inv {c : Configurations} (hc : Isolating c) (models : Models)
    {controls : List SpeculativeControl} {s : State}
    (h : Reachable (Config.of c models) controls s) :
    Wired (Config.of c models) s ∧ Lib.Stages.Inv marks (view s) := by
  refine h.invariant (P := fun s => Wired (Config.of c models) s ∧ Lib.Stages.Inv marks (view s))
    ?_ ?_
  · intro s hs
    have hwired := wired_initial (Config.of c models) hs
    obtain rfl := hs
    exact ⟨hwired, Lib.Stages.inv_initial marks⟩
  · rintro s s' ⟨hwired, hinv⟩ ⟨-, hmove⟩
    obtain ⟨hwired', hview⟩ := hmove.refines (hc.linked models) hwired
    refine ⟨hwired', ?_⟩
    rcases hview with hview | hview
    · rw [hview]
      exact hinv
    · exact hview.inv (fun _ hjobs => hc.final models hjobs) hinv

/-- **Stage isolation.** In every run, when the host passes the barrier of a control
record, every PIM command of the record is served and nothing of it is left; at any
time, all transactions belong to one record; the NPU's registers do not change during a
run; and when the host goes inactive nothing is outstanding. -/
theorem stage_isolation {c : Configurations} (hc : Isolating c) (models : Models)
    {controls : List SpeculativeControl} {s : State}
    (h : Reachable (Config.of c models) controls s) :
    (∀ layer, s.host.thread = .barrier layer true true →
      s.served = s.host.emitted ∧ Drained s) ∧
    (∀ t ∈ transactions s, t.stage = s.host.stage) ∧
    (s.npu.thread ≠ .waitStart → ∀ s', Step (Config.of c models) s s' →
      s'.npu.launch = s.npu.launch) ∧
    (s.host.activeHost = false → Drained s) := by
  obtain ⟨hwired, hinv⟩ := reachable_inv hc models h
  refine ⟨fun layer hthread => ?_, fun t ht => ?_, fun hrunning s' hstep => ?_, fun hinactive => ?_⟩
  · have hphase : (view s).phase = .barrier true true := by
      rw [view, hthread]
      rfl
    obtain ⟨hquiet, hserved⟩ := hinv.quiet_at_barrier hphase
    exact ⟨hserved, drained_of_quiet hwired hquiet⟩
  · rcases mem_transactions hwired ht with ht | ht | ht
    · exact hinv.laneStage t ht
    · exact hinv.trafficStage t ht
    · exact hinv.startStage t ht
  · -- a second launch on its way would be a second token of the stage
    rcases hstep.2.launch hwired with hsame | hqueued
    · exact hsame
    · have hview : (view s).running = true := by simpa [view] using hrunning
      have hbusy : ¬ Lib.Stages.Quiet (view s) := by
        intro hquiet
        rw [hquiet.running] at hview
        exact absurd hview (by simp)
      obtain ⟨_, worker, -, -, -, htokens⟩ := hinv.barrier hbusy
      have hlaunches : 0 < (view s).starts.length := by
        show 0 < (s.npu.peqFw ++ _).length
        rw [List.length_append]
        have hpos := List.length_pos_iff.mpr hqueued
        omega
      rw [Lib.Stages.State.tokens, hview, Bool.toNat_true] at htokens
      omega
  · have hat := hinv.atPhase
    have hphase : (view s).phase = .halted := hwired.host.halting hinactive
    rw [Lib.Stages.AtPhase, hphase] at hat
    exact drained_of_quiet hwired hat

/-- One layer of one projection, in fast-layer mode on a partitioned memory. -/
def fastProjection : Configurations where
  memoryStructure := .partitioned
  hostFrequency := 1
  targetModel := "model"
  inputSequenceLength := 1
  syntheticNpu := {
    enabled := true
    modelProfile := "model"
    fastLayerMode := true}
  syntheticPim := {
    enabled := true
    modelProfile := "model"
    fastLayerMode := true}
  speculative := {controlTraceFile := "trace"}
  targetLayerProfile := {
    name := "model"
    layerCount := 1
    operations := [{
      name := "q_proj"
      weightReadBytes := 64}]}
  draftLayerProfile := {
    name := "model"
    layerCount := 1
    operations := [{name := "q_proj"}]}
  dramReqSize := 64
  dramFrequency := 1
  pimFrequency := 1
  dramChannels := 1
  pimChannels := 1
  layerTileMap := [("q_proj", 1)]
  pimProfile := [("q_proj", PIMCmdProfile.empty.push "mac" {
    delay := 5
    count := 1})]
  modeChangeDelay := (10, 10)

/-- The NPU reads its weights and computes, then the PIM serves its command. -/
def wholeStage : List Process :=
  [.host, .hostNegedge, .npuPeqFw, .npuStart, .arbiterPeqFw, .arbiterNegedge, .memPeq, .memPosedge,
    .memIterate {}, .elapse 103000, .memIterate {}, .memNegedge, .arbiterPeqBw, .arbiterPosedge,
    .npuPeqBw, .npuResponse, .npuCompute, .npuTraceDone, .hostNegedge, .arbiterPeqFw,
    .arbiterNegedge, .pimPeq, .pimIterate {}, .pimResume {}, .elapse 10000, .pimIterate {},
    .pimNegedge, .pimTraceDone]

/-- Both events are seen, and one command is served. -/
def bothSeen (s : State) : Bool :=
  match s.host.thread with
  | .barrier _ true true => s.served.length == 1
  | _ => false

/-- A whole stage, from its launch to its barrier. -/
def stageSeen : Bool :=
  match TraceGenerator.loadSpeculativeControlTrace fastProjection.speculative
    [TraceGenerator.warmRecord 1 10 11] with
  | .error _ => false
  | .ok controls => (run (Config.of fastProjection idleModels) {host := {controls := controls}}
      wholeStage).any bothSeen

theorem stage_isolation_wholeStage : ∃ controls s layer,
    Reachable (Config.of fastProjection idleModels) controls s ∧
    s.host.thread = .barrier layer true true ∧ s.served.length = 1 ∧
    s.served = s.host.emitted ∧ Drained s := by
  have hseen : stageSeen = true := by decide +kernel
  unfold stageSeen at hseen
  split at hseen
  · cases hseen
  · next controls _ =>
    obtain ⟨s, hs, hboth⟩ := (Option.any_eq_true _ _).mp hseen
    have hreach := reachable_of_run hs
    have hc : Isolating fastProjection := ⟨rfl, rfl, by decide⟩
    unfold bothSeen at hboth
    split at hboth
    · next layer hthread =>
      exact ⟨controls, s, layer, hreach, hthread, by simpa using hboth,
        (stage_isolation hc idleModels hreach).1 layer hthread⟩
    · cases hboth

end Hsim.System
