import Hsim.Lanes
import Hsim.Logger

/-! The draft's bars in the cycle log.

In fast-layer mode a macro is logged with the start and the end of its slot on
the compute engine. The slots follow each other; the log has one record for a
label. Where no two macros share a label, the records are the slots, cut down to
whole nanoseconds. Everything else the module logs is under labels that no draft
macro has. -/
namespace Hsim.PimWrapper

theorem not_isDraft {layer : String} {c : Char} (hc : layer.toList.head? = some c) (hne : 'd' ≠ c) :
    isDraft layer = false := by
  obtain ⟨rest, hrest⟩ : ∃ rest, layer.toList = c :: rest := by
    cases hchars : layer.toList with
    | nil => simp [hchars] at hc
    | cons x rest => exact ⟨rest, by simp [hchars] at hc; rw [hc]⟩
  have hhead : "draft_pim.".toList = 'd' :: "raft_pim.".toList := rfl
  rw [isDraft, startsWith, hrest, hhead, List.isPrefixOf_cons_cons, beq_false_of_ne hne, Bool.false_and]

/-- A call that starts a compute command, or writes the record of a draft label on the
PIM. -/
def Marks : Effect → Bool
  | .updateStart layer .pim _ | .updateEnd layer .pim _ => isDraft layer
  | .metrics (.started .pim t _ _) => t.isPim
  | _ => false

def Unmarked (effects : List Effect) : Prop := ∀ e ∈ effects, Marks e = false

theorem Unmarked.append {a b : List Effect} (ha : Unmarked a) (hb : Unmarked b) : Unmarked (a ++ b) :=
  List.forall_mem_append.mpr ⟨ha, hb⟩

theorem unmarked_nil : Unmarked [] := List.forall_mem_nil _

theorem unmarked_cons {e : Effect} {effects : List Effect} (he : Marks e = false) (h : Unmarked effects) :
    Unmarked (e :: effects) := List.forall_mem_cons.mpr ⟨he, h⟩

/-- Sync objects are signalled, and nothing is logged. -/
theorem unmarked_signalSync (map : String → Option UInt32) (layer : String) :
    Unmarked (signalSync map layer) := by
  unfold signalSync
  split
  · exact unmarked_cons rfl unmarked_nil
  · exact unmarked_nil

/-- The end of a layer in the log of its sender. -/
theorem unmarked_sender (t : Payload) (cycle : Int) :
    Unmarked (if t.srcId = .host ∨ t.srcId = .mcu then [.updateEnd t.layer t.srcId cycle] else []) := by
  split
  · next hsrc => rcases hsrc with hsrc | hsrc <;> exact unmarked_cons (by rw [hsrc]; rfl) unmarked_nil
  · exact unmarked_nil

/-- The compute commands handed over, with their starts. -/
def started (effects : List Effect) : List (Payload × Time) :=
  effects.filterMap fun
    | .metrics (.started .pim t start _) => if t.isPim then some (t, start) else none
    | _ => none

@[simp] theorem started_append (a b : List Effect) : started (a ++ b) = started a ++ started b :=
  List.filterMap_append

theorem Unmarked.started {effects : List Effect} (h : Unmarked effects) : started effects = [] := by
  refine List.filterMap_eq_nil_iff.mpr fun e he => ?_
  have hunmarked := h e he
  split
  · simpa [Marks] using hunmarked
  · rfl

theorem Unmarked.writes {effects : List Effect} (h : Unmarked effects) {layer : String}
    (hdraft : isDraft layer = true) : ∀ e ∈ effects, ¬Logger.Writes layer e := by
  intro e he hwrites
  have hunmarked := h e he
  unfold Logger.Writes at hwrites
  split at hwrites
  · subst hwrites
    simp [Marks, hdraft] at hunmarked
  · subst hwrites
    simp [Marks, hdraft] at hunmarked
  · exact hwrites

/-! ### Slots and bars -/

/-- The slots given out so far, first those whose end is reported; the others are queued. -/
structure Timeline (queue : List (Time × Payload)) (available : Time) (log : List Effect)
    (past running : List (Lib.Slot Time Payload)) : Prop where
  started : started log = (past ++ running).map fun o => (o.job, o.start)
  queue : queue = running.map Lib.Slot.entry
  lasts : ∀ o ∈ past ++ running, o.done = o.start + Bridge.computeDelay o.job
  apart : (past ++ running).Pairwise fun a b => a.done ≤ b.start
  free : ∀ o ∈ past ++ running, o.done ≤ available
  draft : ∀ o ∈ past ++ running, isDraft o.job.layer = true
  known : ∀ layer, isDraft layer = true → (Logger.bar log layer).isSome = true →
    layer ∈ (past ++ running).map (·.job.layer)
  /-- The records are the slots'. A macro that has not ended has no end. -/
  bars : ((past ++ running).map (·.job.layer)).Nodup →
    (∀ o ∈ past, Logger.bar log o.job.layer = some (toCycle o.start, toCycle o.done)) ∧
      ∀ o ∈ running, Logger.bar log o.job.layer = some (toCycle o.start, 0)

theorem timeline_initial : Timeline [] 0 [] [] [] := by
  constructor <;> simp [PimWrapper.started]

section
variable {queue : List (Time × Payload)} {available : Time} {log effects : List Effect}
  {past running : List (Lib.Slot Time Payload)}

theorem Timeline.unmarked (h : Timeline queue available log past running) (hunmarked : Unmarked effects) :
    Timeline queue available (log ++ effects) past running := by
  have hbar : ∀ layer, isDraft layer = true → Logger.bar (log ++ effects) layer = Logger.bar log layer :=
    fun layer hdraft => Logger.bar_append_other log (hunmarked.writes hdraft)
  refine ⟨?_, h.queue, h.lasts, h.apart, h.free, h.draft, fun layer hdraft hsome => ?_,
    fun hnodup => ⟨fun o ho => ?_, fun o ho => ?_⟩⟩
  · rw [started_append, hunmarked.started, List.append_nil]
    exact h.started
  · rw [hbar layer hdraft] at hsome
    exact h.known layer hdraft hsome
  · rw [hbar _ (h.draft o (List.mem_append_left _ ho))]
    exact (h.bars hnodup).1 o ho
  · rw [hbar _ (h.draft o (List.mem_append_right _ ho))]
    exact (h.bars hnodup).2 o ho

/-- A macro is handed over. -/
theorem Timeline.handOver (h : Timeline queue available log past running) {t : Payload}
    (hpim : t.isPim = true) (hdraft : isDraft t.layer = true) (now : Time) (channel : Int) :
    let start := max now available
    let done := start + Bridge.computeDelay t
    Timeline (queue ++ [(done, t)]) done (log ++ [.metrics (.started .pim t start channel),
      .updateStart t.layer .pim (toCycle start)]) past (running ++ [⟨start, done, t⟩]) := by
  intro start done
  have hlog : log ++ [.metrics (.started .pim t start channel),
      .updateStart t.layer .pim (toCycle start)] =
      (log ++ [.metrics (.started .pim t start channel)]) ++
        [.updateStart t.layer .pim (toCycle start)] := by simp
  have hbar : ∀ layer, Logger.bar (log ++ [.metrics (.started .pim t start channel)]) layer =
      Logger.bar log layer := fun layer => Logger.bar_append_other log (by simp [Logger.Writes])
  have hother : ∀ layer, layer ≠ t.layer → Logger.bar (log ++ [.metrics (.started .pim t start channel),
      .updateStart t.layer .pim (toCycle start)]) layer = Logger.bar log layer := by
    intro layer hne
    rw [hlog, Logger.bar_append_other, hbar]
    simpa [Logger.Writes] using hne.symm
  have hle : available ≤ start := le_max_right _ _
  refine ⟨?_, ?_, ?_, ?_, ?_, ?_, ?_, ?_⟩
  · rw [started_append, h.started, ← List.append_assoc, List.map_append]
    simp [PimWrapper.started, hpim]
  · rw [h.queue, List.map_append]
    rfl
  · rw [← List.append_assoc]
    exact List.forall_mem_append.mpr ⟨h.lasts, List.forall_mem_singleton.mpr rfl⟩
  · rw [← List.append_assoc]
    refine List.pairwise_append.mpr ⟨h.apart, List.pairwise_singleton _ _, fun o ho o' ho' => ?_⟩
    rw [List.mem_singleton.mp ho']
    exact (h.free o ho).trans hle
  · rw [← List.append_assoc]
    refine List.forall_mem_append.mpr ⟨fun o ho => ?_, List.forall_mem_singleton.mpr le_rfl⟩
    exact ((h.free o ho).trans hle).trans (Nat.le_add_right _ _)
  · rw [← List.append_assoc]
    exact List.forall_mem_append.mpr ⟨h.draft, List.forall_mem_singleton.mpr hdraft⟩
  · intro layer hlayer hsome
    rw [← List.append_assoc, List.map_append, List.mem_append]
    by_cases hne : layer = t.layer
    · exact .inr (by simp [hne])
    · rw [hother layer hne] at hsome
      exact .inl (h.known layer hlayer hsome)
  · intro hnodup
    rw [← List.append_assoc, List.map_append] at hnodup
    obtain ⟨hold, -, hnew⟩ := List.nodup_append.mp hnodup
    have hne : ∀ o ∈ past ++ running, o.job.layer ≠ t.layer := fun o ho =>
      hnew _ (List.mem_map_of_mem ho) t.layer (by simp)
    have hnone : Logger.bar log t.layer = none := by
      rw [← Option.not_isSome_iff_eq_none]
      intro hsome
      obtain ⟨o, ho, heq⟩ := List.mem_map.mp (h.known t.layer hdraft hsome)
      exact hne o ho heq
    refine ⟨fun o ho => ?_, List.forall_mem_append.mpr ⟨fun o ho => ?_,
      List.forall_mem_singleton.mpr ?_⟩⟩
    · rw [hother _ (hne o (List.mem_append_left _ ho))]
      exact (h.bars hold).1 o ho
    · rw [hother _ (hne o (List.mem_append_right _ ho))]
      exact (h.bars hold).2 o ho
    · rw [hlog]
      exact Logger.bar_start ((hbar t.layer).trans hnone) _

/-- The end of the oldest slot is reported. -/
theorem Timeline.completeOne {o : Lib.Slot Time Payload}
    (h : Timeline queue available log past (o :: running)) :
    Timeline (running.map Lib.Slot.entry) available
      (log ++ [.updateEnd o.job.layer .pim (toCycle o.done), .metrics (.completed .pim o.job o.done)])
      (past ++ [o]) running := by
  have hslots : past ++ [o] ++ running = past ++ o :: running := by simp
  have hlog : log ++ [.updateEnd o.job.layer .pim (toCycle o.done),
      .metrics (.completed .pim o.job o.done)] =
      (log ++ [.updateEnd o.job.layer .pim (toCycle o.done)]) ++
        [.metrics (.completed .pim o.job o.done)] := by simp
  have hbar : ∀ layer, Logger.bar (log ++ [.updateEnd o.job.layer .pim (toCycle o.done),
      .metrics (.completed .pim o.job o.done)]) layer =
      Logger.bar (log ++ [.updateEnd o.job.layer .pim (toCycle o.done)]) layer := by
    intro layer
    rw [hlog]
    exact Logger.bar_append_other _ (by simp [Logger.Writes])
  have hother : ∀ layer, layer ≠ o.job.layer → Logger.bar (log ++
      [.updateEnd o.job.layer .pim (toCycle o.done), .metrics (.completed .pim o.job o.done)]) layer =
      Logger.bar log layer := by
    intro layer hne
    rw [hbar]
    exact Logger.bar_append_other _ (by simpa [Logger.Writes] using hne.symm)
  refine ⟨?_, rfl, hslots ▸ h.lasts, hslots ▸ h.apart, hslots ▸ h.free, hslots ▸ h.draft, ?_, ?_⟩
  · rw [started_append, h.started, hslots]
    simp [PimWrapper.started]
  · intro layer hlayer hsome
    rw [hslots]
    by_cases hne : layer = o.job.layer
    · simp [hne]
    · rw [hother layer hne] at hsome
      exact h.known layer hlayer hsome
  · intro hnodup
    rw [hslots] at hnodup
    obtain ⟨hpast, hrunning⟩ := h.bars hnodup
    rw [List.map_append, List.map_cons, List.nodup_append, List.nodup_cons] at hnodup
    obtain ⟨-, ⟨hnotin, -⟩, hdisjoint⟩ := hnodup
    refine ⟨List.forall_mem_append.mpr ⟨fun p hp => ?_, List.forall_mem_singleton.mpr ?_⟩,
      fun r hr => ?_⟩
    · rw [hother _ (hdisjoint _ (List.mem_map_of_mem hp) _ List.mem_cons_self)]
      exact hpast p hp
    · rw [hbar]
      exact Logger.bar_end (hrunning o List.mem_cons_self) _
    · rw [hother _ fun heq => hnotin (heq ▸ List.mem_map_of_mem hr)]
      exact hrunning r (List.mem_cons_of_mem o hr)

/-- The ends of the slots that are due are reported, one after the other. -/
theorem Timeline.complete {done rest : List (Lib.Slot Time Payload)}
    (h : Timeline queue available log past (done ++ rest)) :
    Timeline (rest.map Lib.Slot.entry) available (log ++ (done.map Lib.Slot.entry).flatMap fun e =>
      [.updateEnd e.2.layer .pim (toCycle e.1), .metrics (.completed .pim e.2 e.1)])
      (past ++ done) rest := by
  induction done generalizing log past queue with
  | nil => simpa [h.queue] using h
  | cons o done ih =>
    have hrest := ih h.completeOne
    rw [List.append_assoc, List.append_assoc, List.singleton_append] at hrest
    rw [List.map_cons, List.flatMap_cons]
    exact hrest

/-- **The bars of macros with different labels do not overlap.** -/
theorem Timeline.bars_apart (h : Timeline queue available log past running)
    (hnodup : ((past ++ running).map (·.job.layer)).Nodup) :
    (past ++ running).Pairwise fun a b => ∃ bar bar', Logger.bar log a.job.layer = some bar ∧
      Logger.bar log b.job.layer = some bar' ∧ bar.2 ≤ bar'.1 := by
  obtain ⟨hpast, hrunning⟩ := h.bars hnodup
  -- an end that is not logged yet reads 0
  have hbar : ∀ o ∈ past ++ running, ∃ finish, Logger.bar log o.job.layer =
      some (toCycle o.start, finish) ∧ finish ≤ toCycle o.done := by
    intro o ho
    rcases List.mem_append.mp ho with ho | ho
    · exact ⟨_, hpast o ho, le_rfl⟩
    · exact ⟨0, hrunning o ho, Int.natCast_nonneg _⟩
  refine h.apart.imp_of_mem fun {a b} ha hb hab => ?_
  obtain ⟨finish, hfirst, hfinish⟩ := hbar a ha
  obtain ⟨finish', hsecond, -⟩ := hbar b hb
  exact ⟨_, _, hfirst, hsecond, hfinish.trans (toCycle_mono hab)⟩

end

/-! ### The processes of the module -/

def OnTimeline (s : State) (log : List Effect) : Prop :=
  ∃ past running, Timeline s.fastComputeCompletedQueue s.fastComputeAvailable log past running

/-- An activation keeps the timeline, and what it starts goes to the end of the engine's
lane. -/
structure Follows (s s' : State) (effects : List Effect) : Prop where
  timeline : ∀ log, OnTimeline s log → OnTimeline s' (log ++ effects)
  lane : engineLane s' = engineLane s ++ (started effects).map (·.1)

theorem Follows.trans {a b c : State} {e e' : List Effect} (h : Follows a b e) (h' : Follows b c e') :
    Follows a c (e ++ e') := by
  refine ⟨fun log hlog => ?_, ?_⟩
  · rw [← List.append_assoc]
    exact h'.timeline _ (h.timeline _ hlog)
  · rw [h'.lane, h.lane, started_append, List.map_append, List.append_assoc]

/-- An activation that neither starts nor ends a macro. -/
theorem follows_unmarked {s s' : State} {effects : List Effect}
    (hqueue : s'.fastComputeCompletedQueue = s.fastComputeCompletedQueue)
    (havailable : s'.fastComputeAvailable = s.fastComputeAvailable)
    (hlane : engineLane s' = engineLane s) (h : Unmarked effects) : Follows s s' effects := by
  refine ⟨fun log hlog => ?_, ?_⟩
  · obtain ⟨past, running, htimeline⟩ := hlog
    exact ⟨past, running, hqueue ▸ havailable ▸ htimeline.unmarked h⟩
  · rw [hlane, h.started]
    exact (List.append_nil _).symm

/-- The macros have draft labels and stay in the local queue; the memory traffic has other
labels. -/
structure Labelled (cfg : Config) (s : State) : Prop where
  memory : ∀ t ∈ inside s false, isDraft t.layer = false
  macros : ∀ t ∈ waiting s, t.isPim = true → cfg.localCompute t = true ∧ isDraft t.layer = true

section
variable {cfg : Config} {s : State}

theorem unmarked_completed {queue : List (Time × Payload)}
    (h : ∀ e ∈ queue, isDraft e.2.layer = false) : Unmarked (queue.flatMap fun e =>
      [.updateEnd e.2.layer .pim (toCycle e.1), .metrics (.completed .pim e.2 e.1)]) := by
  intro e he
  obtain ⟨entry, hentry, he⟩ := List.mem_flatMap.mp he
  rcases List.mem_cons.mp he with rfl | he
  · exact h entry hentry
  · rw [List.mem_singleton.mp he]
    rfl

theorem Labelled.fastMemory (h : Labelled cfg s) :
    ∀ e ∈ s.fastMemoryCompletedQueue, isDraft e.2.layer = false := by
  intro e he
  refine h.memory e.2 ?_
  have hqueued : e.2 ∈ ((s.fastCompletedQueue false).map (·.2) : List Payload) :=
    List.mem_map_of_mem he
  simp only [inside, State.inFlight, Multiset.mem_add, Multiset.mem_coe]
  exact .inl (.inl (.inr hqueued))

theorem completeFastMemoryRequests_follows (h : Labelled cfg s) (now : Time) :
    Follows s (completeFastMemoryRequests now s).1 (completeFastMemoryRequests now s).2 :=
  follows_unmarked rfl rfl rfl
    (unmarked_completed fun e he => h.fastMemory e ((List.takeWhile_sublist _).subset he))

theorem completeFastComputeRequests_follows (now : Time) :
    Follows s (completeFastComputeRequests now s).1 (completeFastComputeRequests now s).2 := by
  refine ⟨fun log hlog => ?_, ?_⟩
  · obtain ⟨past, running, htimeline⟩ := hlog
    obtain ⟨done, rest, rfl, hdue, hnotDue⟩ := Lib.due_slots now running
    rw [← htimeline.queue] at hdue hnotDue
    refine ⟨past ++ done, rest, ?_⟩
    simp only [completeFastComputeRequests, hdue, hnotDue]
    exact htimeline.complete
  · have hnone : started (completeFastComputeRequests now s).2 = [] := by
      refine List.filterMap_eq_nil_iff.mpr fun e he => ?_
      obtain ⟨entry, -, he⟩ := List.mem_flatMap.mp he
      rcases List.mem_cons.mp he with rfl | he
      · rfl
      · rw [List.mem_singleton.mp he]
    rw [hnone, List.map_nil, List.append_nil]
    simp only [engineLane, completeFastComputeRequests, List.append_assoc]
    rw [← List.append_assoc (List.map _ _), ← List.map_append, Lib.due_append_notDue]

theorem KeepsLane.engineLane {route : Bool} {s' : State} (h : KeepsLane cfg route s s')
    (hw : waiting s' = waiting s) : engineLane s' = engineLane s := by
  have hlane := h.2
  rw [computeLane, computeLane, hw] at hlane
  exact List.append_cancel_right hlane

theorem takeCompleted_follows {route : Bool} (h : Routed cfg route s) (now : Time) :
    Follows s (takeCompleted now s).1 (takeCompleted now s).2 := by
  have hlane := takeCompleted_lane h now
  have hsame : (takeCompleted now s).1.fastComputeCompletedQueue = s.fastComputeCompletedQueue ∧
      (takeCompleted now s).1.fastComputeAvailable = s.fastComputeAvailable ∧
      waiting (takeCompleted now s).1 = waiting s ∧ Unmarked (takeCompleted now s).2 := by
    unfold takeCompleted
    split
    · exact ⟨rfl, rfl, rfl, unmarked_nil⟩
    · split <;> exact ⟨rfl, rfl, rfl, unmarked_cons rfl unmarked_nil⟩
  exact follows_unmarked hsame.1 hsame.2.1 (hlane.engineLane hsame.2.2.1) hsame.2.2.2

/-- What is finished is collected. -/
theorem collect_follows {route : Bool} (hr : Routed cfg route s) (h : Labelled cfg s) (now : Time) :
    Follows s (collect now s).1 (collect now s).2 := by
  have hmemory := completeFastMemoryRequests_follows h now
  have hr' : Routed cfg route (completeFastMemoryRequests now s).1 :=
    ⟨⟨hr.kinds, hr.noneInBridge, hr.noneLocal⟩, hr.fits⟩
  have hcompute := completeFastComputeRequests_follows (s := (completeFastMemoryRequests now s).1) now
  exact hmemory.trans (hcompute.trans
    (takeCompleted_follows (completeFastComputeRequests_lane hr' now).1 now))

theorem finishIteration_follows {route : Bool} (hr : OneRoute route s) (env : Env) (now : Time)
    (blocked : Bool) :
    Follows s (finishIteration cfg env now blocked s).1 (finishIteration cfg env now blocked s).2 := by
  obtain ⟨thread, -, hs, heffects⟩ := finishIteration_spec cfg env now blocked s
  have hlane := (finishIteration_lane hr cfg env now blocked).2.1
  refine follows_unmarked ?_ ?_ hlane ?_
  · rw [hs]
    rfl
  · rw [hs]
    rfl
  · rw [heffects]
    split
    · exact unmarked_nil
    · exact unmarked_cons rfl unmarked_nil

/-- A transaction is handed over: a macro gets a slot, memory traffic none. -/
theorem handOver_follows (hr : OneRoute true s) (now : Time) {t : Payload}
    (hcommand : t.isPim = true → cfg.localCompute t = true ∧ isDraft t.layer = true)
    (hmemory : t.isPim = false → isDraft t.layer = false) :
    Follows s (handOver cfg now t s).1 (handOver cfg now t s).2 := by
  have hlane := (handOver_lane hr now fun hpim => (hcommand hpim).1).2
  cases hpim : t.isPim with
  | true =>
    obtain ⟨hlocal, hdraft⟩ := hcommand hpim
    refine ⟨fun log hlog => ?_, ?_⟩
    · obtain ⟨past, running, htimeline⟩ := hlog
      have hnext := htimeline.handOver hpim hdraft now Metrics.kAllChannels
      simp only [handOver, hpim, if_true, handOverCompute, hlocal, add_assoc]
      exact ⟨past, _, hnext⟩
    · rw [hlane]
      simp [handOver, handOverCompute, hpim, hlocal, started]
  | false =>
    have hdraft := hmemory hpim
    have hunmarked : Unmarked (handOver cfg now t s).2 := by
      simp only [handOver, hpim, Bool.false_eq_true, if_false, handOverMemory]
      split
      · exact unmarked_cons hdraft (unmarked_cons hpim unmarked_nil)
      · exact unmarked_cons hpim unmarked_nil
    refine follows_unmarked ?_ ?_ ?_ hunmarked
    · simp only [handOver, hpim, Bool.false_eq_true, if_false, handOverMemory]
      split <;> rfl
    · simp only [handOver, hpim, Bool.false_eq_true, if_false, handOverMemory]
      split <;> rfl
    · rw [hlane]
      simp [hpim]

theorem handOver_finish_follows (hr : OneRoute true s) (env : Env) (now : Time) {t : Payload}
    (hcommand : t.isPim = true → cfg.localCompute t = true ∧ isDraft t.layer = true)
    (hmemory : t.isPim = false → isDraft t.layer = false) :
    Follows s ((handOver cfg now t).seq (finishIteration cfg env now false) s).1
      ((handOver cfg now t).seq (finishIteration cfg env now false) s).2 := by
  have hroute := (handOver_lane hr now fun hpim => (hcommand hpim).1).1
  exact (handOver_follows hr now hcommand hmemory).trans (finishIteration_follows hroute env now false)

theorem sendTransaction_follows (hr : OneRoute true s) (env : Env) (now : Time) {t : Payload}
    (hcommand : t.isPim = true → cfg.localCompute t = true ∧ isDraft t.layer = true)
    (hmemory : t.isPim = false → isDraft t.layer = false) :
    Follows s (sendTransaction cfg env now t s).1 (sendTransaction cfg env now t s).2 := by
  unfold sendTransaction
  split
  · exact handOver_finish_follows hr env now hcommand hmemory
  · exact follows_unmarked rfl rfl rfl unmarked_nil

/-- The records of the waits are under labels of their own. -/
theorem finishContentionWait_follows (now : Time) (t : Payload) (hr : OneRoute true s) :
    Follows s (finishContentionWait now t s).1 (finishContentionWait now t s).2 ∧
      OneRoute true (finishContentionWait now t s).1 := by
  have hwait : ∀ n : UInt64,
      isDraft ("unified_contention.draft_compute_wait." ++ toString n) = false ∧
        isDraft ("unified_contention.target_memory_wait." ++ toString n) = false := by
    intro n
    constructor
    · exact not_isDraft (c := 'u') (by simp) (by decide)
    · exact not_isDraft (c := 'u') (by simp) (by decide)
  have hroute : ∀ s' : State, s'.bridge = s.bridge →
      s'.fastComputeCompletedQueue = s.fastComputeCompletedQueue → OneRoute true s' := by
    intro s' hbridge hqueue
    exact ⟨hbridge ▸ hr.kinds, hbridge ▸ hr.noneInBridge, hqueue ▸ hr.noneLocal⟩
  unfold finishContentionWait
  split
  · exact ⟨follows_unmarked rfl rfl rfl unmarked_nil, hr⟩
  · dsimp only
    split
    · exact ⟨follows_unmarked rfl rfl rfl unmarked_nil, hroute _ rfl rfl⟩
    · split
      · exact ⟨follows_unmarked rfl rfl rfl (unmarked_cons (hwait _).1 (unmarked_cons (hwait _).1
          (unmarked_cons rfl unmarked_nil))), hroute _ rfl rfl⟩
      · split
        · exact ⟨follows_unmarked rfl rfl rfl (unmarked_cons (hwait _).2 (unmarked_cons (hwait _).2
            (unmarked_cons rfl unmarked_nil))), hroute _ rfl rfl⟩
        · exact ⟨follows_unmarked rfl rfl rfl unmarked_nil, hroute _ rfl rfl⟩

/-- The head of the pending queue, whatever the memory structure. -/
theorem process_follows (hr : OneRoute true s) (env : Env) (now : Time)
    (hcommand : ∀ t ∈ s.pendingQueue, t.isPim = true →
      cfg.localCompute t = true ∧ isDraft t.layer = true)
    (hmemory : ∀ t ∈ s.pendingQueue, t.isPim = false → isDraft t.layer = false) :
    Follows s (process cfg env now s).1 (process cfg env now s).2 := by
  have hdequeue : ∀ rest, Follows s {s with pendingQueue := rest} [] ∧
      OneRoute true {s with pendingQueue := rest} :=
    fun rest => ⟨follows_unmarked rfl rfl rfl unmarked_nil, hr.kinds, hr.noneInBridge, hr.noneLocal⟩
  have hpartitioned : Follows s (processPartitioned cfg env now s).1
      (processPartitioned cfg env now s).2 := by
    unfold processPartitioned
    split
    · exact finishIteration_follows hr env now false
    · next t rest hq =>
      have ht : t ∈ s.pendingQueue := by rw [hq]; exact List.mem_cons_self
      obtain ⟨hfollows, hroute⟩ := hdequeue rest
      exact hfollows.trans (sendTransaction_follows hroute env now (hcommand t ht) (hmemory t ht))
  have hunified : Follows s (processUnified cfg env now s).1 (processUnified cfg env now s).2 := by
    unfold processUnified
    split
    · exact finishIteration_follows hr env now false
    · next t rest hq =>
      have ht : t ∈ s.pendingQueue := by rw [hq]; exact List.mem_cons_self
      split
      · have hnote : Follows s (noteContention now t s) [] ∧ OneRoute true (noteContention now t s) := by
          unfold noteContention
          split
          · exact ⟨follows_unmarked rfl rfl rfl unmarked_nil, hr⟩
          · exact ⟨follows_unmarked rfl rfl rfl unmarked_nil, hr.kinds, hr.noneInBridge, hr.noneLocal⟩
        exact hnote.1.trans (finishIteration_follows hnote.2 env now _)
      · obtain ⟨hfollows, hroute⟩ := hdequeue rest
        obtain ⟨hwait, hroute'⟩ := finishContentionWait_follows now t hroute
        exact hfollows.trans (hwait.trans
          (sendTransaction_follows hroute' env now (hcommand t ht) (hmemory t ht)))
  cases hm : cfg.memoryStructure with
  | unified => simpa only [process, hm] using hunified
  | baseline => simpa only [process, hm] using hpartitioned
  | partitioned => simpa only [process, hm] using hpartitioned

theorem Labelled.waiting (h : Labelled cfg s) {t : Payload} (ht : t ∈ PimWrapper.waiting s)
    (hpim : t.isPim = false) : isDraft t.layer = false := by
  refine h.memory t ?_
  rw [inside, Multiset.mem_add, Multiset.mem_coe, List.mem_filter]
  exact .inr ⟨ht, by simpa using hpim⟩

/-- **An iteration of the thread keeps the timeline.** -/
theorem iterate_follows (hr : Routed cfg true s) (h : Labelled cfg s) {wake : Time} {onEvent : Bool}
    (hthread : s.thread = .waiting wake onEvent) (env : Env) (now : Time) :
    Follows s (iterate cfg env now s).1 (iterate cfg env now s).2 := by
  have hpending : (collect now s).1.pendingQueue = waiting s := by
    rw [(collect_frame now s).2]
    exact (waiting_idle fun t wake' => by rw [hthread]; simp).symm
  refine (collect_follows hr h now).trans (process_follows (collect_lane hr now).1.toOneRoute env now ?_ ?_)
  · rw [hpending]
    exact h.macros
  · rw [hpending]
    exact fun t => h.waiting

theorem resume_follows (hr : Routed cfg true s) (h : Labelled cfg s) {t : Payload} {wake : Time}
    (hthread : s.thread = .switching t wake) (env : Env) (now : Time) :
    Follows s (resume cfg env now t s).1 (resume cfg env now t s).2 := by
  have ht : t ∈ waiting s := by simp [waiting, hthread]
  have hmode : Follows s {s with pimMode := targetMode t} [] := follows_unmarked rfl rfl rfl unmarked_nil
  have hroute : OneRoute true {s with pimMode := targetMode t} :=
    ⟨hr.kinds, hr.noneInBridge, hr.noneLocal⟩
  exact hmode.trans (handOver_finish_follows hroute env now (h.macros t ht) (h.waiting ht))

theorem peqCb_follows (now : Time) (t : Payload) :
    Follows s (peqCb now t s).1 (peqCb now t s).2 :=
  follows_unmarked rfl rfl rfl (unmarked_cons rfl unmarked_nil)

theorem clockPosedge_follows (now : Time) :
    Follows s (clockPosedge cfg now s).1 (clockPosedge cfg now s).2 := by
  unfold clockPosedge
  split
  · exact follows_unmarked rfl rfl rfl unmarked_nil
  · next t rest hq =>
    refine follows_unmarked rfl rfl rfl ?_
    split
    · exact unmarked_cons rfl unmarked_nil
    · split
      · unfold completeWriteRequest
        refine Unmarked.append ?_ (unmarked_cons rfl unmarked_nil)
        split
        · exact (unmarked_signalSync _ _).append (unmarked_sender t _)
        · exact unmarked_nil
      · exact unmarked_nil

/-- The falling edge ends no draft record: the poll has done it. -/
theorem clockNegedge_unmarked (hfast : cfg.fastLayerMode = true) (now : Time) (s : State) :
    Unmarked (clockNegedge cfg now s).2 := by
  unfold clockNegedge
  split
  · exact unmarked_nil
  · next t rest hq =>
    have hannounce : Unmarked (announceLast cfg now t) := by
      unfold announceLast
      refine ((Unmarked.append ?_ ?_).append ?_).append (unmarked_cons rfl unmarked_nil)
      · split
        · exact unmarked_cons rfl unmarked_nil
        · exact unmarked_nil
      · split
        · exact (unmarked_sender t _).append (unmarked_cons rfl unmarked_nil)
        · exact unmarked_nil
      · split
        · exact unmarked_nil
        · next hdraft =>
          exact (unmarked_signalSync _ _).append
            (unmarked_cons (by simpa [Marks] using hdraft) unmarked_nil)
    dsimp only
    refine Unmarked.append ?_ ?_
    · simp [hfast, unmarked_nil]
    · split
      · exact hannounce
      · exact unmarked_nil

end

end Hsim.PimWrapper
