import Hsim.PimExclusion

/-! When the PIM thread wakes up.

In fast-layer mode the thread computes the instant of the next completion and
sleeps until then. What is due is moved at the beginning of an iteration, but the
sleep is computed at its end, and a mode change may lie in between; the
difference of the two times is unsigned, so a completion that became due during
the mode change would make the thread sleep for ages. It cannot, because a mode
change starts only when nothing is in flight. What is due is found from the front
of the queue alone because the two local queues are in the order of their
completions. -/
namespace Hsim.PimWrapper

/-- The instant from which the engine of a kind is free. -/
def State.fastAvailable (s : State) (k : Bool) : Time :=
  if k then s.fastComputeAvailable else s.fastMemoryAvailable

/-- Both local queues are in the order of their completions. -/
def Timetabled (s : State) : Prop := ∀ k, Lib.Queued (s.fastAvailable k) (s.fastCompletedQueue k)

/-- No local completion lies before `now`. -/
def Ahead (now : Time) (s : State) : Prop := ∀ k, ∀ e ∈ s.fastCompletedQueue k, now ≤ e.1

/-- The local queues and their engines are the same. -/
structure SameFast (s s' : State) : Prop where
  queue : ∀ k, s'.fastCompletedQueue k = s.fastCompletedQueue k
  available : ∀ k, s'.fastAvailable k = s.fastAvailable k

theorem SameFast.timetabled {s s' : State} (hs : SameFast s s') (h : Timetabled s) : Timetabled s' := by
  intro k
  rw [hs.queue, hs.available]
  exact h k

theorem SameFast.ahead {now : Time} {s s' : State} (hs : SameFast s s') (h : Ahead now s) :
    Ahead now s' := by
  intro k
  rw [hs.queue]
  exact h k

/-- Two states that agree in the fields concerned. -/
theorem sameFast_of_eq {s s' : State}
    (hm : s'.fastMemoryCompletedQueue = s.fastMemoryCompletedQueue)
    (hc : s'.fastComputeCompletedQueue = s.fastComputeCompletedQueue)
    (hma : s'.fastMemoryAvailable = s.fastMemoryAvailable)
    (hca : s'.fastComputeAvailable = s.fastComputeAvailable) : SameFast s s' := by
  constructor
  · intro k
    simp only [State.fastCompletedQueue, hm, hc]
  · intro k
    simp only [State.fastAvailable, hma, hca]

/-! ### The parts of the loop body -/

theorem takeCompleted_sameFast (now : Time) (s : State) :
    SameFast s (takeCompleted now s).1 ∧
      ∀ k, s.completedQueue k <+: (takeCompleted now s).1.completedQueue k := by
  unfold takeCompleted
  split
  · exact ⟨⟨fun _ => rfl, fun _ => rfl⟩, fun k => List.prefix_rfl⟩
  · next t bridge _ =>
    split
    · refine ⟨sameFast_of_eq rfl rfl rfl rfl, fun k => ?_⟩
      cases k with
      | false => exact List.prefix_rfl
      | true => exact List.prefix_append s.computeCompletedQueue [t]
    · refine ⟨sameFast_of_eq rfl rfl rfl rfl, fun k => ?_⟩
      cases k with
      | false => exact List.prefix_append s.memoryCompletedQueue [t]
      | true => exact List.prefix_rfl

/-- The first part of the loop body splits each local queue at the first completion that is
not due. -/
theorem collect_split (now : Time) (s : State) (k : Bool) :
    (collect now s).1.fastCompletedQueue k = Lib.notDue now (s.fastCompletedQueue k) ∧
      (collect now s).1.fastAvailable k = s.fastAvailable k ∧
      s.completedQueue k ++ (Lib.due now (s.fastCompletedQueue k)).map (·.2) <+:
        (collect now s).1.completedQueue k := by
  let s₁ := (completeFastMemoryRequests now s).1
  let s₂ := (completeFastComputeRequests now s₁).1
  obtain ⟨hsame, hmore⟩ := takeCompleted_sameFast now s₂
  have hqueue : s₂.fastCompletedQueue k = Lib.notDue now (s.fastCompletedQueue k) := by
    cases k <;> rfl
  have havailable : s₂.fastAvailable k = s.fastAvailable k := by cases k <;> rfl
  have hdone : s₂.completedQueue k =
      s.completedQueue k ++ (Lib.due now (s.fastCompletedQueue k)).map (·.2) := by
    cases k <;> rfl
  refine ⟨(hsame.queue k).trans hqueue, (hsame.available k).trans havailable, ?_⟩
  rw [← hdone]
  exact hmore k

theorem Timetabled.collect {s : State} (h : Timetabled s) (now : Time) :
    Timetabled (collect now s).1 := by
  intro k
  obtain ⟨hqueue, havailable, -⟩ := collect_split now s k
  rw [hqueue, havailable]
  exact (h k).notDue now

theorem Timetabled.ahead_collect {s : State} (h : Timetabled s) (now : Time) :
    Ahead now (PimWrapper.collect now s).1 := by
  intro k e he
  rw [(collect_split now s k).1] at he
  exact ((h k).sorted.lt_of_mem_notDue he).le

/-- A hand-over adds at most one completion to the local queues, at the end. -/
inductive Filed (now : Time) (t : Payload) (s s' : State) : Prop where
  | bridge : SameFast s s' → Filed now t s s'
  | filed (done : Time) : now ≤ done → s.fastAvailable t.isPim ≤ done →
    s'.fastCompletedQueue t.isPim = s.fastCompletedQueue t.isPim ++ [(done, t)] →
    s'.fastAvailable t.isPim = done →
    s'.fastCompletedQueue (!t.isPim) = s.fastCompletedQueue (!t.isPim) →
    s'.fastAvailable (!t.isPim) = s.fastAvailable (!t.isPim) → Filed now t s s'

theorem handOver_filed (cfg : Config) (now : Time) (t : Payload) (s : State) :
    Filed now t s (handOver cfg now t s).1 := by
  unfold handOver
  cases hk : t.isPim with
  | true =>
    rw [if_pos rfl]
    unfold handOverCompute
    dsimp only
    split
    · refine .filed (max now s.fastComputeAvailable + ns t.address.toNat + halfNs) ?_ ?_ ?_ ?_ ?_ ?_
      · exact (le_max_left now _).trans (Nat.le_trans (Nat.le_add_right _ _) (Nat.le_add_right _ _))
      · rw [hk]
        exact (le_max_right now _).trans (Nat.le_trans (Nat.le_add_right _ _) (Nat.le_add_right _ _))
      all_goals
        rw [hk]
        rfl
    · exact .bridge (sameFast_of_eq rfl rfl rfl rfl)
  | false =>
    rw [if_neg (by simp)]
    unfold handOverMemory
    dsimp only
    split
    · refine .filed (max now s.fastMemoryAvailable +
        ns (cfg.estimateNs t.command t.macroBytes).toNat) ?_ ?_ ?_ ?_ ?_ ?_
      · exact (le_max_left now _).trans (Nat.le_add_right _ _)
      · rw [hk]
        exact (le_max_right now _).trans (Nat.le_add_right _ _)
      all_goals
        rw [hk]
        rfl
    · exact .bridge (sameFast_of_eq rfl rfl rfl rfl)

section Filed
variable {now : Time} {t : Payload} {s s' : State} (hf : Filed now t s s')
include hf

theorem Filed.timetabled (h : Timetabled s) : Timetabled s' := by
  cases hf with
  | bridge hs => exact hs.timetabled h
  | filed done hnow hdone hqueue havailable hother hotherAvailable =>
    intro k
    by_cases hk : k = t.isPim
    · rw [hk, hqueue, havailable]
      exact (h t.isPim).submit hdone t
    · rw [show k = !t.isPim by cases k <;> cases ht : t.isPim <;> simp_all, hother, hotherAvailable]
      exact h _

theorem Filed.ahead (h : Ahead now s) : Ahead now s' := by
  cases hf with
  | bridge hs => exact hs.ahead h
  | filed done hnow hdone hqueue havailable hother hotherAvailable =>
    intro k
    by_cases hk : k = t.isPim
    · rw [hk, hqueue]
      intro e he
      rcases List.mem_append.mp he with he | he
      · exact h _ e he
      · rw [List.mem_singleton.mp he]
        exact hnow
    · rw [show k = !t.isPim by cases k <;> cases ht : t.isPim <;> simp_all, hother]
      exact h _

theorem Filed.queue_grows (k : Bool) : s.fastCompletedQueue k <+: s'.fastCompletedQueue k := by
  cases hf with
  | bridge hs => rw [hs.queue]
  | filed done hnow hdone hqueue havailable hother hotherAvailable =>
    by_cases hk : k = t.isPim
    · rw [hk, hqueue]
      exact List.prefix_append _ _
    · rw [show k = !t.isPim by cases k <;> cases ht : t.isPim <;> simp_all, hother]

end Filed

theorem handOver_completedQueue (cfg : Config) (now : Time) (t : Payload) (s : State) (k : Bool) :
    (handOver cfg now t s).1.completedQueue k = s.completedQueue k := by
  unfold handOver
  split
  · unfold handOverCompute
    dsimp only
    split <;> rfl
  · unfold handOverMemory
    dsimp only
    split <;> rfl

theorem le_nextWake {now : Time} {s : State} (h : Ahead now s) : now ≤ nextWake now s := by
  have hmemory := h false
  have hcompute := h true
  simp only [State.fastCompletedQueue, Bool.false_eq_true, if_false, if_true] at hmemory hcompute
  have hms : now ≤ now + ns 1000000 := Nat.le_add_right _ _
  unfold nextWake
  cases hm : s.fastMemoryCompletedQueue with
  | nil =>
    cases hc : s.fastComputeCompletedQueue with
    | nil => exact hms
    | cons c _ => exact le_min hms (hcompute c (by simp [hc]))
  | cons m _ =>
    have hle := le_min hms (hmemory m (by simp [hm]))
    cases hc : s.fastComputeCompletedQueue with
    | nil => exact hle
    | cons c _ => exact le_min hle (hcompute c (by simp [hc]))

/-- The end of the loop body leaves the queues alone and sleeps until the next completion. -/
theorem finishIteration_sleep (cfg : Config) (env : Env) (now : Time) (blocked : Bool) (s : State) :
    let s' := (finishIteration cfg env now blocked s).1
    SameFast s s' ∧ (∀ k, s'.completedQueue k = s.completedQueue k) ∧
      ∀ next, s'.thread = .waiting next true → next = nextWake now s := by
  unfold finishIteration
  dsimp only
  split
  · split
    · refine ⟨sameFast_of_eq rfl rfl rfl rfl, fun k => rfl, ?_⟩
      rintro next ⟨⟩
      rfl
    · refine ⟨sameFast_of_eq rfl rfl rfl rfl, fun k => rfl, ?_⟩
      rintro next ⟨⟩
  · refine ⟨sameFast_of_eq rfl rfl rfl rfl, fun k => rfl, ?_⟩
    rintro next ⟨⟩

/-! ### From the head of the queue to the wait -/

/-- What the rest of the loop body does with the local queues, and how long the thread then
sleeps. -/
structure Rests (now : Time) (s s' : State) : Prop where
  completed : ∀ k, s'.completedQueue k = s.completedQueue k
  grows : ∀ k, s.fastCompletedQueue k <+: s'.fastCompletedQueue k
  timetabled : Timetabled s → Timetabled s'
  ahead : Ahead now s → Ahead now s'
  sleep : Ahead now s → ∀ next, s'.thread = .waiting next true → now ≤ next

/-- A step before it that has nothing to do with the queues. -/
theorem Rests.after {now : Time} {a b c : State} (h : Rests now b c) (hfast : SameFast a b)
    (hdone : ∀ k, b.completedQueue k = a.completedQueue k) : Rests now a c := by
  refine ⟨fun k => (h.completed k).trans (hdone k), fun k => ?_, fun ht => h.timetabled (hfast.timetabled ht),
    fun ha => h.ahead (hfast.ahead ha), fun ha => h.sleep (hfast.ahead ha)⟩
  rw [← hfast.queue]
  exact h.grows k

theorem finishIteration_rests (cfg : Config) (env : Env) (now : Time) (blocked : Bool) (s : State) :
    Rests now s (finishIteration cfg env now blocked s).1 := by
  obtain ⟨hfast, hdone, hsleep⟩ := finishIteration_sleep cfg env now blocked s
  refine ⟨hdone, fun k => ?_, hfast.timetabled, hfast.ahead, fun ha next hnext => ?_⟩
  · rw [hfast.queue]
  · rw [hsleep next hnext]
    exact le_nextWake ha

theorem handOver_finish_rests (cfg : Config) (env : Env) (now : Time) (t : Payload) (s : State) :
    Rests now s ((handOver cfg now t).seq (finishIteration cfg env now false) s).1 := by
  have hfiled := handOver_filed cfg now t s
  have hrests := finishIteration_rests cfg env now false (handOver cfg now t s).1
  refine ⟨fun k => ?_, fun k => ?_, fun h => hrests.timetabled (hfiled.timetabled h),
    fun h => hrests.ahead (hfiled.ahead h), fun h => hrests.sleep (hfiled.ahead h)⟩
  · exact (hrests.completed k).trans (handOver_completedQueue cfg now t s k)
  · exact (hfiled.queue_grows k).trans (hrests.grows k)

/-- A mode change is not a sleep until a completion. -/
theorem sendTransaction_rests (cfg : Config) (env : Env) (now : Time) (t : Payload) (s : State) :
    Rests now s (sendTransaction cfg env now t s).1 := by
  unfold sendTransaction
  split
  · exact handOver_finish_rests cfg env now t s
  · refine ⟨fun k => rfl, fun k => List.prefix_rfl, id, id, ?_⟩
    rintro - next ⟨⟩

theorem noteContention_sameFast (now : Time) (t : Payload) (s : State) :
    SameFast s (noteContention now t s) ∧
      ∀ k, (noteContention now t s).completedQueue k = s.completedQueue k := by
  unfold noteContention
  split
  · exact ⟨⟨fun _ => rfl, fun _ => rfl⟩, fun _ => rfl⟩
  · exact ⟨sameFast_of_eq rfl rfl rfl rfl, fun _ => rfl⟩

theorem process_rests (cfg : Config) (env : Env) (now : Time) (s : State) :
    Rests now s (process cfg env now s).1 := by
  rcases process_cases cfg env now s with ⟨-, hp⟩ | ⟨t, rest, -, -, -, hp⟩ |
    ⟨t, rest, s₀, effects, -, -, ⟨_, _, _, hs₀⟩, -, hp⟩
  · rw [hp]
    exact finishIteration_rests cfg env now false s
  · rw [hp]
    obtain ⟨hfast, hdone⟩ := noteContention_sameFast now t s
    exact (finishIteration_rests cfg env now _ _).after hfast hdone
  · rw [hp]
    subst hs₀
    exact (sendTransaction_rests cfg env now t _).after (sameFast_of_eq rfl rfl rfl rfl) fun _ => rfl

/-! ### Whole runs -/

/-- An iteration at `now`: what is due has been moved to the completion queues and what is
not has stayed, no completion before `now` is left, and the thread does not sleep until an
instant that is past. -/
structure Looked (now : Time) (s s' : State) : Prop where
  moved : ∀ k, s.completedQueue k ++ ((s.fastCompletedQueue k).filter (·.1 ≤ now)).map (·.2) <+:
    s'.completedQueue k
  kept : ∀ k, (s.fastCompletedQueue k).filter (now < ·.1) <+: s'.fastCompletedQueue k
  ahead : Ahead now s'
  sleep : ∀ next, s'.thread = .waiting next true → now ≤ next

theorem Timetabled.looked {s : State} (h : Timetabled s) (cfg : Config) (env : Env) (now : Time) :
    Looked now s (iterate cfg env now s).1 := by
  have hrests := process_rests cfg env now (PimWrapper.collect now s).1
  have hahead := h.ahead_collect now
  refine ⟨fun k => ?_, fun k => ?_, hrests.ahead hahead, hrests.sleep hahead⟩
  · have hsplit := (collect_split now s k).2.2
    rw [(h k).sorted.due_eq_filter now] at hsplit
    exact (hrests.completed k).symm ▸ hsplit
  · rw [← (h k).sorted.notDue_eq_filter now, ← (collect_split now s k).1]
    exact hrests.grows k

theorem Timetabled.iterate {s : State} (h : Timetabled s) (cfg : Config) (env : Env) (now : Time) :
    Timetabled (iterate cfg env now s).1 :=
  (process_rests cfg env now _).timetabled (h.collect now)

theorem resume_rests (cfg : Config) (env : Env) (now : Time) (t : Payload) (s : State) :
    Rests now s (resume cfg env now t s).1 :=
  (handOver_finish_rests cfg env now t _).after (sameFast_of_eq rfl rfl rfl rfl) fun _ => rfl

theorem clockPosedge_sameFast (cfg : Config) (now : Time) (s : State) :
    SameFast s (clockPosedge cfg now s).1 := by
  unfold clockPosedge
  split <;> exact sameFast_of_eq rfl rfl rfl rfl

theorem clockNegedge_sameFast (cfg : Config) (now : Time) (s : State) :
    SameFast s (clockNegedge cfg now s).1 := by
  unfold clockNegedge
  split <;> exact sameFast_of_eq rfl rfl rfl rfl

theorem Step.timetabled {cfg : Config} {x x' : Traced} (h : Timetabled x.wrapper)
    (hs : Step cfg x x') : Timetabled x'.wrapper := by
  cases hs with
  | arrive now t => exact h
  | iterate env now wake onEvent _ => exact h.iterate cfg env now
  | resume env now wake t _ => exact (resume_rests cfg env now t x.wrapper).timetabled h
  | posedge now => exact (clockPosedge_sameFast cfg now x.wrapper).timetabled h
  | negedge now => exact (clockNegedge_sameFast cfg now x.wrapper).timetabled h

theorem timetabled_initial : Timetabled {} := by
  intro k
  cases k <;> exact Lib.Queued.nil _

/-- During a mode change both local queues are empty. -/
theorem Guarded.ahead_switching {s : State} (h : Guarded s) {t : Payload} {wake : Time}
    (ht : s.thread = .switching t wake) (now : Time) : Ahead now s := by
  intro k e he
  have hempty := h.switching t wake ht k
  have hmem : e.2 ∈ s.inFlight k := by
    refine Multiset.mem_add.mpr (.inl (Multiset.mem_add.mpr (.inr ?_)))
    exact List.mem_map_of_mem he
  rw [hempty] at hmem
  exact absurd hmem (Multiset.notMem_zero _)

/-- The thread does not sleep until an instant that is past, whether the iteration runs
through or is interrupted by a mode change, and every iteration moves exactly the
completions that are due. -/
structure Punctual (cfg : Config) (s : State) : Prop where
  iterate : ∀ env now wake onEvent, s.thread = .waiting wake onEvent →
    Looked now s (iterate cfg env now s).1
  resume : ∀ env now t wake next, s.thread = .switching t wake →
    (resume cfg env now t s).1.thread = .waiting next true → now ≤ next

theorem Reachable.timetabled {cfg : Config} {x : Traced} (h : Reachable cfg x) :
    Timetabled x.wrapper := by
  refine h.invariant (P := fun x => Timetabled x.wrapper) ?_ fun x x' hx hs => hs.timetabled hx
  rintro _ rfl
  exact timetabled_initial

theorem guarded_of_bounded {cfg : Config} (hc : cfg.memoryStructure = .unified) {x : Traced}
    (h : Lib.Reach (· = {}) (Lib.Kept (Step cfg) Bounded) x) : Guarded x.wrapper := by
  refine (h.invariant (P := Inv) ?_ fun x x' hx hs => Step.inv hc hx hs.1 hs.2).guarded
  rintro _ rfl
  exact inv_initial

/-- **The sleep never targets the past**, at whatever times the processes run: in every run
as long as no mode change comes between, and after a mode change in every run that never
has 2^32 transactions of a kind in flight. -/
theorem sleep_not_past {cfg : Config} (hc : cfg.memoryStructure = .unified) {x : Traced}
    (h : Reachable cfg x) :
    (∀ env now wake onEvent, x.wrapper.thread = .waiting wake onEvent →
      Looked now x.wrapper (iterate cfg env now x.wrapper).1) ∧
    (Lib.Reach (· = {}) (Lib.Kept (Step cfg) Bounded) x → Punctual cfg x.wrapper) := by
  have hlooked : ∀ env now wake onEvent, x.wrapper.thread = .waiting wake onEvent →
      Looked now x.wrapper (iterate cfg env now x.wrapper).1 :=
    fun env now _ _ _ => (Reachable.timetabled h).looked cfg env now
  refine ⟨hlooked, fun hb => ⟨hlooked, fun env now t wake next ht hnext => ?_⟩⟩
  have hahead := (guarded_of_bounded hc hb).ahead_switching ht now
  exact (resume_rests cfg env now t x.wrapper).sleep hahead next hnext

/-- A unified module in fast-layer mode that moves a byte a nanosecond. -/
def tensorNs : Config :=
  {refusing with fastLayerMode := true, period := 1000000, estimateNs := fun _ bytes => bytes}

/-- A compute macro of seven nanoseconds. -/
def draftMacro : Payload := {
  ptr := 1, command := .pim, address := 7, srcId := .host, dstId := .pim, pimCmd := "macro(7)"}

/-- The mode change ends at 10 ns, and the thread sleeps until the macro is done. -/
theorem sleep_not_past_switch :
    let x₁ := ({} : Traced).act (peqCb 0 draftMacro {})
    let x₂ := x₁.act (iterate tensorNs {} 0 x₁.wrapper)
    (resume tensorNs {} 10000 draftMacro x₂.wrapper).1.thread = .waiting 17500 true ∧
      Punctual tensorNs x₂.wrapper := by
  intro x₁ x₂
  have h₁ : Lib.Reach (· = {}) (Lib.Kept (Step tensorNs) Bounded) x₁ :=
    .next (.start rfl) ⟨.arrive 0 draftMacro, bounded_of_sent _ x₁ (by decide)⟩
  have h₂ : Lib.Reach (· = {}) (Lib.Kept (Step tensorNs) Bounded) x₂ :=
    .next h₁ ⟨.iterate {} 0 0 false rfl, bounded_of_sent _ x₂ (by decide)⟩
  have hreach : Reachable tensorNs x₂ :=
    .next (.next (.start rfl) (.arrive 0 draftMacro)) (.iterate {} 0 0 false rfl)
  exact ⟨by decide, (sleep_not_past rfl hreach).2 h₂⟩

/-! ### With 2^32 reads in flight

A long read keeps the memory for 2^33 ns while short ones queue up behind it. When
there are 2^32 of them the counter has wrapped, and it falls to zero as the long
read is answered. -/

def longRead : Payload := {
  ptr := 1, command := .read, srcId := .npu, dstId := .pim, bstSize := 2, pimCmd := "fast_memory"}

def shortRead (n : Nat) : Payload := {
  ptr := n + 2, command := .read, srcId := .npu, dstId := .pim, dataLength := 5,
  pimCmd := "fast_memory"}

/-- When the long read is done. -/
def longDone : Time := ns (2 ^ 33)

/-- The long read is being served, with others behind it. -/
def reading (wake : Time) (count : UInt32) (available : Time) (queue : List (Time × Payload)) : State := {
  thread := .waiting wake true, memoryBusy := true, memoryBusyCount := count,
  fastMemoryCompletedQueue := (longDone, longRead) :: queue, fastMemoryAvailable := available}

/-- Nothing is collected before the long read is done. -/
theorem collect_reading {now : Time} (hnow : now < longDone) (wake : Time) (count : UInt32)
    (available : Time) (queue : List (Time × Payload)) (pending : List Payload) :
    collect now {reading wake count available queue with pendingQueue := pending} =
      ({reading wake count available queue with pendingQueue := pending}, []) := by
  have hfront : now < (longDone, longRead).1 := hnow
  simp only [collect, Action.seq, completeFastMemoryRequests, reading, Lib.due_cons_of_lt hfront,
    Lib.notDue_cons_of_lt hfront]
  rfl

/-- A short read is sent at once and waits behind the others. -/
theorem handOver_reading {now available : Time} (ha : now ≤ available) (n : Nat) (wake : Time)
    (count : UInt32) (queue : List (Time × Payload)) :
    (handOver tensorNs now (shortRead n) (reading wake count available queue)).1 =
      reading wake (count + 1) (available + ns 5) (queue ++ [(available + ns 5, shortRead n)]) := by
  have hestimate : (tensorNs.estimateNs (shortRead n).command (shortRead n).macroBytes).toNat = 5 := by
    show (shortRead 0).macroBytes.toNat = 5
    decide
  have hlocal : (shortRead n).pimCmd = "fast_memory" := rfl
  show (handOverMemory tensorNs now (shortRead n) (reading wake count available queue)).1 = _
  simp only [handOverMemory, hlocal, if_true, reading, hestimate, max_eq_right ha, List.cons_append]

theorem iterate_reading {now : Time} (hnow : now < longDone) (n : Nat) (wake : Time) (count : UInt32)
    {available : Time} (ha : now ≤ available) (queue : List (Time × Payload)) : ∃ wake',
    (iterate tensorNs {} now
        {reading wake count available queue with pendingQueue := [shortRead n]}).1 =
      reading wake' (count + 1) (available + ns 5) (queue ++ [(available + ns 5, shortRead n)]) := by
  refine ⟨nextWake now (reading wake (count + 1) (available + ns 5)
    (queue ++ [(available + ns 5, shortRead n)])), ?_⟩
  calc (iterate tensorNs {} now
        {reading wake count available queue with pendingQueue := [shortRead n]}).1
      = (processUnified tensorNs {} now
          {reading wake count available queue with pendingQueue := [shortRead n]}).1 := by
        rw [iterate, Action.seq_fst, collect_reading hnow]
        rfl
    _ = (sendTransaction tensorNs {} now (shortRead n) (reading wake count available queue)).1 := rfl
    _ = (finishIteration tensorNs {} now false
          (handOver tensorNs now (shortRead n) (reading wake count available queue)).1).1 := rfl
    _ = _ := by
        rw [handOver_reading ha]
        rfl

/-- The long read is the first. -/
theorem iterate_long : ∃ wake,
    (iterate tensorNs {} 0 {pendingQueue := [longRead]}).1 = reading wake 1 longDone [] := by
  have hestimate : (tensorNs.estimateNs longRead.command longRead.macroBytes).toNat = 2 ^ 33 := by
    decide
  have hhand : (handOver tensorNs 0 longRead {}).1 =
      {reading 0 1 longDone [] with thread := .waiting 0 false} := by
    show (handOverMemory tensorNs 0 longRead {}).1 = _
    simp only [handOverMemory, show longRead.pimCmd = "fast_memory" from rfl, if_true, hestimate,
      reading, max_self, Nat.zero_add, longDone, List.nil_append]
    rfl
  refine ⟨nextWake 0 (reading 0 1 longDone []), ?_⟩
  calc (iterate tensorNs {} 0 {pendingQueue := [longRead]}).1
      = (finishIteration tensorNs {} 0 false (handOver tensorNs 0 longRead {}).1).1 := rfl
    _ = _ := by
        rw [hhand]
        rfl

/-- After the long read and `n` short ones. -/
theorem reading_reachable (n : Nat) (hn : n ≤ 2 ^ 33) : ∃ x wake available queue,
    Reachable tensorNs x ∧ x.wrapper = reading wake (UInt32.ofNat (n + 1)) available queue ∧
      (queue = [] ∧ n = 0 ∧ available = longDone ∨
        longDone ≤ available ∧ ∃ t rest, queue = (longDone + ns 5, t) :: rest) := by
  induction n with
  | zero =>
    let x₁ := ({} : Traced).act (peqCb 0 longRead {})
    let x₂ := x₁.act (iterate tensorNs {} 0 x₁.wrapper)
    have h₂ : Reachable tensorNs x₂ :=
      .next (.next (.start rfl) (.arrive 0 longRead)) (.iterate {} 0 0 false rfl)
    obtain ⟨wake, hfirst⟩ := iterate_long
    exact ⟨x₂, wake, longDone, [], h₂, hfirst, .inl ⟨rfl, rfl, rfl⟩⟩
  | succ n ih =>
    obtain ⟨x, wake, available, queue, hx, hw, hqueue⟩ := ih (by omega)
    have hnow : ns n < longDone := Nat.mul_lt_mul_of_pos_left (by omega) (by decide)
    have hlate : longDone ≤ available := by
      rcases hqueue with ⟨-, -, ha⟩ | ⟨ha, -⟩
      · exact ha.ge
      · exact ha
    have hpending : (x.act (peqCb (ns n) (shortRead n) x.wrapper)).wrapper =
        {reading wake (UInt32.ofNat (n + 1)) available queue with pendingQueue := [shortRead n]} := by
      rw [hw]
      rfl
    obtain ⟨wake', hiterate⟩ := iterate_reading hnow n wake (UInt32.ofNat (n + 1))
      (hnow.le.trans hlate) queue
    have hlast : Reachable tensorNs _ := .next (.next hx (.arrive (ns n) (shortRead n)))
      (.iterate {} (ns n) wake true (by rw [hpending]; rfl))
    refine ⟨_, wake', available + ns 5, queue ++ [(available + ns 5, shortRead n)], hlast, ?_,
      .inr ⟨hlate.trans (Nat.le_add_right _ _), ?_⟩⟩
    · rw [UInt32.ofNat_add (n + 1)]
      show (iterate tensorNs {} (ns n) (x.act _).wrapper).1 = _
      rw [hpending]
      exact hiterate
    · rcases hqueue with ⟨rfl, -, rfl⟩ | ⟨-, t, rest, rfl⟩
      · exact ⟨shortRead n, [], rfl⟩
      · exact ⟨t, _, rfl⟩

/-- The long read has been answered; short ones are still being served. -/
def unnoticed (thread : Thread) (available : Time) (queue : List (Time × Payload)) : State := {
  thread := thread, fastMemoryCompletedQueue := queue, fastMemoryAvailable := available}

section Wrapped
variable (wake available : Time) (t : Payload) (rest : List (Time × Payload))

/-- The long read is collected when it is done. -/
theorem iterate_longDone : ∃ wake',
    (iterate tensorNs {} longDone (reading wake 1 available ((longDone + ns 5, t) :: rest))).1 =
      {reading wake' 1 available [] with
        fastMemoryCompletedQueue := (longDone + ns 5, t) :: rest
        memoryCompletedQueue := [longRead]} := by
  have hfront : longDone < (longDone + ns 5, t).1 := Nat.lt_add_of_pos_right (by decide)
  have hdue : Lib.due longDone ((longDone, longRead) :: (longDone + ns 5, t) :: rest) =
        [(longDone, longRead)] ∧
      Lib.notDue longDone ((longDone, longRead) :: (longDone + ns 5, t) :: rest) =
        (longDone + ns 5, t) :: rest := by
    have hnow : (longDone, longRead).1 ≤ longDone := le_rfl
    rw [Lib.due_cons_of_le hnow, Lib.notDue_cons_of_le hnow, Lib.due_cons_of_lt hfront,
      Lib.notDue_cons_of_lt hfront]
    exact ⟨rfl, rfl⟩
  have hcollect : (collect longDone (reading wake 1 available ((longDone + ns 5, t) :: rest))).1 =
      {reading wake 1 available [] with
        fastMemoryCompletedQueue := (longDone + ns 5, t) :: rest
        memoryCompletedQueue := [longRead]} := by
    simp only [collect, Action.seq, completeFastMemoryRequests, reading, hdue]
    rfl
  refine ⟨nextWake longDone (unnoticed .exited available ((longDone + ns 5, t) :: rest)), ?_⟩
  rw [iterate, Action.seq_fst, hcollect]
  rfl

/-- The edge that answers the long read takes the counter to zero. -/
theorem clockPosedge_longDone (now wake' : Time) (queue : List (Time × Payload)) :
    (clockPosedge tensorNs now {reading wake' 1 available [] with
      fastMemoryCompletedQueue := queue
      memoryCompletedQueue := [longRead]}).1 = unnoticed (.waiting wake' true) available queue := by
  simp [clockPosedge, reading, unnoticed]

/-- The compute macro finds the memory free and starts a mode change. -/
theorem iterate_unnoticed (wake' : Time) :
    (iterate tensorNs {} (longDone + ns 1)
        {unnoticed (.waiting wake' true) available ((longDone + ns 5, t) :: rest) with
          pendingQueue := [draftMacro]}).1 =
      unnoticed (.switching draftMacro (longDone + ns 1 + ns 10)) available
        ((longDone + ns 5, t) :: rest) := by
  have hfront : longDone + ns 1 < (longDone + ns 5, t).1 := Nat.add_lt_add_left (by decide) _
  have hcollect : (collect (longDone + ns 1)
      {unnoticed (.waiting wake' true) available ((longDone + ns 5, t) :: rest) with
        pendingQueue := [draftMacro]}).1 =
      {unnoticed (.waiting wake' true) available ((longDone + ns 5, t) :: rest) with
        pendingQueue := [draftMacro]} := by
    simp only [collect, Action.seq, completeFastMemoryRequests, unnoticed, Lib.due_cons_of_lt hfront,
      Lib.notDue_cons_of_lt hfront]
    rfl
  rw [iterate, Action.seq_fst, hcollect]
  rfl

/-- At the end of the mode change the next read is overdue. -/
theorem resume_unnoticed (wake' : Time) : ∃ next, next ≤ longDone + ns 5 ∧
    (resume tensorNs {} (longDone + ns 11) draftMacro
      (unnoticed (.switching draftMacro wake') available ((longDone + ns 5, t) :: rest))).1.thread =
        .waiting next true := by
  refine ⟨_, ?_, rfl⟩
  exact (min_le_left _ _).trans (min_le_right _ _)

end Wrapped

/-- A compute macro comes after the long read has been answered: the counter says that no
read is in flight, the mode is changed, and during the change the next read becomes due. -/
theorem sleep_past_of_wrap : ¬ ∀ cfg : Config, cfg.memoryStructure = .unified →
    cfg.fastLayerMode = true → ∀ x, Reachable cfg x → Punctual cfg x.wrapper := by
  intro hall
  obtain ⟨x, wake, available, queue, hx, hw, hqueue⟩ := reading_reachable (2 ^ 32) (by decide)
  rcases hqueue with ⟨-, hzero, -⟩ | ⟨-, t, rest, rfl⟩
  · exact absurd hzero (by decide)
  have hone : UInt32.ofNat (2 ^ 32 + 1) = 1 := by decide
  rw [hone] at hw
  let x₁ := x.act (iterate tensorNs {} longDone x.wrapper)
  let x₂ := x₁.pop false (clockPosedge tensorNs (longDone + ns 1) x₁.wrapper)
  let x₃ := x₂.act (peqCb (longDone + ns 1) draftMacro x₂.wrapper)
  let x₄ := x₃.act (iterate tensorNs {} (longDone + ns 1) x₃.wrapper)
  obtain ⟨wake₁, hcollected⟩ := iterate_longDone wake available t rest
  have hw₁ : x₁.wrapper = {reading wake₁ 1 available [] with
      fastMemoryCompletedQueue := (longDone + ns 5, t) :: rest
      memoryCompletedQueue := [longRead]} := by
    show (iterate tensorNs {} longDone x.wrapper).1 = _
    rw [hw, hcollected]
  have hw₃ : x₃.wrapper =
      {unnoticed (.waiting wake₁ true) available ((longDone + ns 5, t) :: rest) with
        pendingQueue := [draftMacro]} := by
    show (peqCb (longDone + ns 1) draftMacro (clockPosedge tensorNs (longDone + ns 1) x₁.wrapper).1).1 = _
    rw [hw₁, clockPosedge_longDone]
    rfl
  have hw₄ : x₄.wrapper = unnoticed (.switching draftMacro (longDone + ns 1 + ns 10)) available
      ((longDone + ns 5, t) :: rest) := by
    show (iterate tensorNs {} (longDone + ns 1) x₃.wrapper).1 = _
    rw [hw₃, iterate_unnoticed]
  have h₁ : Reachable tensorNs x₁ := .next hx (.iterate {} longDone wake true (by rw [hw]; rfl))
  have h₄ : Reachable tensorNs x₄ :=
    .next (.next (.next h₁ (.posedge _)) (.arrive _ draftMacro))
      (.iterate {} _ wake₁ true (by rw [hw₃]; rfl))
  obtain ⟨next, hle, hnext⟩ := resume_unnoticed available t rest (longDone + ns 1 + ns 10)
  have hforward := (hall tensorNs rfl rfl x₄ h₄).resume {} (longDone + ns 11) draftMacro
    (longDone + ns 1 + ns 10) next (by rw [hw₄]; rfl) (by rw [hw₄]; exact hnext)
  exact absurd (hforward.trans hle) (not_le.mpr (Nat.add_lt_add_left (by decide) _))

end Hsim.PimWrapper
