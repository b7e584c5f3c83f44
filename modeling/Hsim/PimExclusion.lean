import Hsim.Lib.Reach
import Hsim.PimWrapper

/-! A unified memory serves one kind of traffic at a time.

The kind of a transaction is a Boolean, true for compute. A run is traced: beside
the module's state it keeps every transaction the thread has sent and every one
an edge has popped, so that "in flight" can be said without looking at the
queues. The invariant says where the transactions in flight are. -/
namespace Hsim.PimWrapper

/-! ### Reading a state by kind -/

namespace State

def busy (s : State) (k : Bool) : Bool := if k then s.computeBusy else s.memoryBusy

def busyCount (s : State) (k : Bool) : UInt32 :=
  if k then s.computeBusyCount else s.memoryBusyCount

def completedQueue (s : State) (k : Bool) : List Payload :=
  if k then s.computeCompletedQueue else s.memoryCompletedQueue

def fastCompletedQueue (s : State) (k : Bool) : List (Time × Payload) :=
  if k then s.fastComputeCompletedQueue else s.fastMemoryCompletedQueue

/-- The transactions of a kind between the hand-over and the edge that answers them. -/
def inFlight (s : State) (k : Bool) : Multiset Payload :=
  (s.completedQueue k : Multiset Payload) +
    ((s.fastCompletedQueue k).map (·.2) : List Payload) +
    (Bridge.contents s.bridge).filter (fun t => t.isPim = k)

end State

/-- The mode in which a kind is served. -/
def modeOf (k : Bool) : PimMode := if k then .compute else .memory

theorem modeOf_injective {k k' : Bool} (h : modeOf k = modeOf k') : k = k' := by
  cases k <;> cases k' <;> simp [modeOf] at h <;> rfl

/-- Nothing the exclusion depends on has changed. -/
structure Unchanged (s s' : State) : Prop where
  mode : s'.pimMode = s.pimMode
  busy : ∀ k, s'.busy k = s.busy k
  count : ∀ k, s'.busyCount k = s.busyCount k
  inFlight : ∀ k, s'.inFlight k = s.inFlight k

theorem Unchanged.trans {a b c : State} (h : Unchanged a b) (h' : Unchanged b c) : Unchanged a c :=
  ⟨h'.mode.trans h.mode, fun k => (h'.busy k).trans (h.busy k),
    fun k => (h'.count k).trans (h.count k), fun k => (h'.inFlight k).trans (h.inFlight k)⟩

/-- A hand-over is reported to the ledger as a start. -/
def sentTransaction : Effect → Option Payload
  | .metrics (.started .pim t _ _) => some t
  | _ => none

/-- The transactions handed over during an activation. -/
def sentBy (effects : List Effect) : List Payload := effects.filterMap sentTransaction

@[simp] theorem sentBy_append (a b : List Effect) : sentBy (a ++ b) = sentBy a ++ sentBy b :=
  List.filterMap_append

@[simp] theorem sentBy_nil : sentBy [] = [] := rfl

@[simp] theorem sentBy_cons (e : Effect) (effects : List Effect) :
    sentBy (e :: effects) = (sentTransaction e).toList ++ sentBy effects := by
  cases h : sentTransaction e <;> simp [sentBy, h]

@[simp] theorem sentBy_ite (c : Prop) [Decidable c] (a b : List Effect) :
    sentBy (if c then a else b) = if c then sentBy a else sentBy b := apply_ite sentBy c a b

/-! ### One lemma for each part of the loop body -/

/-- A local queue is what is due and the rest. -/
theorem map_due (now : Time) (queue : List (Time × Payload)) :
    ((queue.map (·.2) : List Payload) : Multiset Payload) =
      ((Lib.due now queue).map (·.2) : List Payload) +
        ((Lib.notDue now queue).map (·.2) : List Payload) := by
  have hsplit := congrArg (List.map Prod.snd) (Lib.due_append_notDue now queue)
  rw [List.map_append] at hsplit
  rw [← hsplit, ← Multiset.coe_add]

/-- Moving what is due from a local queue to the completion queue. -/
theorem completed_due (now : Time) (queue : List (Time × Payload)) (done : List Payload) :
    ((done ++ (Lib.due now queue).map (·.2) : List Payload) : Multiset Payload) +
        ((Lib.notDue now queue).map (·.2) : List Payload) =
      (done : Multiset Payload) + (queue.map (·.2) : List Payload) := by
  rw [map_due now queue, ← Multiset.coe_add, add_assoc]

theorem completeFastMemoryRequests_unchanged (now : Time) (s : State) :
    Unchanged s (completeFastMemoryRequests now s).1 := by
  refine ⟨rfl, fun _ => rfl, fun _ => rfl, fun k => ?_⟩
  cases k with
  | false => exact congrArg (· + _) (completed_due now s.fastMemoryCompletedQueue _)
  | true => rfl

theorem completeFastComputeRequests_unchanged (now : Time) (s : State) :
    Unchanged s (completeFastComputeRequests now s).1 := by
  refine ⟨rfl, fun _ => rfl, fun _ => rfl, fun k => ?_⟩
  cases k with
  | false => rfl
  | true => exact congrArg (· + _) (completed_due now s.fastComputeCompletedQueue _)

theorem takeCompleted_unchanged (now : Time) (s : State) :
    Unchanged s (takeCompleted now s).1 := by
  have hback := Bridge.contents_getCompletedCommand s.bridge
  unfold takeCompleted
  split
  · exact ⟨rfl, fun _ => rfl, fun _ => rfl, fun _ => rfl⟩
  · rename_i t bridge hget
    rw [hget, Option.toList_some, Multiset.coe_singleton] at hback
    split
    all_goals
      rename_i hpim
      refine ⟨rfl, fun _ => rfl, fun _ => rfl, fun k => ?_⟩
      cases k <;>
        simp [State.inFlight, State.completedQueue, State.fastCompletedQueue, hback, Payload.isPim,
          hpim, ← Multiset.coe_add, Multiset.filter_singleton, -Multiset.singleton_add]
      abel

theorem collect_unchanged (now : Time) (s : State) : Unchanged s (collect now s).1 :=
  ((completeFastMemoryRequests_unchanged now s).trans
    (completeFastComputeRequests_unchanged now _)).trans (takeCompleted_unchanged now _)

/-- Collecting answers nothing and sends nothing. -/
theorem collect_frame (now : Time) (s : State) :
    (collect now s).1.thread = s.thread ∧ (collect now s).1.pendingQueue = s.pendingQueue := by
  simp only [collect, Action.seq_fst, takeCompleted]
  split
  · exact ⟨rfl, rfl⟩
  · split <;> exact ⟨rfl, rfl⟩

theorem sentBy_completed (queue : List (Time × Payload)) :
    sentBy (queue.flatMap fun e =>
      [.updateEnd e.2.layer .pim (toCycle e.1), .metrics (.completed .pim e.2 e.1)]) = [] := by
  induction queue with
  | nil => rfl
  | cons e queue ih => simpa [sentBy, sentTransaction] using ih

theorem sentBy_collect (now : Time) (s : State) : sentBy (collect now s).2 = [] := by
  simp only [collect, Action.seq_snd, sentBy_append]
  simp only [completeFastMemoryRequests, completeFastComputeRequests, sentBy_completed,
    List.nil_append]
  unfold takeCompleted
  split
  · rfl
  · split <;> rfl

theorem sentBy_contention {effects : List Effect} (h : ContentionEffects effects) :
    sentBy effects = [] := by
  rcases h with rfl | ⟨_, _, _, _, rfl⟩ <;> rfl

theorem tick_unchanged (cfg : Config) (env : Env) (now : Time) (s : State) :
    Unchanged s (tick cfg env now s) := by
  refine ⟨rfl, fun _ => rfl, fun _ => rfl, fun k => ?_⟩
  have hcontents : Bridge.contents (tick cfg env now s).bridge = Bridge.contents s.bridge := by
    simp only [tick]
    split
    · rfl
    · exact Bridge.contents_clockTick _ _ _ _
  rw [State.inFlight, hcontents]
  rfl

theorem finishIteration_unchanged (cfg : Config) (env : Env) (now : Time) (blocked : Bool)
    (s : State) : Unchanged s (finishIteration cfg env now blocked s).1 := by
  obtain ⟨thread, _, hs, _⟩ := finishIteration_spec cfg env now blocked s
  have h := tick_unchanged cfg env now s
  rw [hs]
  exact ⟨h.mode, h.busy, h.count, h.inFlight⟩

theorem finishIteration_frame (cfg : Config) (env : Env) (now : Time) (blocked : Bool) (s : State) :
    (finishIteration cfg env now blocked s).1.pendingQueue = s.pendingQueue ∧
      (∀ t wake, (finishIteration cfg env now blocked s).1.thread ≠ .switching t wake) ∧
      sentBy (finishIteration cfg env now blocked s).2 = [] := by
  obtain ⟨thread, hthread, hs, heffects⟩ := finishIteration_spec cfg env now blocked s
  rw [hs, heffects]
  refine ⟨rfl, hthread, ?_⟩
  split <;> rfl

theorem noteContention_unchanged (now : Time) (t : Payload) (s : State) :
    Unchanged s (noteContention now t s) ∧ (noteContention now t s).pendingQueue = s.pendingQueue := by
  unfold noteContention
  split <;> exact ⟨⟨rfl, fun _ => rfl, fun _ => rfl, fun _ => rfl⟩, rfl⟩

theorem Dequeued.unchanged {s s' : State} {rest : List Payload} (h : Dequeued s s' rest) :
    Unchanged s s' ∧ s'.pendingQueue = rest ∧ s'.thread = s.thread := by
  obtain ⟨_, _, _, rfl⟩ := h
  exact ⟨⟨rfl, fun _ => rfl, fun _ => rfl, fun _ => rfl⟩, rfl, rfl⟩

/-- What a hand-over does to its own kind and to the other. -/
structure HandedOver (t : Payload) (s s' : State) : Prop where
  mode : s'.pimMode = s.pimMode
  busy : ∀ k, s'.busy k = if k = t.isPim then true else s.busy k
  count : ∀ k, s'.busyCount k = if k = t.isPim then s.busyCount k + 1 else s.busyCount k
  inFlight : ∀ k, s'.inFlight k = if k = t.isPim then t ::ₘ s.inFlight k else s.inFlight k

theorem handOver_spec (cfg : Config) (now : Time) (t : Payload) (s : State) :
    HandedOver t s (handOver cfg now t s).1 ∧ sentBy (handOver cfg now t s).2 = [t] ∧
      (handOver cfg now t s).1.pendingQueue = s.pendingQueue := by
  unfold handOver
  cases hk : t.isPim with
  | true =>
    simp only [if_true]
    unfold handOverCompute
    dsimp only
    split
    all_goals
      refine ⟨⟨rfl, fun k => ?_, fun k => ?_, fun k => ?_⟩, rfl, rfl⟩
      · cases k <;> simp [State.busy, hk]
      · cases k <;> simp [State.busyCount, hk]
      · cases k <;>
          simp [State.inFlight, State.completedQueue, State.fastCompletedQueue, hk,
            ← Multiset.singleton_add, ← Multiset.coe_add, Multiset.filter_singleton]
        abel
  | false =>
    simp only [Bool.false_eq_true, if_false]
    unfold handOverMemory
    dsimp only
    split
    all_goals
      refine ⟨⟨rfl, fun k => ?_, fun k => ?_, fun k => ?_⟩, rfl, rfl⟩
      · cases k <;> simp [State.busy, hk]
      · cases k <;> simp [State.busyCount, hk]
      · cases k <;>
          simp [State.inFlight, State.completedQueue, State.fastCompletedQueue, hk,
            ← Multiset.singleton_add, ← Multiset.coe_add, Multiset.filter_singleton]
        abel

theorem headBlocked_eq (s : State) (t : Payload) : headBlocked s t = s.busy (!t.isPim) := by
  cases h : t.isPim <;> simp [headBlocked, State.busy, h]

theorem HandedOver.of_unchanged {t : Payload} {a b c d : State} (h : Unchanged a b)
    (hb : HandedOver t b c) (h' : Unchanged c d) : HandedOver t a d := by
  refine ⟨h'.mode.trans (hb.mode.trans h.mode), fun k => ?_, fun k => ?_, fun k => ?_⟩
  · rw [h'.busy, hb.busy, h.busy]
  · rw [h'.count, hb.count, h.count]
  · rw [h'.inFlight, hb.inFlight, h.inFlight]

/-- What an activation of the thread amounts to. -/
inductive Outcome (s s' : State) (sent : List Payload) : Prop where
  | idle : Unchanged s s' → sent = [] → (∀ t wake, s'.thread ≠ .switching t wake) →
    Outcome s s' sent
  | sends (t : Payload) : s.busy (!t.isPim) = false → s.pimMode = modeOf t.isPim →
    HandedOver t s s' → sent = [t] → (∀ t wake, s'.thread ≠ .switching t wake) → Outcome s s' sent
  | switches (t : Payload) : s.busy (!t.isPim) = false → s.pimMode ≠ modeOf t.isPim →
    Unchanged s s' → sent = [] → Outcome s s' sent

/-- A hand-over and the rest of the loop body. -/
theorem handOver_finish (cfg : Config) (env : Env) (now : Time) (t : Payload) (s : State) :
    HandedOver t s ((handOver cfg now t).seq (finishIteration cfg env now false) s).1 ∧
      sentBy ((handOver cfg now t).seq (finishIteration cfg env now false) s).2 = [t] ∧
      ∀ t' wake, ((handOver cfg now t).seq (finishIteration cfg env now false) s).1.thread ≠
        .switching t' wake := by
  obtain ⟨hspec, hsent, _⟩ := handOver_spec cfg now t s
  obtain ⟨_, hthread, hnone⟩ := finishIteration_frame cfg env now false (handOver cfg now t s).1
  refine ⟨HandedOver.of_unchanged ⟨rfl, fun _ => rfl, fun _ => rfl, fun _ => rfl⟩ hspec
    (finishIteration_unchanged cfg env now false _), ?_, hthread⟩
  rw [Action.seq_snd, sentBy_append, hsent, hnone]
  rfl

theorem sendTransaction_outcome (cfg : Config) (env : Env) (now : Time) (t : Payload) (s : State)
    (hfree : s.busy (!t.isPim) = false) :
    Outcome s (sendTransaction cfg env now t s).1 (sentBy (sendTransaction cfg env now t s).2) := by
  unfold sendTransaction
  split
  · rename_i hmode
    obtain ⟨hover, hsent, hthread⟩ := handOver_finish cfg env now t s
    exact .sends t hfree hmode hover hsent hthread
  · rename_i hmode
    exact .switches t hfree hmode ⟨rfl, fun _ => rfl, fun _ => rfl, fun _ => rfl⟩ rfl

theorem Outcome.of_unchanged {a b c : State} {sent : List Payload} (h : Unchanged a b)
    (ho : Outcome b c sent) : Outcome a c sent := by
  cases ho with
  | idle hu hs ht => exact .idle (h.trans hu) hs ht
  | sends t hb hm hh hs ht =>
    refine .sends t ?_ (h.mode.symm.trans hm) ?_ hs ht
    · rw [← h.busy, hb]
    · exact .of_unchanged h hh ⟨rfl, fun _ => rfl, fun _ => rfl, fun _ => rfl⟩
  | switches t hb hm hu hs =>
    refine .switches t ?_ (fun he => hm (h.mode.trans he)) (h.trans hu) hs
    rw [← h.busy, hb]

theorem iterate_outcome {cfg : Config} (hc : cfg.memoryStructure = .unified) (env : Env)
    (now : Time) (s : State) :
    Outcome s (iterate cfg env now s).1 (sentBy (iterate cfg env now s).2) := by
  refine .of_unchanged (collect_unchanged now s) ?_
  rw [iterate, Action.seq_fst, Action.seq_snd, sentBy_append, sentBy_collect, List.nil_append]
  generalize (collect now s).1 = c
  rcases process_cases cfg env now c with
    ⟨-, hp⟩ | ⟨t, rest, -, -, -, hp⟩ | ⟨t, rest, s₀, effects, -, hfree, hdeq, heff, hp⟩
  · obtain ⟨-, hthread, hnone⟩ := finishIteration_frame cfg env now false c
    rw [hp]
    exact .idle (finishIteration_unchanged cfg env now false c) hnone hthread
  · obtain ⟨-, hthread, hnone⟩ :=
      finishIteration_frame cfg env now cfg.fastLayerMode (noteContention now t c)
    rw [hp]
    exact .idle ((noteContention_unchanged now t c).1.trans
      (finishIteration_unchanged cfg env now _ _)) hnone hthread
  · have hu := hdeq.unchanged.1
    have hbusy : s₀.busy (!t.isPim) = false := by
      rw [hu.busy, ← headBlocked_eq]
      exact hfree hc
    rw [hp]
    simp only [sentBy_append, sentBy_contention heff, List.nil_append]
    exact .of_unchanged hu (sendTransaction_outcome cfg env now t s₀ hbusy)

/-! ### Traced runs -/

/-- A state with the transactions sent so far and the ones popped by the edge of
each kind. -/
structure Traced where
  wrapper : State := {}
  sent : List Payload := []
  popped : Bool → List Payload := fun _ => []

namespace Traced

/-- Sent and not yet popped. -/
def outstanding (x : Traced) (k : Bool) : Multiset Payload :=
  (x.sent.filter (fun t => t.isPim = k) : Multiset Payload) - (x.popped k : Multiset Payload)

def act (x : Traced) (r : State × List Effect) : Traced :=
  {x with wrapper := r.1, sent := x.sent ++ sentBy r.2}

/-- An edge answers the front of its completion queue. -/
def pop (x : Traced) (k : Bool) (r : State × List Effect) : Traced :=
  {x.act r with popped :=
    Function.update x.popped k (x.popped k ++ (x.wrapper.completedQueue k).take 1)}

end Traced

/-- The processes of the module, in any order and at any times. The thread runs only
between its waits; the edges fire at any moment, also during a mode change. -/
inductive Step (cfg : Config) (x : Traced) : Traced → Prop where
  | arrive (now : Time) (t : Payload) : Step cfg x (x.act (peqCb now t x.wrapper))
  | iterate (env : Env) (now wake : Time) (onEvent : Bool) :
    x.wrapper.thread = .waiting wake onEvent → Step cfg x (x.act (iterate cfg env now x.wrapper))
  | resume (env : Env) (now wake : Time) (t : Payload) :
    x.wrapper.thread = .switching t wake → Step cfg x (x.act (resume cfg env now t x.wrapper))
  | posedge (now : Time) : Step cfg x (x.pop false (clockPosedge cfg now x.wrapper))
  | negedge (now : Time) : Step cfg x (x.pop true (clockNegedge cfg now x.wrapper))

/-- The states a run of a freshly built module can be in. -/
abbrev Reachable (cfg : Config) : Traced → Prop := Lib.Reach (· = {}) (Step cfg)

/-- A step after which fewer than 2^32 transactions of each kind are in flight. -/
def Bounded (_ x : Traced) : Prop := ∀ k, (x.outstanding k).card < 2 ^ 32

/-- The mutual exclusion, with the books it rests on. -/
structure Exclusive (x : Traced) : Prop where
  notBoth : ¬ (x.wrapper.memoryBusy = true ∧ x.wrapper.computeBusy = true)
  popped : ∀ k, (x.popped k : Multiset Payload) ≤ (x.sent.filter (fun t => t.isPim = k))
  count : ∀ k, (x.wrapper.busyCount k).toNat = (x.outstanding k).card
  flag : ∀ k, x.wrapper.busy k = true ↔ 0 < x.wrapper.busyCount k
  mode : ∀ k, ∀ t ∈ x.outstanding k, x.wrapper.pimMode = modeOf k
  blocked : ∀ t, x.wrapper.pendingQueue.head? = some t → headBlocked x.wrapper t = true →
    x.outstanding (!t.isPim) ≠ 0
  noUnderflow : ∀ k, x.wrapper.completedQueue k ≠ [] → 0 < x.wrapper.busyCount k

/-- What was sent is what was popped and what is in flight. -/
def Tracks (x : Traced) : Prop := ∀ k, ((x.sent.filter (fun t => t.isPim = k) : List Payload) :
  Multiset Payload) = (x.popped k : Multiset Payload) + x.wrapper.inFlight k

theorem Tracks.outstanding {x : Traced} (h : Tracks x) (k : Bool) :
    x.outstanding k = x.wrapper.inFlight k := by
  rw [Traced.outstanding, h k, add_tsub_cancel_left]

/-- Flags, counters and mode against the transactions in flight. -/
structure Guarded (s : State) : Prop where
  count : ∀ k, (s.busyCount k).toNat = (s.inFlight k).card
  flag : ∀ k, s.busy k = true ↔ s.inFlight k ≠ 0
  mode : ∀ k, s.inFlight k ≠ 0 → s.pimMode = modeOf k
  switching : ∀ t wake, s.thread = .switching t wake → ∀ k, s.inFlight k = 0

theorem Guarded.other_empty {s : State} (h : Guarded s) {k : Bool} (hm : s.pimMode = modeOf k) :
    s.inFlight (!k) = 0 := by
  by_contra hne
  have hk := modeOf_injective (hm.symm.trans (h.mode _ hne))
  cases k <;> contradiction

theorem Guarded.of_unchanged {s s' : State} (h : Guarded s) (hu : Unchanged s s')
    (hs : ∀ t wake, s'.thread = .switching t wake → ∀ k, s'.inFlight k = 0) : Guarded s' := by
  refine ⟨fun k => ?_, fun k => ?_, fun k => ?_, hs⟩
  · rw [hu.count, hu.inFlight, h.count]
  · rw [hu.busy, hu.inFlight, h.flag]
  · rw [hu.inFlight, hu.mode]
    exact h.mode k

/-- A hand-over keeps the books when its mode is on, the other kind is drained and the
counter has room. -/
theorem Guarded.handOver {s s' : State} {t : Payload} (h : HandedOver t s s')
    (hcount : ∀ k, (s.busyCount k).toNat = (s.inFlight k).card)
    (hflag : ∀ k, s.busy k = true ↔ s.inFlight k ≠ 0)
    (hmode : s.pimMode = modeOf t.isPim) (hother : s.inFlight (!t.isPim) = 0)
    (hroom : (s'.inFlight t.isPim).card < 2 ^ 32)
    (hs : ∀ t' wake, s'.thread ≠ .switching t' wake) : Guarded s' := by
  have hcard : (s'.inFlight t.isPim).card = (s.inFlight t.isPim).card + 1 := by
    rw [h.inFlight, if_pos rfl, Multiset.card_cons]
  refine ⟨fun k => ?_, fun k => ?_, fun k hk => ?_, fun t' wake ht => absurd ht (hs t' wake)⟩
  · by_cases hk : k = t.isPim
    · subst hk
      rw [hcard] at hroom ⊢
      rw [h.count, if_pos rfl, UInt32.toNat_add, hcount]
      exact Nat.mod_eq_of_lt hroom
    · rw [h.count, h.inFlight, if_neg hk, if_neg hk, hcount]
  · by_cases hk : k = t.isPim
    · subst hk
      rw [h.busy, h.inFlight, if_pos rfl, if_pos rfl]
      simp
    · rw [h.busy, h.inFlight, if_neg hk, if_neg hk, hflag]
  · by_cases hkt : k = t.isPim
    · rw [h.mode, hmode, hkt]
    · rw [h.inFlight, if_neg hkt, show k = !t.isPim by cases k <;> cases ht : t.isPim <;> simp_all]
        at hk
      exact absurd hother hk

/-! ### Steps keep the invariant -/

/-- What an edge does: the front of its queue leaves, and the flag falls with the last. -/
structure Popped (k : Bool) (s s' : State) : Prop where
  mode : s'.pimMode = s.pimMode
  thread : s'.thread = s.thread
  other : s'.busy (!k) = s.busy (!k) ∧ s'.busyCount (!k) = s.busyCount (!k) ∧
    s'.inFlight (!k) = s.inFlight (!k)
  inFlight : s.inFlight k = ((s.completedQueue k).take 1 : List Payload) + s'.inFlight k
  own : s.completedQueue k ≠ [] → s'.busyCount k = s.busyCount k - 1 ∧
    s'.busy k = if s.busyCount k - 1 = 0 then false else s.busy k
  empty : s.completedQueue k = [] → s'.busy k = s.busy k ∧ s'.busyCount k = s.busyCount k

theorem clockPosedge_popped (cfg : Config) (now : Time) (s : State) :
    Popped false s (clockPosedge cfg now s).1 := by
  unfold clockPosedge
  cases hq : s.memoryCompletedQueue with
  | nil =>
    refine ⟨rfl, rfl, ⟨rfl, rfl, rfl⟩, ?_, fun h => absurd hq h, fun _ => ⟨rfl, rfl⟩⟩
    simp [State.completedQueue, hq]
  | cons t rest =>
    refine ⟨rfl, rfl, ⟨rfl, rfl, rfl⟩, ?_, fun _ => ⟨rfl, rfl⟩, fun h => ?_⟩
    · simp [State.inFlight, State.completedQueue, State.fastCompletedQueue, hq,
        ← Multiset.cons_coe, ← Multiset.singleton_add, -Multiset.coe_add]
      abel
    · simp [State.completedQueue, hq] at h

theorem clockNegedge_popped (cfg : Config) (now : Time) (s : State) :
    Popped true s (clockNegedge cfg now s).1 := by
  unfold clockNegedge
  cases hq : s.computeCompletedQueue with
  | nil =>
    refine ⟨rfl, rfl, ⟨rfl, rfl, rfl⟩, ?_, fun h => absurd hq h, fun _ => ⟨rfl, rfl⟩⟩
    simp [State.completedQueue, hq]
  | cons t rest =>
    refine ⟨rfl, rfl, ⟨rfl, rfl, rfl⟩, ?_, fun _ => ⟨rfl, rfl⟩, fun h => ?_⟩
    · simp [State.inFlight, State.completedQueue, State.fastCompletedQueue, hq,
        ← Multiset.cons_coe, ← Multiset.singleton_add, -Multiset.coe_add]
      abel
    · simp [State.completedQueue, hq] at h

theorem Guarded.pop {k : Bool} {s s' : State} (h : Guarded s) (hp : Popped k s s') :
    Guarded s' := by
  have hsub : ∀ k', s'.inFlight k' ≤ s.inFlight k' := by
    intro k'
    by_cases hk : k' = k
    · subst hk
      rw [hp.inFlight]
      exact Multiset.le_add_left _ _
    · rw [show k' = !k by cases k <;> cases k' <;> simp_all, hp.other.2.2]
  have hmode : ∀ k', s'.inFlight k' ≠ 0 → s'.pimMode = modeOf k' := by
    intro k' hne
    rw [hp.mode]
    exact h.mode k' fun he => hne (Multiset.le_zero.mp (he ▸ hsub k'))
  have hswitch : ∀ t wake, s'.thread = .switching t wake → ∀ k', s'.inFlight k' = 0 := by
    intro t wake ht k'
    rw [hp.thread] at ht
    exact Multiset.le_zero.mp (h.switching t wake ht k' ▸ hsub k')
  by_cases hq : s.completedQueue k = []
  · have hsame : s'.inFlight k = s.inFlight k := by
      rw [hp.inFlight, hq]
      simp
    refine ⟨fun k' => ?_, fun k' => ?_, hmode, hswitch⟩ <;>
    · by_cases hk : k' = k
      · subst hk
        simp only [(hp.empty hq).1, (hp.empty hq).2, hsame, h.count, h.flag]
      · rw [show k' = !k by cases k <;> cases k' <;> simp_all]
        simp only [hp.other.1, hp.other.2.1, hp.other.2.2, h.count, h.flag]
  · have hcard : (s.inFlight k).card = (s'.inFlight k).card + 1 := by
      obtain ⟨t, rest, hcons⟩ := List.exists_cons_of_ne_nil hq
      rw [hp.inFlight, hcons]
      simp [add_comm]
    obtain ⟨hcount, hbusy⟩ := hp.own hq
    have hpos : (s.busyCount k).toNat = (s'.inFlight k).card + 1 := by
      rw [h.count, hcard]
    have hdec : (s.busyCount k - 1).toNat = (s'.inFlight k).card := by
      rw [UInt32.toNat_sub_of_le _ _ (UInt32.le_iff_toNat_le.mpr (by rw [hpos]; simp)), hpos]
      simp
    have hzero : s.busyCount k - 1 = 0 ↔ s'.inFlight k = 0 := by
      rw [← Multiset.card_eq_zero, ← hdec, ← UInt32.toNat_inj]
      rfl
    have hbusy_old : s.busy k = true := by
      rw [h.flag]
      intro he
      rw [he] at hcard
      simp at hcard
    refine ⟨fun k' => ?_, fun k' => ?_, hmode, hswitch⟩
    · by_cases hk : k' = k
      · rw [hk, hcount, hdec]
      · rw [show k' = !k by cases k <;> cases k' <;> simp_all, hp.other.2.1, hp.other.2.2, h.count]
    · by_cases hk : k' = k
      · rw [hk, hbusy, hbusy_old, ← not_iff_not, not_ne_iff, ← hzero]
        by_cases hz : s.busyCount k - 1 = 0 <;> simp [hz]
      · rw [show k' = !k by cases k <;> cases k' <;> simp_all, hp.other.1, hp.other.2.2, h.flag]

/-- The invariant of a run. -/
structure Inv (x : Traced) : Prop where
  tracks : Tracks x
  guarded : Guarded x.wrapper

theorem Tracks.act {x : Traced} (h : Tracks x) {r : State × List Effect}
    (hr : ∀ k, r.1.inFlight k =
      ((sentBy r.2).filter (fun t => t.isPim = k) : List Payload) + x.wrapper.inFlight k) :
    Tracks (x.act r) := by
  intro k
  simp only [Traced.act, List.filter_append, ← Multiset.coe_add, hr k, h k]
  abel

theorem Outcome.inFlight {s s' : State} {sent : List Payload} (h : Outcome s s' sent) (k : Bool) :
    s'.inFlight k = (sent.filter (fun t => t.isPim = k) : List Payload) + s.inFlight k := by
  cases h with
  | idle hu hs _ => simp [hs, hu.inFlight]
  | switches t _ _ hu hs => simp [hs, hu.inFlight]
  | sends t _ _ hh hs _ =>
    rw [hs, hh.inFlight]
    by_cases hk : k = t.isPim
    · simp [hk]
    · simp [hk, Ne.symm hk]

theorem Tracks.pop {x : Traced} (h : Tracks x) {k : Bool} {r : State × List Effect}
    (hp : Popped k x.wrapper r.1) (hsent : sentBy r.2 = []) : Tracks (x.pop k r) := by
  intro k'
  simp only [Traced.pop, Traced.act, hsent, List.append_nil, h k']
  by_cases hk : k' = k
  · subst hk
    rw [Function.update_self, hp.inFlight, ← Multiset.coe_add, add_assoc]
  · rw [Function.update_of_ne hk, show k' = !k by cases k <;> cases k' <;> simp_all, hp.other.2.2]

theorem sentBy_signalSync (map : String → Option UInt32) (layer : String) :
    sentBy (signalSync map layer) = [] := by
  unfold signalSync
  split <;> rfl

theorem sentBy_completeWriteRequest (cfg : Config) (now : Time) (t : Payload) :
    sentBy (completeWriteRequest cfg now t) = [] := by
  simp [completeWriteRequest, sentBy_signalSync, sentTransaction]

theorem sentBy_clockPosedge (cfg : Config) (now : Time) (s : State) :
    sentBy (clockPosedge cfg now s).2 = [] := by
  unfold clockPosedge
  split
  · rfl
  · simp [sentBy_completeWriteRequest, sentTransaction]

theorem sentBy_announceLast (cfg : Config) (now : Time) (t : Payload) :
    sentBy (announceLast cfg now t) = [] := by
  simp [announceLast, sentBy_signalSync, sentTransaction]

theorem sentBy_clockNegedge (cfg : Config) (now : Time) (s : State) :
    sentBy (clockNegedge cfg now s).2 = [] := by
  unfold clockNegedge
  split
  · rfl
  · simp [sentBy_announceLast, sentTransaction]

/-- An activation of the thread keeps the invariant while the counters have room. -/
theorem Inv.outcome {x : Traced} (h : Inv x) {r : State × List Effect}
    (ho : Outcome x.wrapper r.1 (sentBy r.2)) (hb : Bounded x (x.act r)) : Inv (x.act r) := by
  have htracks : Tracks (x.act r) := h.tracks.act ho.inFlight
  refine ⟨htracks, ?_⟩
  cases ho with
  | idle hu _ ht => exact h.guarded.of_unchanged hu fun t wake he => absurd he (ht t wake)
  | switches t hfree hmode hu _ =>
    have hempty : ∀ k, x.wrapper.inFlight k = 0 := by
      intro k
      by_contra hne
      have hm := h.guarded.mode k hne
      by_cases hk : k = t.isPim
      · exact hmode (hk ▸ hm)
      · rw [show k = !t.isPim by cases k <;> cases ht : t.isPim <;> simp_all] at hne
        rw [(h.guarded.flag _).mpr hne] at hfree
        exact absurd hfree (by simp)
    exact h.guarded.of_unchanged hu fun _ _ _ k => (hu.inFlight k).trans (hempty k)
  | sends t _ hmode hh _ ht =>
    refine Guarded.handOver hh h.guarded.count h.guarded.flag hmode
      (h.guarded.other_empty hmode) ?_ ht
    have hroom := hb t.isPim
    rwa [htracks.outstanding] at hroom

theorem resume_outcome (cfg : Config) (env : Env) (now : Time) (t : Payload) (s : State) :
    HandedOver t {s with pimMode := targetMode t} (resume cfg env now t s).1 ∧
      sentBy (resume cfg env now t s).2 = [t] ∧
      ∀ t' wake, (resume cfg env now t s).1.thread ≠ .switching t' wake :=
  handOver_finish cfg env now t _

theorem Inv.resume {x : Traced} (h : Inv x) {cfg : Config} {env : Env} {now wake : Time}
    {t : Payload} (ht : x.wrapper.thread = .switching t wake)
    (hb : Bounded x (x.act (PimWrapper.resume cfg env now t x.wrapper))) :
    Inv (x.act (PimWrapper.resume cfg env now t x.wrapper)) := by
  obtain ⟨hh, hsent, hthread⟩ := resume_outcome cfg env now t x.wrapper
  have hempty := h.guarded.switching t wake ht
  have htracks : Tracks (x.act (PimWrapper.resume cfg env now t x.wrapper)) := by
    refine h.tracks.act fun k => ?_
    rw [hsent, hh.inFlight]
    by_cases hk : k = t.isPim
    · simp [hk, State.inFlight, State.completedQueue, State.fastCompletedQueue]
    · simp [hk, Ne.symm hk, State.inFlight, State.completedQueue, State.fastCompletedQueue]
  refine ⟨htracks, ?_⟩
  have hroom := hb t.isPim
  rw [htracks.outstanding] at hroom
  exact Guarded.handOver hh h.guarded.count h.guarded.flag rfl (hempty _) hroom hthread

theorem Step.inv {cfg : Config} (hc : cfg.memoryStructure = .unified) {x x' : Traced} (h : Inv x)
    (hs : Step cfg x x') (hb : Bounded x x') : Inv x' := by
  cases hs with
  | arrive now t =>
    have hsent : sentBy (peqCb now t x.wrapper).2 = [] := rfl
    refine ⟨h.tracks.act fun k => ?_, h.guarded.of_unchanged ⟨rfl, fun _ => rfl, fun _ => rfl,
      fun _ => rfl⟩ h.guarded.switching⟩
    rw [hsent]
    simp only [List.filter_nil, Multiset.coe_nil, zero_add]
    rfl
  | iterate env now wake onEvent _ => exact h.outcome (iterate_outcome hc env now x.wrapper) hb
  | resume env now wake t ht => exact h.resume ht hb
  | posedge now =>
    have hp := clockPosedge_popped cfg now x.wrapper
    exact ⟨h.tracks.pop hp (sentBy_clockPosedge cfg now x.wrapper), h.guarded.pop hp⟩
  | negedge now =>
    have hp := clockNegedge_popped cfg now x.wrapper
    exact ⟨h.tracks.pop hp (sentBy_clockNegedge cfg now x.wrapper), h.guarded.pop hp⟩

theorem inv_initial : Inv {} := by
  refine ⟨fun k => ?_, ⟨fun k => ?_, fun k => ?_, fun k hk => ?_, by simp⟩⟩ <;> cases k <;>
    simp_all [State.inFlight, State.completedQueue, State.fastCompletedQueue, State.busyCount,
      State.busy]

theorem Inv.exclusive {x : Traced} (h : Inv x) : Exclusive x := by
  have hg := h.guarded
  have hflag : ∀ k, x.wrapper.busy k = true ↔ 0 < x.wrapper.busyCount k := by
    intro k
    rw [hg.flag, UInt32.lt_iff_toNat_lt, hg.count, ← Multiset.card_pos]
    rfl
  refine ⟨fun hboth => ?_, fun k => ?_, fun k => ?_, hflag, fun k t ht => ?_, fun t _ hb => ?_,
    fun k hk => ?_⟩
  · have hm := hg.mode false ((hg.flag false).mp hboth.1)
    have hc := hg.mode true ((hg.flag true).mp hboth.2)
    exact absurd (hm.symm.trans hc) (by simp [modeOf])
  · rw [h.tracks k]
    exact Multiset.le_add_right _ _
  · rw [h.tracks.outstanding, hg.count]
  · rw [h.tracks.outstanding] at ht
    exact hg.mode k fun he => absurd ht (by simp [he])
  · rw [h.tracks.outstanding, ← hg.flag, ← headBlocked_eq, hb]
  · rw [← hflag, hg.flag]
    intro he
    obtain ⟨t, rest, hcons⟩ := List.exists_cons_of_ne_nil hk
    have : t ∈ x.wrapper.inFlight k := by simp [State.inFlight, hcons]
    rw [he] at this
    simp at this

/-- **One kind at a time.** In every run of a unified memory that never has 2^32
transactions of a kind in flight, flags, counters and mode agree with the
transactions in flight, and the two kinds never overlap. -/
theorem unified_exclusive {cfg : Config} (hc : cfg.memoryStructure = .unified) {x : Traced}
    (h : Lib.Reach (· = {}) (Lib.Kept (Step cfg) Bounded) x) : Exclusive x := by
  refine Inv.exclusive (h.invariant (P := Inv) ?_ ?_)
  · rintro _ rfl
    exact inv_initial
  · intro x x' hx hs
    exact Step.inv hc hx hs.1 hs.2

/-- A unified module over a memory system that never takes a transaction. -/
def refusing : Config where
  memoryStructure := .unified
  fastLayerMode := false
  period := 500
  modeChangeDelay := (10, 10)
  pimSyncMap := fun _ => none
  hostSyncMap := fun _ => none
  memorySystem := ⟨1, fun _ => 0⟩
  estimateNs := fun _ _ => 0

theorem bounded_of_sent (x y : Traced) (h : y.sent.length < 2 ^ 32) : Bounded x y := by
  intro k
  calc (y.outstanding k).card ≤ (y.sent.filter fun t => t.isPim = k).length :=
        Multiset.card_le_card (Multiset.sub_le_self _ _)
    _ ≤ y.sent.length := List.length_filter_le _ _
    _ < 2 ^ 32 := h

/-- A compute command, and an edge inside the mode change it causes. -/
theorem unified_exclusive_switch :
    let t : Payload := {ptr := 1, command := .pim, address := 7, srcId := .host, dstId := .pim}
    let x₁ := ({} : Traced).act (peqCb 0 t {})
    let x₂ := x₁.act (iterate refusing {} 0 x₁.wrapper)
    let x₃ := x₂.pop false (clockPosedge refusing 500 x₂.wrapper)
    let x₄ := x₃.act (resume refusing {} 10000 t x₃.wrapper)
    Exclusive x₄ := by
  intro t x₁ x₂ x₃ x₄
  have h₁ : Lib.Reach (· = {}) (Lib.Kept (Step refusing) Bounded) x₁ :=
    .next (.start rfl) ⟨.arrive 0 t, bounded_of_sent _ x₁ (by decide)⟩
  have h₂ : Lib.Reach (· = {}) (Lib.Kept (Step refusing) Bounded) x₂ :=
    .next h₁ ⟨.iterate {} 0 0 false rfl, bounded_of_sent _ x₂ (by decide)⟩
  have h₃ : Lib.Reach (· = {}) (Lib.Kept (Step refusing) Bounded) x₃ :=
    .next h₂ ⟨.posedge 500, bounded_of_sent _ x₃ (by decide)⟩
  have h₄ : Lib.Reach (· = {}) (Lib.Kept (Step refusing) Bounded) x₄ :=
    .next h₃ ⟨.resume {} 10000 _ t rfl, bounded_of_sent _ x₄ (by decide)⟩
  exact unified_exclusive rfl h₄

/-! ### The counters are 32 bits wide -/

/-- The `n`-th of a stream of reads. -/
def nthRead (n : Nat) : Payload := {ptr := n + 1, command := .read, srcId := .npu, dstId := .dram}

/-- Every read so far waits in the bridge. -/
structure Piled (n : Nat) (x : Traced) : Prop where
  thread : ∃ wake onEvent, x.wrapper.thread = .waiting wake onEvent
  mode : x.wrapper.pimMode = .memory
  computeBusy : x.wrapper.computeBusy = false
  memoryBusy : 0 < n → x.wrapper.memoryBusy = true
  count : x.wrapper.memoryBusyCount = UInt32.ofNat n
  pending : x.wrapper.pendingQueue = []
  fast : x.wrapper.fastMemoryCompletedQueue = [] ∧ x.wrapper.fastComputeCompletedQueue = []
  outgoing : x.wrapper.bridge.outgoingQueue = []
  compute : x.wrapper.bridge.pimComputeQueue = []
  sent : x.sent.length = n ∧ ∀ t ∈ x.sent, t.isPim = false
  popped : x.popped false = []

/-- With nothing finished there is nothing to collect. -/
theorem collect_idle (now : Time) (s : State) (hm : s.fastMemoryCompletedQueue = [])
    (hc : s.fastComputeCompletedQueue = []) (ho : s.bridge.outgoingQueue = []) :
    collect now s = (s, []) := by
  cases s
  simp_all [collect, Action.seq, completeFastMemoryRequests, completeFastComputeRequests,
    takeCompleted, Bridge.getCompletedCommand, Lib.due, Lib.notDue]

/-- A tick in which the memory system does nothing. -/
theorem clockTick_idle (m : Bridge.MemorySystem) (b : Bridge.State) (now : Time)
    (h : b.pimComputeQueue = []) : Bridge.clockTick m b now {} = b := by
  have hoffer : ∀ c, Bridge.offer {} b c = b := by
    intro c
    unfold Bridge.offer
    split <;> rfl
  have hoffers : ∀ cs : List (Fin Bridge.maxChannel), cs.foldl (Bridge.offer {}) b = b := by
    intro cs
    induction cs with
    | nil => rfl
    | cons c cs ih => rw [List.foldl_cons, hoffer, ih]
  cases b
  simp_all [Bridge.clockTick, Bridge.callBacks, Bridge.drainCompute, Lib.due, Lib.notDue]

/-- The next read is taken off the queue and sent at once, since memory mode is on. -/
theorem Piled.sends {n : Nat} {x : Traced} (h : Piled n x) {s : State}
    (hs : s = {x.wrapper with pendingQueue := [nthRead n]}) :
    ∃ waits target draft, (iterate refusing {} 0 s).1 = {s with
        pendingQueue := []
        contentionWaitStart := waits
        targetMemoryWaitCount := target
        draftComputeWaitCount := draft
        memoryBusy := true
        memoryBusyCount := s.memoryBusyCount + 1
        bridge := Bridge.sendCommand refusing.memorySystem s.bridge 0 (nthRead n)
        thread := .waiting 500 false} ∧
      sentBy (iterate refusing {} 0 s).2 = [nthRead n] := by
  have hpending : s.pendingQueue = [nthRead n] := by rw [hs]
  have hfree : headBlocked s (nthRead n) = false := by
    rw [hs]
    exact h.computeBusy
  have hmode : s.pimMode = targetMode (nthRead n) := by
    rw [hs]
    exact h.mode
  have hcompute : s.bridge.pimComputeQueue = [] := by
    rw [hs]
    exact h.compute
  have hidle : collect 0 s = (s, []) := by
    subst hs
    exact collect_idle 0 _ h.fast.1 h.fast.2 h.outgoing
  rcases process_cases refusing {} 0 s with
    ⟨hnil, -⟩ | ⟨t, rest, hq, -, hb, -⟩ | ⟨t, rest, s₀, effects, hq, -, hdeq, heff, hp⟩
  · rw [hpending] at hnil
    exact absurd hnil (by simp)
  · rw [hpending] at hq
    obtain ⟨rfl, rfl⟩ := List.cons_eq_cons.mp hq
    rw [hfree] at hb
    exact absurd hb (by simp)
  · rw [hpending] at hq
    obtain ⟨rfl, rfl⟩ := List.cons_eq_cons.mp hq
    obtain ⟨waits, target, draft, hs₀⟩ := hdeq
    have hmode₀ : s₀.pimMode = targetMode (nthRead n) := by
      rw [hs₀]
      exact hmode
    rw [sendTransaction, if_pos hmode₀] at hp
    have hover : handOver refusing 0 (nthRead n) s₀ = ({s₀ with
        memoryBusy := true
        memoryBusyCount := s₀.memoryBusyCount + 1
        bridge := Bridge.sendCommand refusing.memorySystem s₀.bridge 0 (nthRead n)},
        [.metrics (.started .pim (nthRead n) 0 0)]) := rfl
    have hfinish : ∀ s, finishIteration refusing {} 0 false s =
        ({tick refusing {} 0 s with thread := .waiting 500 false}, []) := fun _ => rfl
    have htick : tick refusing {} 0 (handOver refusing 0 (nthRead n) s₀).1 =
        (handOver refusing 0 (nthRead n) s₀).1 := by
      rw [hover]
      simp only [tick]
      rw [if_neg (by decide), clockTick_idle _ _ _ (by rw [hs₀]; exact hcompute)]
    refine ⟨waits, target, draft, ?_, ?_⟩
    · simp only [iterate, Action.seq_fst, hidle, hp, hfinish, htick]
      rw [hover, hs₀]
    · simp only [iterate, Action.seq_snd, hidle, hp, hfinish, hover, sentBy_append,
        sentBy_contention heff]
      rfl

theorem Piled.next {n : Nat} {x : Traced} (h : Piled n x) :
    let y := x.act (peqCb 0 (nthRead n) x.wrapper)
    Piled (n + 1) (y.act (iterate refusing {} 0 y.wrapper)) := by
  intro y
  have hy : y.wrapper = {x.wrapper with pendingQueue := [nthRead n]} := by
    show {x.wrapper with pendingQueue := x.wrapper.pendingQueue ++ [nthRead n]} = _
    rw [h.pending, List.nil_append]
  obtain ⟨waits, target, draft, hwrapper, hsent⟩ := h.sends hy
  constructor
  case thread => exact ⟨500, false, by rw [Traced.act, hwrapper]⟩
  case sent =>
    obtain ⟨hlen, hkind⟩ := h.sent
    have hbefore : y.sent = x.sent := List.append_nil _
    simp only [Traced.act, hsent, hbefore]
    refine ⟨by simp [hlen], fun t ht => ?_⟩
    rcases List.mem_append.mp ht with ht | ht
    · exact hkind t ht
    · obtain rfl := List.mem_singleton.mp ht
      rfl
  case popped => exact h.popped
  case count =>
    have hcount : x.wrapper.memoryBusyCount = UInt32.ofNat n := h.count
    simp only [Traced.act, hwrapper]
    show x.wrapper.memoryBusyCount + 1 = _
    rw [hcount, UInt32.ofNat_add]
    rfl
  all_goals simp only [Traced.act, hwrapper]
  case mode => exact h.mode
  case computeBusy => exact h.computeBusy
  case memoryBusy => exact fun _ => trivial
  case fast => exact h.fast
  case outgoing => exact h.outgoing
  case compute => exact h.compute

theorem piled (n : Nat) : ∃ x, Reachable refusing x ∧ Piled n x := by
  induction n with
  | zero =>
    refine ⟨{}, .start rfl, ?_⟩
    constructor <;> simp
  | succ n ih =>
    obtain ⟨x, hx, hp⟩ := ih
    obtain ⟨wake, onEvent, hthread⟩ := hp.thread
    exact ⟨_, .next (.next hx (.arrive 0 (nthRead n))) (.iterate {} 0 wake onEvent hthread), hp.next⟩

/-- With 2^32 reads in flight the counter reads zero while the flag is up. -/
theorem counter_wraps : ¬ ∀ cfg : Config, cfg.memoryStructure = .unified →
    ∀ x, Reachable cfg x → Exclusive x := by
  intro hall
  obtain ⟨x, hx, hp⟩ := piled (2 ^ 32)
  have hflag := ((hall refusing rfl x hx).flag false).mp (hp.memoryBusy (by decide))
  have hcount : x.wrapper.busyCount false = 0 := hp.count.trans rfl
  rw [hcount] at hflag
  exact absurd hflag (by decide)

end Hsim.PimWrapper
