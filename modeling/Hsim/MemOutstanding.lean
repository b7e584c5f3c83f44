import Hsim.Lib.Reach
import Hsim.MemTraffic

/-! The DRAM module's count of outstanding requests.

The counter goes up at one place, where a request is handed to a back end, and
down at three: on the falling edge for what is answered, and in the thread for
the host's writes, which are acknowledged there. It is held against the queues in
every state the module's processes can bring about, whatever the memory system
answers, for requests of the host and of the NPU. -/
namespace Hsim

/-- A read or write of one of the two masters of the module. -/
def Payload.OfMaster (t : Payload) : Prop :=
  (t.srcId = .host ∨ t.srcId = .npu) ∧ (t.command = .read ∨ t.command = .write)

instance (t : Payload) : Decidable t.OfMaster := inferInstanceAs (Decidable (_ ∧ _))

namespace MemWrapper

/-- The activations of the module, in any order and at any times. -/
inductive Activation (cfg : Config) (s : State) : State → Prop where
  | arrive (now : Time) (t : Payload) : t.OfMaster → Activation cfg s (peqCb now t s).1
  | clockPosedge : Activation cfg s (clockPosedge s)
  | clockNegedge : Activation cfg s (clockNegedge s).1
  | iterate (env : Env) (now wake : Time) (onEvent : Bool) : s.thread = .waiting wake onEvent →
    Activation cfg s (iterate cfg env now s).1

/-- The states the activations lead to from an idle module. -/
abbrev Activated (cfg : Config) : State → Prop := Lib.Reach (· = {}) (Activation cfg)

/-- The write whose acknowledgement raised an exception is neither in a queue nor
uncounted. -/
def Thread.lost (thread : Thread) : Nat := if thread = .failed then 1 else 0

@[simp] theorem Thread.lost_of_runs {thread : Thread} (h : thread ≠ .failed) : thread.lost = 0 :=
  if_neg h

/-- The counter goes with the queues. -/
structure Counts (s : State) : Prop where
  traffic : ∀ t ∈ held s, t.OfMaster
  count : s.outstanding = UInt32.ofNat ((sent s).card + s.thread.lost)

theorem counts_initial : Counts {} := by
  constructor <;> simp [held, sent, Thread.lost]

/-- An operation that moves requests among the back ends. -/
theorem Counts.of_sent {s s' : State} (h : Counts s) (hsent : sent s' = sent s)
    (hfw : s'.fwQueue = s.fwQueue) (hreq : s'.memRequest = s.memRequest)
    (hcount : s'.outstanding = s.outstanding) (hlost : s'.thread.lost = s.thread.lost) : Counts s' := by
  have hheld : held s' = held s := by rw [held, hsent, hfw, hreq, held]
  constructor
  · rw [hheld]
    exact h.traffic
  · rw [hcount, hsent, hlost]
    exact h.count

/-- An operation after which a request is counted no more. -/
theorem Counts.leave {s s' : State} {t : Payload} (h : Counts s) (hsent : sent s = t ::ₘ sent s')
    (hfw : s'.fwQueue = s.fwQueue) (hreq : s'.memRequest = s.memRequest)
    (hcount : s'.outstanding = s.outstanding - 1) (hthread : s'.thread = s.thread) : Counts s' := by
  have hheld : held s = t ::ₘ held s' := by
    rw [held, hsent, Multiset.add_cons, ← hfw, ← hreq, held]
  constructor
  · intro t' ht'
    exact h.traffic t' (by rw [hheld]; exact Multiset.mem_cons_of_mem ht')
  · have hold := h.count
    rw [hsent, Multiset.card_cons, Nat.add_right_comm, UInt32.ofNat_add] at hold
    rw [hcount, hold, hthread]
    exact UInt32.add_sub_cancel _ _

/-! ### Collecting from the bridge -/

/-- What the thread does with the transaction it gets from the bridge. -/
inductive Taken (s s' : State) : Prop where
  | nothing : s' = s → Taken s s'
  | answered (t : Payload) (bridge : Bridge.State) :
    Bridge.contents s.bridge = t ::ₘ Bridge.contents bridge →
    s' = {s with bridge := bridge, bwQueue := s.bwQueue ++ [t]} → Taken s s'
  | acknowledged (t : Payload) (bridge : Bridge.State) (wackNum : UInt32) :
    Bridge.contents s.bridge = t ::ₘ Bridge.contents bridge →
    s' = {s with bridge := bridge, wackNum := wackNum, outstanding := s.outstanding - 1} → Taken s s'
  | failed (t : Payload) (bridge : Bridge.State) :
    Bridge.contents s.bridge = t ::ₘ Bridge.contents bridge →
    s' = {s with bridge := bridge, wackNum := 0, thread := .failed} → Taken s s'

theorem takeCompleted_taken (cfg : Config) (now : Time) {s : State}
    (h : ∀ t ∈ Bridge.contents s.bridge, t.OfMaster) : Taken s (takeCompleted cfg now s).1 := by
  have hback := Bridge.contents_getCompletedCommand s.bridge
  unfold takeCompleted
  split
  · exact .nothing rfl
  · next t bridge hget =>
    rw [hget, Option.toList_some, Multiset.coe_singleton, Multiset.singleton_add] at hback
    have ht : t ∈ Bridge.contents s.bridge := by
      rw [hback]
      exact Multiset.mem_cons_self t _
    obtain ⟨hsrc, hread | hwrite⟩ := h t ht
    · dsimp only
      rw [if_pos hread]
      exact .answered t bridge hback rfl
    · dsimp only
      rw [if_neg (by simp [hwrite]), if_pos hwrite]
      rcases hsrc with hhost | hnpu
      · split
        · exact .acknowledged t bridge s.wackNum hback rfl
        · -- A burst's last write looks its layer up; the others are only counted.
          unfold acknowledgeHostWrite
          dsimp only
          split
          · split
            · exact .acknowledged t bridge 0 hback rfl
            · exact .failed t bridge hback rfl
          · exact .acknowledged t bridge _ hback rfl
      · rw [if_neg (by simp [hnpu]), if_neg (by simp [hnpu]), if_pos hnpu]
        exact .answered t bridge hback rfl

/-- A transaction leaves the bridge for none of the module's queues. -/
theorem sent_gone {s s' : State} {t : Payload}
    (h : Bridge.contents s.bridge = t ::ₘ Bridge.contents s'.bridge) (hbw : s'.bwQueue = s.bwQueue)
    (hfast : s'.fastMemoryCompletedQueue = s.fastMemoryCompletedQueue) :
    sent s = t ::ₘ sent s' := by
  rw [sent, sent, h, hbw, hfast, Multiset.add_cons]

theorem Counts.taken {s s' : State} (h : Counts s) (hruns : s.thread ≠ .failed) (ht : Taken s s') :
    Counts s' := by
  cases ht with
  | nothing he => exact he ▸ h
  | answered t bridge hback he =>
    subst he
    exact h.of_sent (sent_answered hback) rfl rfl rfl rfl
  | acknowledged t bridge wackNum hback he =>
    subst he
    exact h.leave (sent_gone hback rfl rfl) rfl rfl rfl rfl
  | failed t bridge hback he =>
    subst he
    have hsent : sent s = t ::ₘ sent {s with bridge := bridge, wackNum := 0, thread := .failed} :=
      sent_gone hback rfl rfl
    constructor
    · intro t' ht'
      refine h.traffic t' ?_
      rw [held, hsent, Multiset.add_cons]
      exact Multiset.mem_cons_of_mem ht'
    · have hold := h.count
      rw [Thread.lost_of_runs hruns, hsent, Multiset.card_cons] at hold
      exact hold

/-! ### Handing requests over -/

/-- All requests are handed over, by a thread that goes on as it was. -/
theorem Counts.sendRequests {s : State} (h : Counts s) (cfg : Config) (now : Time) :
    Counts (sendRequests cfg now s).1 ∧ (sendRequests cfg now s).1.thread = s.thread := by
  obtain ⟨hcount, -, -, hthread⟩ := sendRequests_frame cfg now s
  refine ⟨⟨?_, ?_⟩, hthread⟩
  · rw [held_sendRequests]
    exact h.traffic
  · rw [hcount, hthread, sent_sendRequests, Multiset.card_add, Multiset.coe_card, Nat.add_assoc,
      UInt32.ofNat_add, h.count, add_comm]

/-! ### The activations -/

theorem Counts.iterate {s : State} (h : Counts s) (hruns : s.thread ≠ .failed) (cfg : Config)
    (env : Env) (now : Time) : Counts (iterate cfg env now s).1 := by
  have h₁ : Counts (completeFastMemoryRequests now s).1 :=
    h.of_sent (sent_completeFastMemoryRequests now s) rfl rfl rfl rfl
  have h₂ : Counts (takeCompleted cfg now (completeFastMemoryRequests now s).1).1 := by
    refine h₁.taken hruns (takeCompleted_taken cfg now fun t ht => h₁.traffic t ?_)
    exact Multiset.mem_add.mpr (.inr (Multiset.mem_add.mpr (.inr ht)))
  simp only [MemWrapper.iterate, Action.seq_fst]
  split
  · exact h₂
  · next hthread =>
    obtain ⟨h₃, hsame⟩ := h₂.sendRequests cfg now
    rw [← hsame] at hthread
    rw [Action.seq_fst]
    generalize (MemWrapper.sendRequests cfg now _).1 = s₃ at h₃ hthread
    obtain ⟨thread, hne, hfinish, -⟩ := finishIteration_cases (s := s₃) cfg env now
    rw [hfinish]
    refine h₃.of_sent (congrArg (_ + ·) (contents_tick cfg env now)) rfl rfl rfl ?_
    exact (Thread.lost_of_runs hne).trans (Thread.lost_of_runs hthread).symm

theorem Counts.clockPosedge {s : State} (h : Counts s) : Counts (clockPosedge s) := by
  have hsame : sent (MemWrapper.clockPosedge s) = sent s ∧
      (MemWrapper.clockPosedge s).outstanding = s.outstanding ∧
      (MemWrapper.clockPosedge s).thread = s.thread := by
    unfold MemWrapper.clockPosedge
    split <;> exact ⟨rfl, rfl, rfl⟩
  obtain ⟨hsent, hcount, hthread⟩ := hsame
  constructor
  · rw [held, clockPosedge_perm, hsent]
    exact h.traffic
  · rw [hcount, hsent, hthread]
    exact h.count

theorem Counts.clockNegedge {s : State} (h : Counts s) : Counts (clockNegedge s).1 := by
  unfold MemWrapper.clockNegedge
  cases hq : s.bwQueue with
  | nil => exact h
  | cons t rest =>
    have hsent : sent s = t ::ₘ sent {s with bwQueue := rest, outstanding := s.outstanding - 1} := by
      simp only [sent, hq, ← Multiset.cons_coe, Multiset.cons_add]
    exact h.leave hsent rfl rfl rfl rfl

theorem Counts.arrive {s : State} (h : Counts s) (now : Time) {t : Payload} (ht : t.OfMaster) :
    Counts (peqCb now t s).1 := by
  refine ⟨fun t' ht' => ?_, h.count⟩
  rw [held_peqCb] at ht'
  rcases Multiset.mem_cons.mp ht' with rfl | ht'
  · exact ht
  · exact h.traffic t' ht'

theorem Activation.counts {cfg : Config} {s s' : State} (h : Counts s) (ha : Activation cfg s s') :
    Counts s' := by
  cases ha with
  | arrive now t ht => exact h.arrive now ht
  | clockPosedge => exact h.clockPosedge
  | clockNegedge => exact h.clockNegedge
  | iterate env now wake onEvent ht => exact h.iterate (by simp [ht]) cfg env now

theorem Activated.counts {cfg : Config} {s : State} (h : Activated cfg s) : Counts s := by
  refine h.invariant (P := Counts) ?_ fun s s' hs ha => ha.counts hs
  rintro _ rfl
  exact counts_initial

/-! ### The counter -/

/-- The counter is the number of requests with a back end or waiting to be answered, to
the counter's width; and while it can hold that number, what a decrement takes away is
there. The falling edge decrements when a request waits to be answered, the thread when
the bridge gives back a write of the host. -/
structure Exact (s : State) : Prop where
  modular : s.outstanding = UInt32.ofNat (sent s).card
  count : (sent s).card < 2 ^ 32 → s.outstanding.toNat = (sent s).card
  answering : (sent s).card < 2 ^ 32 → s.bwQueue ≠ [] → 0 < s.outstanding
  acknowledging : (sent s).card < 2 ^ 32 → s.bridge.outgoingQueue ≠ [] → 0 < s.outstanding

theorem card_bwQueue_le (s : State) : s.bwQueue.length ≤ (sent s).card := by
  simp only [sent, Multiset.card_add, Multiset.coe_card]
  omega

theorem card_outgoingQueue_le (s : State) : s.bridge.outgoingQueue.length ≤ (sent s).card := by
  simp only [sent, Bridge.contents, Multiset.card_add, Multiset.coe_card]
  omega

theorem Counts.exact {s : State} (h : Counts s) (hruns : s.thread ≠ .failed) : Exact s := by
  have hmodular : s.outstanding = UInt32.ofNat (sent s).card := by
    rw [h.count, Thread.lost_of_runs hruns, Nat.add_zero]
  have hcount : (sent s).card < 2 ^ 32 → s.outstanding.toNat = (sent s).card := by
    intro hfew
    rw [hmodular, UInt32.toNat_ofNat_of_lt' hfew]
  have hpos : (sent s).card < 2 ^ 32 → 0 < (sent s).card → 0 < s.outstanding := by
    intro hfew hsome
    rw [UInt32.lt_iff_toNat_lt, hcount hfew]
    exact hsome
  refine ⟨hmodular, hcount, fun hfew hne => hpos hfew ?_, fun hfew hne => hpos hfew ?_⟩
  · exact (List.length_pos_iff.mpr hne).trans_le (card_bwQueue_le s)
  · exact (List.length_pos_iff.mpr hne).trans_le (card_outgoingQueue_le s)

/-- **The count of outstanding requests is exact** as long as no exception has ended the
thread. -/
theorem outstanding_exact {cfg : Config} {s : State} (h : Activated cfg s)
    (hruns : s.thread ≠ .failed) : Exact s :=
  (Activated.counts h).exact hruns

/-- Two channels, at cycle level; `w` is a layer the host waits for. -/
def twoChannels : Config where
  fastLayerMode := false
  period := 1000
  hostSyncMap := fun layer => if layer = "w" then some 3 else none
  pimSyncMap := fun _ => none
  memorySystem := ⟨2, fun addr => if addr = 0 then 0 else 1⟩
  estimateNs := fun _ bytes => bytes

/-- A write of the host that is a burst of its own. -/
def hostWrite (layer : String) : Payload := {
  ptr := 2, command := .write, srcId := .host, dstId := .dram, dataLength := 64, bstSize := 1,
  layer := layer}

/-- A read of the NPU on the other channel. -/
def npuRead : Payload := {
  ptr := 1, command := .read, address := 64, srcId := .npu, dstId := .dram, dataLength := 64}

/-- The host's write is acknowledged while the NPU's read is still with the memory. -/
theorem outstanding_exact_burst :
    let s₁ := (peqCb 0 (hostWrite "w") (peqCb 0 npuRead {}).1).1
    let s₂ := (iterate twoChannels {} 0 (clockPosedge (clockPosedge s₁))).1
    let s₃ := (iterate twoChannels {answers := {accepts := fun _ => true}} 1000 s₂).1
    let s₄ := (iterate twoChannels {answers := {callbacks := [(true, 0)]}} 2000 s₃).1
    let s₅ := (iterate twoChannels {} 3000 s₄).1
    s₄.outstanding = 2 ∧ s₅.outstanding = 1 ∧ Exact s₅ := by
  intro s₁ s₂ s₃ s₄ s₅
  have h₁ : Activated twoChannels s₁ :=
    .next (.next (.start rfl) (.arrive 0 npuRead (by decide))) (.arrive 0 _ (by decide))
  have h₂ : Activated twoChannels s₂ :=
    .next (.next (.next h₁ .clockPosedge) .clockPosedge) (.iterate {} 0 0 false (by decide +kernel))
  have h₃ : Activated twoChannels s₃ := .next h₂ (.iterate _ 1000 1000 false (by decide +kernel))
  have h₄ : Activated twoChannels s₄ := .next h₃ (.iterate _ 2000 2000 false (by decide +kernel))
  have h₅ : Activated twoChannels s₅ := .next h₄ (.iterate _ 3000 3000 false (by decide +kernel))
  exact ⟨by decide +kernel, by decide +kernel, outstanding_exact h₅ (by decide +kernel)⟩

/-! ### Where it is not -/

/-- A memory that takes 2^40 ns for a tensor. -/
def slow : Config where
  fastLayerMode := true
  period := 1000000
  hostSyncMap := fun _ => none
  pimSyncMap := fun _ => none
  memorySystem := ⟨1, fun _ => 0⟩
  estimateNs := fun _ _ => 2 ^ 40

/-- The `n`-th tensor. -/
def nthTensor (n : Nat) : Payload := {
  ptr := n + 1, command := .read, srcId := .npu, dstId := .dram, dataLength := 64,
  pimCmd := "fast_memory"}

/-- A module with tensors in service. -/
def serving (thread : Thread) (queue : List (Time × Payload)) (count : UInt32) : State := {
  thread := thread, fastMemoryCompletedQueue := queue, outstanding := count}

/-- A tensor taken while all the tensors before it are still being served. -/
theorem iterate_slow (now wake : Time) (onEvent : Bool) (t : Payload)
    (ht : t.isMacroRequest = true) (queue : List (Time × Payload)) (hlater : ∀ e ∈ queue, now < e.1)
    (count : UInt32) : ∃ wake',
    (iterate slow {} now {serving (.waiting wake onEvent) queue count with memRequest := [t]}).1 =
      serving (.waiting wake' true) (queue ++ [(now + ns (2 ^ 40), t)]) (count + 1) := by
  have hdue : Lib.due now queue = [] ∧ Lib.notDue now queue = queue := by
    cases queue with
    | nil => exact ⟨rfl, rfl⟩
    | cons e queue =>
      have he := hlater e List.mem_cons_self
      exact ⟨Lib.due_cons_of_lt he queue, Lib.notDue_cons_of_lt he queue⟩
  have hlocal : slow.localRequest t = true := by simp [Config.localRequest, slow, ht]
  have hduration : slow.duration t = ns (2 ^ 40) := rfl
  have hfast : slow.fastLayerMode = true := rfl
  cases queue with
  | nil =>
    refine ⟨now + ns (2 ^ 40), ?_⟩
    simp [iterate, completeFastMemoryRequests, takeCompleted, Bridge.getCompletedCommand, serving,
      sendRequests, sendRequest, hlocal, hduration, hfast, finishIteration, tick, hdue]
  | cons e queue =>
    refine ⟨e.1, ?_⟩
    simp [iterate, completeFastMemoryRequests, takeCompleted, Bridge.getCompletedCommand, serving,
      sendRequests, sendRequest, hlocal, hduration, hfast, finishIteration, tick, hdue]

/-- A tensor a nanosecond, and none served yet. -/
theorem serving_slow (n : Nat) (hn : n ≤ 2 ^ 40) : ∃ wake onEvent queue,
    Activated slow (serving (.waiting wake onEvent) queue (UInt32.ofNat n)) ∧ queue.length = n ∧
      ∀ e ∈ queue, ns (2 ^ 40) ≤ e.1 := by
  induction n with
  | zero => exact ⟨0, false, [], .start rfl, rfl, by simp⟩
  | succ n ih =>
    obtain ⟨wake, onEvent, queue, hs, hlength, hlate⟩ := ih (by omega)
    have hbefore : ns n < ns (2 ^ 40) := Nat.mul_lt_mul_of_pos_left (by omega) (by decide)
    have hlater : ∀ e ∈ queue, ns n < e.1 := fun e he => hbefore.trans_le (hlate e he)
    have hnext : Activated slow
        {serving (.waiting wake onEvent) queue (UInt32.ofNat n) with memRequest := [nthTensor n]} :=
      .next (.next hs (.arrive (ns n) (nthTensor n) ⟨.inr rfl, .inl rfl⟩)) .clockPosedge
    obtain ⟨wake', hiterate⟩ := iterate_slow (ns n) wake onEvent (nthTensor n) rfl queue hlater
      (UInt32.ofNat n)
    have hlast := Lib.Reach.next hnext (.iterate {} (ns n) wake onEvent rfl)
    rw [hiterate] at hlast
    refine ⟨wake', true, _, by rw [UInt32.ofNat_add]; exact hlast, by simp [hlength], fun e he => ?_⟩
    rcases List.mem_append.mp he with he | he
    · exact hlate e he
    · rw [List.mem_singleton.mp he]
      exact Nat.le_add_left _ _

/-- With 2^32 tensors in service the counter is back at zero; and when the last write of a
host's burst names a layer the host does not wait for, the exception leaves the write
counted that is in no queue any more. -/
theorem outstanding_not_exact :
    (¬ ∀ cfg s, Activated cfg s → s.thread ≠ .failed → s.outstanding.toNat = (sent s).card) ∧
      ¬ ∀ cfg s, Activated cfg s → (sent s).card < 2 ^ 32 → s.outstanding.toNat = (sent s).card := by
  constructor
  · intro hall
    obtain ⟨wake, onEvent, queue, hs, hlength, -⟩ := serving_slow (2 ^ 32) (by decide)
    have hcount := hall slow _ hs (by simp [serving])
    have hcard : (sent (serving (.waiting wake onEvent) queue (UInt32.ofNat (2 ^ 32)))).card = 2 ^ 32 := by
      simp only [sent, serving, Multiset.card_add, Multiset.coe_card, List.length_map, hlength,
        Bridge.contents_empty, Multiset.card_zero, List.length_nil, Nat.zero_add, Nat.add_zero]
    rw [hcard] at hcount
    have hzero : (UInt32.ofNat (2 ^ 32)).toNat = 0 := by decide
    exact absurd (hzero.symm.trans hcount) (by decide)
  · intro hall
    let s₁ := (peqCb 0 (hostWrite "v") {}).1
    let s₂ := (iterate twoChannels {answers := {accepts := fun _ => true}} 0 (clockPosedge s₁)).1
    let s₃ := (iterate twoChannels {answers := {callbacks := [(true, 0)]}} 1000 s₂).1
    let s₄ := (iterate twoChannels {} 2000 s₃).1
    have h₂ : Activated twoChannels s₂ :=
      .next (.next (.next (.start rfl) (.arrive 0 _ (by decide))) .clockPosedge)
        (.iterate _ 0 0 false (by decide +kernel))
    have h₃ : Activated twoChannels s₃ := .next h₂ (.iterate _ 1000 1000 false (by decide +kernel))
    have h₄ : Activated twoChannels s₄ := .next h₃ (.iterate _ 2000 2000 false (by decide +kernel))
    have hcard : (sent s₄).card = 0 := by decide +kernel
    have hcount := hall twoChannels s₄ h₄ (by rw [hcard]; decide)
    rw [hcard] at hcount
    have hone : s₄.outstanding = 1 := by decide +kernel
    rw [hone] at hcount
    exact absurd hcount (by decide)

end MemWrapper

end Hsim
