import Hsim.Bridge
import Mathlib.Algebra.Order.BigOperators.Group.Finset
import Mathlib.Tactic.DeriveFintype

/-! Conservation in the bridge.

Between two calls a transaction handed to the bridge is in one place: a channel's
incoming queue, one of the two tables of accepted transactions, the compute
queue, the outgoing queue, or among those given back. A run is any list of calls;
the memory system answers each tick as it likes. -/
namespace Hsim.Bridge

/-! ### The channel of an address -/

/-- `LogBase2`: how often a number can be halved before it is at most one. -/
def logBase2 (powerOfTwo : Nat) : Nat :=
  if 1 < powerOfTwo then logBase2 (powerOfTwo / 2) + 1 else 0

theorem two_pow_logBase2_le {n : Nat} (h : 1 ≤ n) : 2 ^ logBase2 n ≤ n := by
  induction n using logBase2.induct with
  | case1 n hn ih =>
    have hhalf := ih (by omega)
    rw [logBase2, if_pos hn, Nat.pow_succ]
    omega
  | case2 n hn =>
    rw [logBase2, if_neg hn]
    simpa using h

/-- What `GetChannel` reads of the memory system's `Config`. -/
structure AddressMapping where
  channels : Nat
  shiftBits : UInt64
  chPos : UInt64

/-- `ch_mask`, as `SetAddressMapping` computes it. -/
def AddressMapping.chMask (d : AddressMapping) : UInt64 := UInt64.ofNat (2 ^ logBase2 d.channels - 1)

/-- `BaseDRAMSystem::GetChannel`. -/
def AddressMapping.getChannel (d : AddressMapping) (hexAddr : UInt64) : UInt64 :=
  ((hexAddr >>> d.shiftBits) >>> d.chPos) &&& d.chMask

theorem AddressMapping.getChannel_le (d : AddressMapping) (hexAddr : UInt64) :
    (d.getChannel hexAddr).toNat ≤ 2 ^ logBase2 d.channels - 1 := by
  rw [getChannel, UInt64.toNat_and]
  apply Nat.and_le_right.trans
  rw [chMask, UInt64.toNat_ofNat']
  exact Nat.mod_le _ _

/-- The mask is that of the largest power of two within the number of channels, so it
never names a channel that does not exist. -/
theorem AddressMapping.getChannel_lt (d : AddressMapping) (h : 1 ≤ d.channels) (hexAddr : UInt64) :
    (d.getChannel hexAddr).toNat < d.channels := by
  have hle := d.getChannel_le hexAddr
  have hpow := two_pow_logBase2_le h
  have hpos : 0 < 2 ^ logBase2 d.channels := Nat.two_pow_pos _
  omega

theorem AddressMapping.getChannel_lt_maxChannel (d : AddressMapping) (h : d.channels ≤ maxChannel)
    (hexAddr : UInt64) : (d.getChannel hexAddr).toNat < maxChannel := by
  by_cases hc : 1 ≤ d.channels
  · exact (d.getChannel_lt hc hexAddr).trans_le h
  · have hle := d.getChannel_le hexAddr
    rw [logBase2, if_neg (by omega)] at hle
    simp only [pow_zero, Nat.sub_self, Nat.le_zero] at hle
    rw [hle]
    decide

/-- A memory system with as many channels as the bridge has queues, or fewer. -/
def MemorySystem.of (d : AddressMapping) (h : d.channels ≤ maxChannel) : MemorySystem where
  channels := d.channels
  getChannel addr := ⟨(d.getChannel addr).toNat, d.getChannel_lt_maxChannel h addr⟩

/-! ### Runs -/

/-- The calls the wrappers make on a bridge. -/
inductive Call where
  | sendCommand (now : Time) (t : Payload)
  | clockTick (now : Time) (answers : Answers)
  | getCompletedCommand

/-- A bridge and the history of what went in and came out. -/
structure Trace where
  bridge : State := {}
  sent : List Payload := []
  returned : List Payload := []

def Trace.call (m : MemorySystem) (r : Trace) : Call → Trace
  | .sendCommand now t =>
    {r with bridge := Bridge.sendCommand m r.bridge now t, sent := r.sent ++ [t]}
  | .clockTick now answers => {r with bridge := Bridge.clockTick m r.bridge now answers}
  | .getCompletedCommand =>
    let (completed, bridge) := Bridge.getCompletedCommand r.bridge
    {r with bridge := bridge, returned := r.returned ++ completed.toList}

def run (m : MemorySystem) (calls : List Call) : Trace := calls.foldl (Trace.call m) {}

/-- Holds of an empty bridge and survives every call, so holds after any calls. -/
theorem run_invariant {m : MemorySystem} {P : Trace → Prop} (initial : P {})
    (preserved : ∀ r c, P r → P (r.call m c)) (calls : List Call) : P (run m calls) := by
  unfold run
  generalize hr : ({} : Trace) = r at initial ⊢
  clear hr
  induction calls generalizing r with
  | nil => exact initial
  | cons c calls ih => exact ih _ (preserved r c initial)

/-- Where a transaction can be. -/
inductive Place where
  | incomingQueue (c : Fin maxChannel)
  | readDone
  | writeDone
  | pimComputeQueue
  | outgoingQueue
  | returned
  deriving DecidableEq, Fintype

def Trace.located (r : Trace) : Place → Multiset Payload
  | .incomingQueue c => r.bridge.incomingQueue c
  | .readDone => (r.bridge.readDone.map (·.2) : List Payload)
  | .writeDone => (r.bridge.writeDone.map (·.2) : List Payload)
  | .pimComputeQueue => (r.bridge.pimComputeQueue.map (·.2) : List Payload)
  | .outgoingQueue => r.bridge.outgoingQueue
  | .returned => r.returned

/-- The places together hold what the bridge holds and what it gave back. -/
theorem Trace.sum_located (r : Trace) :
    ∑ p, r.located p = contents r.bridge + (r.returned : Multiset Payload) := by
  have hsplit : (Finset.univ : Finset Place) = Finset.univ.image Place.incomingQueue ∪
      {.readDone, .writeDone, .pimComputeQueue, .outgoingQueue, .returned} := by decide
  rw [hsplit, Finset.sum_union (by decide), Finset.sum_image fun _ _ _ _ h => Place.incomingQueue.inj h]
  simp [located, contents, add_assoc]

/-- What went in is inside or came out. -/
def Trace.Conserved (r : Trace) : Prop :=
  (r.sent : Multiset Payload) = contents r.bridge + (r.returned : Multiset Payload)

theorem Trace.Conserved.call {m : MemorySystem} {r : Trace} (h : r.Conserved) (c : Call) :
    (r.call m c).Conserved := by
  unfold Conserved at h ⊢
  cases c with
  | sendCommand now t =>
    simp only [Trace.call, contents_sendCommand, ← Multiset.coe_add, h, Multiset.coe_singleton,
      ← Multiset.singleton_add]
    abel
  | clockTick now answers => simpa only [Trace.call, contents_clockTick] using h
  | getCompletedCommand =>
    have hout := contents_getCompletedCommand r.bridge
    simp only [Trace.call, h, hout, ← Multiset.coe_add]
    abel

/-! ### The scanned queues -/

/-- The channels whose queues a tick looks at. -/
def MemorySystem.Scanned (m : MemorySystem) (c : Fin maxChannel) : Prop := c.val < m.channels

/-- Nothing waits in a queue that no tick looks at. -/
def Trace.Reached (m : MemorySystem) (r : Trace) : Prop :=
  ∀ c, r.bridge.incomingQueue c ≠ [] → m.Scanned c

@[simp] theorem incomingQueue_callBacks (b : State) (calls : List (Bool × UInt64)) :
    (callBacks b calls).incomingQueue = b.incomingQueue := by
  induction calls generalizing b with
  | nil => rfl
  | cons c calls ih =>
    have hone : (if c.1 then writeCallBack b c.2 else readCallBack b c.2).incomingQueue =
        b.incomingQueue := by
      split <;> rfl
    exact (ih _).trans hone

/-- An offer shortens the queue it looks at, and only that one. -/
theorem incomingQueue_offer (answers : Answers) (b : State) (c i : Fin maxChannel)
    (h : (offer answers b c).incomingQueue i ≠ []) : b.incomingQueue i ≠ [] := by
  unfold offer at h
  cases hq : b.incomingQueue c with
  | nil => simpa only [hq] using h
  | cons t rest =>
    by_cases hi : i = c
    · rw [hi, hq]
      simp
    · simp only [hq] at h
      split at h
      · split at h
        · simpa only [Function.update_of_ne hi] using h
        · simpa only [Function.update_of_ne hi] using h
      · exact h

theorem incomingQueue_offers (answers : Answers) (cs : List (Fin maxChannel)) (b : State)
    (i : Fin maxChannel) (h : (cs.foldl (offer answers) b).incomingQueue i ≠ []) :
    b.incomingQueue i ≠ [] := by
  induction cs generalizing b with
  | nil => exact h
  | cons c cs ih => exact incomingQueue_offer answers b c i (ih _ h)

theorem Trace.Reached.call {m : MemorySystem} (hm : ∀ addr, m.Scanned (m.getChannel addr))
    {r : Trace} (h : r.Reached m) (c : Call) : (r.call m c).Reached m := by
  intro i hi
  cases c with
  | sendCommand now t =>
    by_cases hp : t.command = .pim
    · apply h i
      simpa only [Trace.call, sendCommand, if_pos hp] using hi
    · by_cases hc : i = m.getChannel t.address
      · rw [hc]
        exact hm t.address
      · apply h i
        simpa only [Trace.call, sendCommand, if_neg hp, Function.update_of_ne hc] using hi
  | clockTick now answers =>
    have hoffers := incomingQueue_offers answers _ _ i hi
    rw [incomingQueue_callBacks] at hoffers
    exact h i hoffers
  | getCompletedCommand =>
    apply h i
    simp only [Trace.call, getCompletedCommand] at hi
    split at hi <;> exact hi

/-! ### The result -/

theorem run_conserved (m : MemorySystem) (calls : List Call) : (run m calls).Conserved :=
  run_invariant (by simp [Trace.Conserved]) (fun _ c h => h.call c) calls

theorem run_reached (m : MemorySystem) (hm : ∀ addr, m.Scanned (m.getChannel addr))
    (calls : List Call) : (run m calls).Reached m :=
  run_invariant (fun _ hi => absurd rfl hi) (fun _ c h => h.call hm c) calls

/-- A sum of one has one summand that is not zero. -/
theorem existsUnique_of_sum_eq_one {ι : Type*} [Fintype ι] [DecidableEq ι] {f : ι → Nat}
    (h : ∑ i, f i = 1) : ∃! i, 0 < f i := by
  obtain ⟨i, -, hi⟩ : ∃ i ∈ Finset.univ, f i ≠ 0 := by
    apply Finset.exists_ne_zero_of_sum_ne_zero
    omega
  refine ⟨i, Nat.pos_of_ne_zero hi, fun j hj => ?_⟩
  by_contra hne
  have hpair : f i + f j ≤ ∑ k, f k := by
    rw [← Finset.sum_pair (f := f) (Ne.symm hne)]
    exact Finset.sum_le_univ_sum_of_nonneg (fun _ => Nat.zero_le _)
  have hj' : 0 < f j := hj
  omega

theorem Trace.Conserved.sum_count {r : Trace} (h : r.Conserved) (t : Payload) :
    ∑ p, (r.located p).count t = r.sent.count t := by
  rw [← Multiset.count_sum', r.sum_located, ← h, Multiset.coe_count]

/-- After any calls on a bridge whose memory system has at least one channel, and no more
than the bridge has queues, every transaction is in the places together as often as it was
sent; one that was sent once is in exactly one place; what came out is part of what went
in; and a queue that holds a transaction is one that a tick looks at. -/
theorem transactions_conserved (d : AddressMapping) (hone : 1 ≤ d.channels)
    (hmax : d.channels ≤ maxChannel) (calls : List Call) :
    let m := MemorySystem.of d hmax
    let r := run m calls
    (∀ t, ∑ p, (r.located p).count t = r.sent.count t) ∧
      (∀ t, r.sent.count t = 1 → ∃! p, t ∈ r.located p) ∧
      (r.returned : Multiset Payload) ≤ (r.sent : Multiset Payload) ∧
      ∀ c, r.bridge.incomingQueue c ≠ [] → m.Scanned c := by
  intro m r
  have hconserved : r.Conserved := run_conserved m calls
  refine ⟨hconserved.sum_count, fun t ht => ?_, ?_, ?_⟩
  · have hsum : ∑ p, (r.located p).count t = 1 := (hconserved.sum_count t).trans ht
    simpa only [Multiset.count_pos] using existsUnique_of_sum_eq_one hsum
  · rw [hconserved]
    exact Multiset.le_add_left _ _
  · exact run_reached m (fun addr => d.getChannel_lt hone addr) calls

/-- A read whose address selects channel 1 of three. -/
def sampleRead : Payload :=
  {ptr := 1, command := .read, address := 64, srcId := .npu, dstId := .pim}

/-- Three channels have a mask of one bit: the read waits in queue 1 and is taken there. -/
theorem three_channels_conserved :
    let d : AddressMapping := ⟨3, 6, 0⟩
    let calls : List Call := [.sendCommand 0 sampleRead, .sendCommand 5 {sampleRead with ptr := 2},
      .clockTick 10 {accepts := fun _ => true}, .clockTick 20 {callbacks := [(false, 64)]},
      .getCompletedCommand]
    (run (MemorySystem.of d (by decide)) calls).returned = [sampleRead] ∧
      ∀ t, (run (MemorySystem.of d (by decide)) calls).sent.count t = 1 →
        ∃! p, t ∈ (run (MemorySystem.of d (by decide)) calls).located p := by
  refine ⟨by decide +kernel, ?_⟩
  exact (transactions_conserved ⟨3, 6, 0⟩ (by decide) (by decide) _).2.1

/-- Without a channel the address still selects queue 0, and no tick looks there. -/
theorem no_channel_not_scanned :
    let m := MemorySystem.of ⟨0, 0, 0⟩ (by decide)
    (run m [.sendCommand 0 sampleRead]).bridge.incomingQueue 0 = [sampleRead] ∧
      ¬ m.Scanned 0 := by
  refine ⟨by decide +kernel, ?_⟩
  exact Nat.not_lt_zero _

end Hsim.Bridge
