import Hsim.Lib.Words
import Hsim.HostTrace

/-! Memory traces, `Host::handle_memory_trace`.

A read waits for the sync id its data is signalled with, a write for the host's
own computation; then the range of the trace is split into transactions of the
request size, which go to the queue. The address is 64 bits wide in the trace
and in the transaction, but 32 in the helper that makes the transaction, the
number of transactions is rounded up in 32 bits, and the request size is taken as
it is configured. The transactions are those of the range exactly when none of
the three matters (`handleMemoryTrace_covers_iff`). -/
namespace Hsim.Host

/-- `TraceType`. -/
inductive TraceType where
  | write
  | read
  | compute
  | pim
  | speculative
  | terminate
  deriving DecidableEq, Repr

/-- `TraceGenerator::MemoryTrace`. -/
structure MemoryTrace where
  type : TraceType
  layer : String
  id : UInt32
  src : DeviceType
  dst : DeviceType
  size : UInt32
  address : UInt64

/-- A transaction with the head flag, which only a memory trace sets. -/
structure MemoryTransaction extends Payload where
  head : Bool := false
  deriving DecidableEq, Repr

/-- `generate_trans`. What it does not set is as the payload's last use left it. -/
def generateTransaction (recycled : MemoryTransaction) (type : TraceType) (src dst : DeviceType)
    (addr burstId burstSize : UInt32) (layer microCmd : String) : MemoryTransaction := {recycled with
  pimCmd := microCmd
  address := addr.toUInt64
  bstSize := burstSize
  bstId := burstId
  srcId := src
  dstId := dst
  layer := layer
  command := if type = .pim then .pim else if type = .write then .write else .read}

/-- On a new payload, the PIM commands of a draft. -/
theorem generateTransaction_pim (addr burstId burstSize : UInt32) (layer microCmd : String) :
    (generateTransaction {ptr := 0, command := .ignore, srcId := .none, dstId := .none} .pim .host .pim
      addr burstId burstSize layer microCmd).toPayload =
      generateTrans addr burstId burstSize layer microCmd := rfl

/-- What the handler does, in order: the waits, the log and the queue. -/
inductive MemoryAct where
  | waitSyncSignal (id : UInt32) (dst : DeviceType)
  | waitHostCompute (layer : String)
  | updateStart (layer : String)
  | push (trans : MemoryTransaction)
  | waitReadResponses (transNum : UInt32) (layer : String)

/-- What is put on the queue. -/
def pushed (acts : List MemoryAct) : List MemoryTransaction :=
  acts.filterMap fun
    | .push t => some t
    | _ => none

@[simp] theorem pushed_append (a b : List MemoryAct) : pushed (a ++ b) = pushed a ++ pushed b :=
  List.filterMap_append

section
variable (reqBytes : UInt32) (trace : MemoryTrace)

/-- `trans_num`, in 32 bits. -/
def transNum : UInt32 := (trace.size + reqBytes - 1) / reqBytes

/-- The transaction of a turn of the loop. Its address is passed in 32 bits. -/
def memoryTransaction (recycled : MemoryTransaction) (i : Nat) : MemoryTransaction :=
  let address := (trace.address + .ofNat i * reqBytes.toUInt64).toUInt32
  let trans := generateTransaction recycled trace.type trace.src trace.dst address (.ofNat i)
    (transNum reqBytes trace) trace.layer ""
  let trans := {trans with head := i == 0}
  if trace.type = .write then {trans with last := i == (transNum reqBytes trace - 1).toNat} else trans

/-- The data is ready before it is read, and computed before it is written. -/
def waitDependency (computeDone : String → Bool) : List MemoryAct :=
  if trace.type = .read then [.waitSyncSignal trace.id trace.dst]
  else if computeDone trace.layer = false ∧ ¬ "RoPE_".toList <:+: trace.layer.toList then
    [.waitHostCompute trace.layer]
  else []

def waitResponses : List MemoryAct :=
  if trace.type = .read ∧ trace.src = .host then
    [.waitReadResponses (transNum reqBytes trace) trace.layer]
  else []

/-- `handle_memory_trace`, given which layers are computed and the payloads the manager hands out;
`none` where the code divides by zero. -/
def handleMemoryTrace (computeDone : String → Bool) (allocate : Nat → MemoryTransaction) :
    Option (List MemoryAct) :=
  if reqBytes = 0 then none
  else some <|
    waitDependency trace computeDone ++ [.updateStart trace.layer] ++
      ((List.range (transNum reqBytes trace).toNat).map fun i =>
        .push (memoryTransaction reqBytes trace (allocate i) i)) ++
      waitResponses reqBytes trace

/-- The transactions of a range, in the address space of 64 bits. -/
structure CoversTrace (sent : List MemoryTransaction) : Prop where
  count : sent.length = (trace.size.toNat + reqBytes.toNat - 1) / reqBytes.toNat
  placed : ∀ (i : Nat) (t : MemoryTransaction), sent[i]? = some t →
    t.address = trace.address + .ofNat (i * reqBytes.toNat)
  head : ∀ (i : Nat) (t : MemoryTransaction), sent[i]? = some t → (t.head = true ↔ i = 0)
  last : trace.type = .write →
    ∀ (i : Nat) (t : MemoryTransaction), sent[i]? = some t → (t.last = true ↔ i + 1 = sent.length)
  /-- No byte of the range is left out. -/
  whole : ∀ a < trace.size.toNat, ∃ t ∈ sent, ∃ b < reqBytes.toNat,
    t.address + .ofNat b = trace.address + .ofNat a

/-- The rounded sum and the last address fit 32 bits, and the request size is not zero. -/
def Fits : Prop :=
  0 < reqBytes.toNat ∧ trace.size.toNat + reqBytes.toNat ≤ 2 ^ 32 ∧
    trace.address.toNat + (trace.size.toNat - 1) / reqBytes.toNat * reqBytes.toNat < 2 ^ 32

section
variable {reqBytes} {trace} {computeDone : String → Bool} {allocate : Nat → MemoryTransaction}

theorem waitDependency_pushed : pushed (waitDependency trace computeDone) = [] := by
  unfold waitDependency
  split
  · rfl
  · split <;> rfl

theorem waitResponses_pushed : pushed (waitResponses reqBytes trace) = [] := by
  unfold waitResponses
  split <;> rfl

/-- The handler comes to its end, and what it has put on the queue. -/
theorem handleMemoryTrace_pushed (hreq : 0 < reqBytes.toNat) (trace : MemoryTrace)
    (computeDone : String → Bool) (allocate : Nat → MemoryTransaction) :
    ∃ acts, handleMemoryTrace reqBytes trace computeDone allocate = some acts ∧ pushed acts =
      (List.range (transNum reqBytes trace).toNat).map fun i =>
        memoryTransaction reqBytes trace (allocate i) i := by
  have hzero : reqBytes ≠ 0 := by
    rintro rfl
    exact absurd hreq (by decide)
  refine ⟨_, if_neg hzero, ?_⟩
  rw [pushed_append, pushed_append, pushed_append, waitDependency_pushed, waitResponses_pushed,
    List.append_nil]
  simp [pushed]

/-! ### One transaction -/

section
variable (recycled : MemoryTransaction) (i : Nat)

/-- The address loses its upper word. -/
theorem memoryTransaction_address : (memoryTransaction reqBytes trace recycled i).address.toNat =
    (trace.address.toNat + i * reqBytes.toNat) % 2 ^ 32 := by
  have hunfold : (memoryTransaction reqBytes trace recycled i).address =
      (trace.address + .ofNat i * reqBytes.toUInt64).toUInt32.toUInt64 := by
    unfold memoryTransaction
    split <;> rfl
  rw [hunfold, UInt32.toNat_toUInt64, UInt64.toNat_toUInt32, UInt64.toNat_add, UInt64.toNat_mul,
    UInt64.toNat_ofNat', UInt32.toNat_toUInt64, Nat.mod_mul_mod, Nat.add_mod_mod,
    Nat.mod_mod_of_dvd _ (by norm_num)]

/-- It is the one meant exactly if that has none. -/
theorem memoryTransaction_placed :
    (memoryTransaction reqBytes trace recycled i).address = trace.address + .ofNat (i * reqBytes.toNat) ↔
      (trace.address.toNat + i * reqBytes.toNat) % 2 ^ 64 < 2 ^ 32 := by
  rw [← UInt64.toNat_inj, memoryTransaction_address, UInt64.toNat_add, UInt64.toNat_ofNat',
    Nat.add_mod_mod]
  omega

theorem memoryTransaction_head : (memoryTransaction reqBytes trace recycled i).head = true ↔ i = 0 := by
  unfold memoryTransaction
  split <;> simp

theorem memoryTransaction_last (hwrite : trace.type = .write)
    (hlt : i < (transNum reqBytes trace).toNat) :
    (memoryTransaction reqBytes trace recycled i).last = true ↔
      i + 1 = (transNum reqBytes trace).toNat := by
  have hpred := Lib.toNat_pred (show 1 ≤ (transNum reqBytes trace).toNat by omega)
  simp only [memoryTransaction, if_pos hwrite, beq_iff_eq, hpred]
  omega

end

/-! ### The range -/

/-- The number of transactions, from the index of the last one. -/
theorem ceil_eq (hreq : 0 < reqBytes.toNat) (hsize : 0 < trace.size.toNat) :
    (trace.size.toNat + reqBytes.toNat - 1) / reqBytes.toNat =
      (trace.size.toNat - 1) / reqBytes.toNat + 1 := by
  rw [← Nat.add_div_right _ hreq]
  congr 1
  omega

theorem covers_of_fits (h : Fits reqBytes trace) (hsize : 0 < trace.size.toNat) :
    CoversTrace reqBytes trace ((List.range (transNum reqBytes trace).toNat).map fun i =>
      memoryTransaction reqBytes trace (allocate i) i) := by
  obtain ⟨hreq, hsum, haddress⟩ := h
  have hnum : (transNum reqBytes trace).toNat = (trace.size.toNat - 1) / reqBytes.toNat + 1 :=
    (Lib.toNat_ceilDiv hreq hsum).trans (ceil_eq hreq hsize)
  -- the i-th transaction
  have hat : ∀ (i : Nat) (t : MemoryTransaction),
      ((List.range (transNum reqBytes trace).toNat).map fun i =>
        memoryTransaction reqBytes trace (allocate i) i)[i]? = some t →
      i < (transNum reqBytes trace).toNat ∧ t = memoryTransaction reqBytes trace (allocate i) i := by
    intro i t ht
    rw [List.getElem?_map, Option.map_eq_some_iff] at ht
    obtain ⟨j, hj, rfl⟩ := ht
    obtain ⟨hlt, rfl⟩ := List.getElem?_eq_some_iff.mp hj
    simpa using hlt
  have hplaced : ∀ i < (transNum reqBytes trace).toNat,
      (memoryTransaction reqBytes trace (allocate i) i).address =
        trace.address + .ofNat (i * reqBytes.toNat) := by
    intro i hi
    have hle : i * reqBytes.toNat ≤ (trace.size.toNat - 1) / reqBytes.toNat * reqBytes.toNat :=
      Nat.mul_le_mul_right _ (by omega)
    rw [memoryTransaction_placed, Nat.mod_eq_of_lt (by omega)]
    omega
  refine ⟨?_, fun i t ht => ?_, fun i t ht => ?_, fun hwrite i t ht => ?_, fun a ha => ?_⟩
  · rw [List.length_map, List.length_range, hnum, ceil_eq hreq hsize]
  · obtain ⟨hi, rfl⟩ := hat i t ht
    exact hplaced i hi
  · obtain ⟨-, rfl⟩ := hat i t ht
    exact memoryTransaction_head _ _
  · obtain ⟨hi, rfl⟩ := hat i t ht
    rw [List.length_map, List.length_range]
    exact memoryTransaction_last _ _ hwrite hi
  · -- the byte is in the transaction its offset is divided into
    have hi : a / reqBytes.toNat < (transNum reqBytes trace).toNat := by
      rw [hnum, Nat.lt_succ_iff]
      exact Nat.div_le_div_right (by omega)
    refine ⟨memoryTransaction reqBytes trace (allocate (a / reqBytes.toNat)) (a / reqBytes.toNat),
      List.mem_map.mpr ⟨_, List.mem_range.mpr hi, rfl⟩, a % reqBytes.toNat, Nat.mod_lt _ hreq, ?_⟩
    rw [hplaced _ hi, UInt64.add_assoc, ← UInt64.ofNat_add, Nat.div_add_mod']

theorem fits_of_covers (hreq : 0 < reqBytes.toNat) (hsize : 0 < trace.size.toNat)
    (h : CoversTrace reqBytes trace ((List.range (transNum reqBytes trace).toNat).map fun i =>
      memoryTransaction reqBytes trace (allocate i) i)) : Fits reqBytes trace := by
  have hcount := h.count
  rw [List.length_map, List.length_range, ceil_eq hreq hsize] at hcount
  have hsum : trace.size.toNat + reqBytes.toNat ≤ 2 ^ 32 := by
    by_contra hover
    rw [transNum, Lib.ceilDiv_overflow (by omega), UInt32.toNat_zero] at hcount
    exact Nat.succ_ne_zero _ hcount.symm
  have hplaced : ∀ i < (transNum reqBytes trace).toNat,
      (trace.address.toNat + i * reqBytes.toNat) % 2 ^ 64 < 2 ^ 32 := by
    intro i hi
    rw [← memoryTransaction_placed (allocate i) i]
    exact h.placed i _ (by rw [List.getElem?_map, List.getElem?_range hi, Option.map_some])
  -- the first address has no upper word, so that no later sum wraps
  have hfirst := hplaced 0 (hcount ▸ Nat.succ_pos _)
  have hlast := hplaced ((trace.size.toNat - 1) / reqBytes.toNat) (hcount ▸ Nat.lt_succ_self _)
  have hoffset := Nat.div_mul_le_self (trace.size.toNat - 1) reqBytes.toNat
  have haddress := trace.address.toNat_lt
  exact ⟨hreq, hsum, by omega⟩

/-- **The transactions of a memory trace cover its range exactly when the request size is not zero and
the rounded sum and the last address fit 32 bits.** -/
theorem handleMemoryTrace_covers_iff (reqBytes : UInt32) (trace : MemoryTrace)
    (computeDone : String → Bool) (allocate : Nat → MemoryTransaction) (hsize : 0 < trace.size.toNat) :
    (∃ acts, handleMemoryTrace reqBytes trace computeDone allocate = some acts ∧
      CoversTrace reqBytes trace (pushed acts)) ↔ Fits reqBytes trace := by
  constructor
  · rintro ⟨acts, hacts, hcovers⟩
    have hreq : 0 < reqBytes.toNat := by
      rw [handleMemoryTrace, Option.ite_none_left_eq_some] at hacts
      exact Lib.toNat_pos hacts.1
    obtain ⟨acts', hacts', hpushed⟩ := handleMemoryTrace_pushed hreq trace computeDone allocate
    cases hacts.symm.trans hacts'
    rw [hpushed] at hcovers
    exact fits_of_covers hreq hsize hcovers
  · intro hfits
    obtain ⟨acts, hacts, hpushed⟩ := handleMemoryTrace_pushed hfits.1 trace computeDone allocate
    refine ⟨acts, hacts, ?_⟩
    rw [hpushed]
    exact covers_of_fits hfits hsize

/-- A range above 4 GiB, written by the host in two transactions. -/
def upperTrace : MemoryTrace where
  type := .write
  layer := "lm_head"
  id := 1
  src := .host
  dst := .dram
  size := 128
  address := 0x100000000

/-- A payload that has not been used. -/
def newTransaction (ptr : Nat) : MemoryTransaction where
  ptr := ptr
  command := .ignore
  srcId := .none
  dstId := .none

/-- The same range in the lower 4 GiB. -/
theorem handleMemoryTrace_covers_iff_lower :
    ∃ acts,
      handleMemoryTrace 64 {upperTrace with address := 0x1000} (fun _ => true) newTransaction = some acts ∧
      CoversTrace 64 {upperTrace with address := 0x1000} (pushed acts) :=
  (handleMemoryTrace_covers_iff 64 {upperTrace with address := 0x1000} (fun _ => true) newTransaction
    (by decide)).mpr ⟨by decide, by decide, by decide⟩

/-- The first transaction goes to address 0. -/
theorem handleMemoryTrace_upper :
    ¬ ∃ acts, handleMemoryTrace 64 upperTrace (fun _ => true) newTransaction = some acts ∧
      CoversTrace 64 upperTrace (pushed acts) := by
  rintro ⟨acts, hacts, hcovers⟩
  cases hacts
  exact absurd (hcovers.placed 0 _ rfl) (by decide)

end

end

end Hsim.Host
