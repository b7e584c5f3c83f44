import Hsim.BridgeAddresses

/-! Callbacks for repeated addresses.

The memory system calls back once for each transaction it has taken, and the
table under an address is meant as a queue: a callback completes the oldest entry.
The scan erases an entry and goes on behind the next one, so it completes one
transaction where the other entries of the address are out of its sight: at most
one of them, directly behind the oldest. -/
namespace Hsim.Bridge

/-- `m_readDone` or `m_writeDone`. -/
def table (b : State) (write : Bool) : List (UInt64 × Payload) :=
  if write then b.writeDone else b.readDone

/-- The transactions a table has under an address, the oldest first. -/
def waiting (addr : UInt64) (l : List (UInt64 × Payload)) : List Payload :=
  (l.filter (·.1 = addr)).map (·.2)

/-- A table without the `k` oldest entries of an address, the others in place. -/
def withoutOldest (addr : UInt64) : Nat → List (UInt64 × Payload) → List (UInt64 × Payload)
  | 0, l => l
  | k + 1, l => withoutOldest addr k (l.eraseP (·.1 = addr))

/-- The bridge after transactions left one of its tables for the outgoing queue. -/
def moved (b : State) (write : Bool) (out : List Payload) (kept : List (UInt64 × Payload)) : State :=
  if write then {b with outgoingQueue := b.outgoingQueue ++ out, writeDone := kept}
  else {b with outgoingQueue := b.outgoingQueue ++ out, readDone := kept}

/-- `WriteCallBack` or `ReadCallBack`. -/
def call (b : State) (write : Bool) (addr : UInt64) : State :=
  if write then writeCallBack b addr else readCallBack b addr

/-- One callback completes one transaction, the oldest of its address. -/
structure OneEach (b : State) (write : Bool) (addr : UInt64) : Prop where
  one : addr ∈ (table b write).map (·.1) → ∃ front t back,
    table b write = front ++ (addr, t) :: back ∧ addr ∉ front.map (·.1) ∧
      call b write addr = moved b write [t] (front ++ back)
  /-- So do `k` callbacks in a row, with the `k` oldest. -/
  inRow : ∀ k, callBacks b (List.replicate k (write, addr)) =
    moved b write ((waiting addr (table b write)).take k)
      (withoutOldest addr k (table b write))
  /-- And among the callbacks for other addresses. -/
  among : ∀ calls, waiting addr (table (callBacks b calls) write) =
    (waiting addr (table b write)).drop (calls.count (write, addr))

/-- Behind the oldest entry of the address only the next one may have it too. -/
def Adjacent (addr : UInt64) (l : List (UInt64 × Payload)) : Prop :=
  addr ∉ ((l.dropWhile (·.1 ≠ addr)).drop 2).map (·.1)

/-! ### The scan -/

section
variable {addr : UInt64} {l : List (UInt64 × Payload)}

theorem adjacent_cons_self {e : UInt64 × Payload} (he : e.1 = addr) :
    Adjacent addr (e :: l) ↔ addr ∉ l.tail.map (·.1) := by
  rw [Adjacent, List.dropWhile_cons_of_neg (by simpa using he), ← List.drop_one]
  rfl

theorem adjacent_cons_other {e : UInt64 × Payload} (he : e.1 ≠ addr) :
    Adjacent addr (e :: l) ↔ Adjacent addr l := by
  rw [Adjacent, List.dropWhile_cons_of_pos (by simpa using he), Adjacent]

theorem adjacent_of_absent (h : addr ∉ l.map (·.1)) : Adjacent addr l := fun hmem =>
  h (((List.drop_sublist _ _).trans (List.dropWhile_sublist _)).map _ |>.subset hmem)

/-- What is taken out of a table leaves the rest adjacent. -/
theorem Adjacent.sublist {l' : List (UInt64 × Payload)} (hsub : l'.Sublist l)
    (h : Adjacent addr l) : Adjacent addr l' := by
  induction hsub with
  | slnil => exact h
  | @cons l' l e hsub ih =>
    by_cases he : e.1 = addr
    · rw [adjacent_cons_self he] at h
      refine ih ?_
      cases l with
      | nil => exact adjacent_of_absent (by simp)
      | cons f rest =>
        by_cases hf : f.1 = addr
        · rw [adjacent_cons_self hf]
          exact fun hmem => h ((rest.tail_sublist.map _).subset hmem)
        · rw [adjacent_cons_other hf]
          exact adjacent_of_absent h
    · exact ih ((adjacent_cons_other he).mp h)
  | @cons_cons l' l e hsub ih =>
    by_cases he : e.1 = addr
    · rw [adjacent_cons_self he] at h ⊢
      exact fun hmem => h ((hsub.tail.map _).subset hmem)
    · rw [adjacent_cons_other he] at h ⊢
      exact ih h

/-- The scan that sees one entry of its address at most takes the oldest. -/
theorem callBack_adjacent (h : Adjacent addr l) :
    callBack addr l = ((waiting addr l).take 1, l.eraseP (·.1 = addr)) := by
  induction l using callBack.induct addr with
  | case1 => rfl
  | case2 e he => simp [callBack, waiting, he]
  | case3 e he skipped rest _ _ _ ih =>
    have habsent : addr ∉ rest.map (·.1) := (adjacent_cons_self he).mp h
    have hnone : ∀ f ∈ rest, ¬f.1 = addr := fun f hf hfa => habsent (hfa ▸ List.mem_map_of_mem hf)
    have hrest : callBack addr rest = ([], rest) := by
      rw [ih (adjacent_of_absent habsent), List.eraseP_of_forall_not (by simpa using hnone),
        waiting, List.filter_eq_nil_iff.mpr (by simpa using hnone)]
      rfl
    simp [callBack, waiting, he, hrest]
  | case4 e rest he _ _ _ ih =>
    simp [callBack_other he, he, ih ((adjacent_cons_other he).mp h), waiting]

/-- A scan takes something as soon as there is an entry of its address. -/
theorem absent_of_callBack (h : (callBack addr l).1 = []) : addr ∉ l.map (·.1) := by
  induction l using callBack.induct addr with
  | case1 => simp
  | case2 e he => simp [callBack, he] at h
  | case3 e he skipped rest _ _ _ ih => simp [callBack, he] at h
  | case4 e rest he _ _ _ ih =>
    rw [callBack_other he] at h
    rw [List.map_cons, List.mem_cons, not_or]
    exact ⟨Ne.symm he, ih h⟩

/-- The scan that takes one transaction at most has seen no other. -/
theorem adjacent_of_callBack (h : (callBack addr l).1.length ≤ 1) : Adjacent addr l := by
  induction l using callBack.induct addr with
  | case1 => exact adjacent_of_absent (by simp)
  | case2 e he => exact (adjacent_cons_self he).mpr (by simp)
  | case3 e he skipped rest _ _ _ ih =>
    simp only [callBack, he, if_true, List.length_cons, Nat.reduceLeDiff, Nat.le_zero_eq,
      List.length_eq_zero_iff] at h
    rw [adjacent_cons_self he]
    exact absent_of_callBack h
  | case4 e rest he _ _ _ ih =>
    rw [callBack_other he] at h
    exact (adjacent_cons_other he).mpr (ih h)

/-- A callback for another address leaves the address's transactions where they are. -/
theorem waiting_callBack_other {other : UInt64} (h : other ≠ addr) :
    waiting addr (callBack other l).2 = waiting addr l := by
  induction l using callBack.induct other with
  | case1 => rfl
  | case2 e he => simp [callBack, waiting, he, h]
  | case3 e he skipped rest _ _ _ ih =>
    rw [waiting, waiting] at ih
    by_cases hs : skipped.1 = addr <;> simp [callBack, waiting, he, h, hs, ih]
  | case4 e rest he _ _ _ ih =>
    rw [waiting, waiting] at ih
    by_cases hs : e.1 = addr <;> simp [callBack_other he, waiting, hs, ih]

theorem waiting_eraseP : waiting addr (l.eraseP (·.1 = addr)) = (waiting addr l).drop 1 := by
  induction l with
  | nil => rfl
  | cons e rest ih =>
    by_cases he : e.1 = addr
    · simp [waiting, he]
    · rw [List.eraseP_cons_of_neg (by simpa using he)]
      simpa [waiting, he] using ih

/-- An entry of a table that is the oldest of its address. -/
theorem exists_oldest (h : addr ∈ l.map (·.1)) : ∃ front t back,
    l = front ++ (addr, t) :: back ∧ addr ∉ front.map (·.1) ∧
      (waiting addr l).take 1 = [t] ∧ l.eraseP (·.1 = addr) = front ++ back := by
  obtain ⟨e, he, hkey⟩ := List.mem_map.mp h
  obtain ⟨e, front, back, hfront, hkey, hl, herase⟩ :=
    List.exists_of_eraseP (p := (·.1 = addr)) he (by simpa using hkey)
  obtain ⟨key, t⟩ := e
  obtain rfl : key = addr := by simpa using hkey
  have hnone : ∀ f ∈ front, ¬f.1 = key := by simpa using hfront
  refine ⟨front, t, back, hl, ?_, ?_, herase⟩
  · rintro hmem
    obtain ⟨f, hf, hfa⟩ := List.mem_map.mp hmem
    exact hnone f hf hfa
  · rw [hl, waiting, List.filter_append, List.filter_eq_nil_iff.mpr (by simpa using hnone)]
    simp

end

/-! ### Callbacks of a bridge -/

section
variable {b : State} {write : Bool} {addr : UInt64}

theorem call_eq : call b write addr =
    moved b write (callBack addr (table b write)).1 (callBack addr (table b write)).2 := by
  cases write <;> rfl

@[simp] theorem table_moved (out : List Payload) (kept : List (UInt64 × Payload)) :
    table (moved b write out kept) write = kept := by
  cases write <;> rfl

theorem table_moved_other {other : Bool} (h : other ≠ write) (out : List Payload)
    (kept : List (UInt64 × Payload)) : table (moved b other out kept) write = table b write := by
  cases write <;> cases other <;> first | rfl | exact absurd rfl h

theorem moved_moved (out out' : List Payload) (kept kept' : List (UInt64 × Payload)) :
    moved (moved b write out kept) write out' kept' = moved b write (out ++ out') kept' := by
  cases write <;> simp [moved]

theorem moved_nothing : moved b write [] (table b write) = b := by
  cases write <;> simp [moved, table]

theorem callBacks_cons (c : Bool × UInt64) (calls : List (Bool × UInt64)) :
    callBacks b (c :: calls) = callBacks (call b c.1 c.2) calls := rfl

/-- A callback leaves the entries of another table or address alone. -/
theorem waiting_call_other {c : Bool × UInt64} (h : c ≠ (write, addr)) :
    waiting addr (table (call b c.1 c.2) write) = waiting addr (table b write) := by
  obtain ⟨other, key⟩ := c
  rw [call_eq]
  by_cases hwrite : other = write
  · subst hwrite
    rw [table_moved]
    exact waiting_callBack_other fun hkey => h (Prod.ext rfl hkey)
  · rw [table_moved_other hwrite]

theorem table_call_sublist (c : Bool × UInt64) :
    (table (call b c.1 c.2) write).Sublist (table b write) := by
  rw [call_eq]
  by_cases hwrite : c.1 = write
  · rw [hwrite, table_moved]
    exact callBack_sublist _ _
  · rw [table_moved_other hwrite]

theorem call_adjacent (h : Adjacent addr (table b write)) : call b write addr =
    moved b write ((waiting addr (table b write)).take 1)
      ((table b write).eraseP (·.1 = addr)) := by
  rw [call_eq, callBack_adjacent h]

theorem inRow_of_adjacent (h : Adjacent addr (table b write)) (k : Nat) :
    callBacks b (List.replicate k (write, addr)) =
      moved b write ((waiting addr (table b write)).take k)
        (withoutOldest addr k (table b write)) := by
  induction k generalizing b with
  | zero => exact moved_nothing.symm
  | succ k ih =>
    have hnext := h.sublist (table_call_sublist (write, addr))
    rw [List.replicate_succ, callBacks_cons, ih hnext, call_adjacent h, table_moved, moved_moved,
      waiting_eraseP, withoutOldest, Nat.add_comm k 1, List.take_add]

theorem among_of_adjacent (h : Adjacent addr (table b write)) (calls : List (Bool × UInt64)) :
    waiting addr (table (callBacks b calls) write) =
      (waiting addr (table b write)).drop (calls.count (write, addr)) := by
  induction calls generalizing b with
  | nil => rfl
  | cons c calls ih =>
    rw [callBacks_cons, ih (h.sublist (table_call_sublist c))]
    by_cases hc : c = (write, addr)
    · subst hc
      rw [call_adjacent h, table_moved, waiting_eraseP, List.drop_drop, List.count_cons_self,
        Nat.add_comm]
    · rw [waiting_call_other hc, List.count_cons_of_ne hc]

theorem oneEach_of_adjacent (h : Adjacent addr (table b write)) : OneEach b write addr where
  one hmem := by
    obtain ⟨front, t, back, hl, hfront, hout, hkept⟩ := exists_oldest hmem
    exact ⟨front, t, back, hl, hfront, by rw [call_adjacent h, hout, hkept]⟩
  inRow := inRow_of_adjacent h
  among := among_of_adjacent h

theorem OneEach.adjacent (h : OneEach b write addr) : Adjacent addr (table b write) := by
  by_cases hmem : addr ∈ (table b write).map (·.1)
  · obtain ⟨front, t, back, -, -, hcall⟩ := h.one hmem
    have hout : (callBack addr (table b write)).1 = [t] := by
      have hqueue := congrArg State.outgoingQueue (call_eq.symm.trans hcall)
      cases write <;> simpa [moved] using hqueue
    exact adjacent_of_callBack (by simp [hout])
  · exact adjacent_of_absent hmem

end

theorem oneEach_iff (b : State) (write : Bool) (addr : UInt64) :
    OneEach b write addr ↔ Adjacent addr (table b write) :=
  ⟨OneEach.adjacent, oneEach_of_adjacent⟩

/-- **One callback completes one transaction exactly where the scan sees one.** For every
content of the tables and every address: the callback takes the oldest transaction of the
address and nothing else, alone, in a row or among others, if and only if no entry with
the address stands behind the one that follows the oldest. -/
theorem one_each_iff (b : State) (addr : UInt64) :
    (OneEach b false addr ↔ Adjacent addr b.readDone) ∧
      (OneEach b true addr ↔ Adjacent addr b.writeDone) :=
  ⟨oneEach_iff b false addr, oneEach_iff b true addr⟩

/-- A read of the NPU. -/
def readOf (ptr : Nat) (address : UInt64) : Payload :=
  {ptr := ptr, command := .read, address := address, srcId := .npu, dstId := .dram}

/-- Two reads of one address, and a read of another between them. -/
def readsApart : State where
  readDone := [(64, readOf 1 64), (128, readOf 2 128), (64, readOf 3 64)]

/-- The first callback completes both reads, and the second none. -/
theorem reads_apart_complete_together :
    ((readCallBack readsApart 64).outgoingQueue = [readOf 1 64, readOf 3 64] ∧
      readCallBack (readCallBack readsApart 64) 64 = readCallBack readsApart 64) ∧
      ¬OneEach readsApart false 64 := by
  refine ⟨⟨rfl, rfl⟩, ?_⟩
  rintro ⟨hone, -, -⟩
  obtain ⟨front, t, back, -, -, hcall⟩ := hone (by decide)
  have hlength : 2 = 1 := congrArg (·.outgoingQueue.length) hcall
  exact absurd hlength (by decide)

end Hsim.Bridge
