import Mathlib.Data.List.Basic
import Mathlib.Logic.Function.Basic

/-! The reads and writes that a memory has been asked for, in their order.

A memory that takes them one at a time holds `contents` after them, and the read with
number `n` is owed `Answer`: what is there when the `n` requests before it are done. -/
namespace Hsim.Lib

/-- A read or a write. -/
inductive Request (α V : Type*) where
  | read (addr : α)
  | write (addr : α) (value : V)
  deriving DecidableEq, Repr

variable {α V : Type*}

/-- The numbers of the reads. -/
def readsOf (requests : List (Request α V)) : List Nat :=
  (List.range requests.length).filter fun n =>
    match requests[n]? with
    | some (.read _) => true
    | _ => false

theorem readsOf_snoc (requests : List (Request α V)) (r : Request α V) :
    readsOf (requests ++ [r]) = readsOf requests ++
      match r with
      | .read _ => [requests.length]
      | .write .. => [] := by
  unfold readsOf
  rw [List.length_append, List.length_singleton, List.range_succ, List.filter_append]
  congr 1
  · refine List.filter_congr fun n hn => ?_
    rw [List.getElem?_append_left (List.mem_range.mp hn)]
  · rw [List.filter_singleton, List.getElem?_append_right (Nat.le_refl _), Nat.sub_self]
    cases r <;> rfl

variable [DecidableEq α]

/-- What a memory holds after one request. -/
def Request.apply (cells : α → V) : Request α V → α → V
  | .read _ => cells
  | .write addr value => Function.update cells addr value

def contents (init : α → V) (requests : List (Request α V)) : α → V :=
  requests.foldl Request.apply init

@[simp] theorem contents_nil (init : α → V) : contents init [] = init := rfl

@[simp] theorem contents_snoc (init : α → V) (requests : List (Request α V)) (r : Request α V) :
    contents init (requests ++ [r]) = r.apply (contents init requests) := by
  simp [contents]

/-- The value that a read is owed. -/
structure Answer (init : α → V) (requests : List (Request α V)) (n : Nat) (addr : α) (value : V) : Prop where
  read : requests[n]? = some (.read addr)
  value : value = contents init (requests.take n) addr

namespace Answer
variable {init : α → V} {requests : List (Request α V)} {n : Nat} {addr : α} {value : V}

/-- Later requests do not change what a read is owed. -/
theorem snoc (h : Answer init requests n addr value) (r : Request α V) :
    Answer init (requests ++ [r]) n addr value := by
  have hn : n < requests.length := (List.getElem?_eq_some_iff.mp h.read).1
  refine ⟨?_, ?_⟩
  · rw [List.getElem?_append_left hn, h.read]
  · rw [List.take_append_of_le_length (Nat.le_of_lt hn), h.value]

/-- The read that comes last is owed what is there. -/
theorem last (init : α → V) (requests : List (Request α V)) (addr : α) :
    Answer init (requests ++ [.read addr]) requests.length addr (contents init requests addr) := by
  refine ⟨?_, ?_⟩
  · rw [List.getElem?_append_right (Nat.le_refl _), Nat.sub_self]
    rfl
  · rw [List.take_left]

end Answer

end Hsim.Lib
