import Mathlib.Data.List.Nodup
import Mathlib.Logic.Function.Basic

/-! Doubly linked chains.

A heap holds nodes, each with the addresses of its two neighbours. A list of
addresses is a chain of the heap when every node there is has its place in the
list and its links are the addresses beside it (`Chain`). A cursor parts a chain
into the addresses before it and those after it; a node may be put in front of a
chain, and a value may be stored anywhere in it. -/
namespace Hsim.Lib

variable {κ α : Type*}

/-- A node. A link that is `none` is null. -/
structure Node (κ α : Type*) where
  value : α
  next : Option κ
  prev : Option κ

/-- The nodes by their addresses. -/
abbrev NodeHeap (κ α : Type*) := κ → Option (Node κ α)

namespace NodeHeap
variable [DecidableEq κ]

/-- Puts a node at an address. -/
def put (heap : NodeHeap κ α) (k : κ) (n : Node κ α) : NodeHeap κ α := Function.update heap k (some n)

/-- Writes a node through a pointer, `none` where it dangles. -/
def modify (heap : NodeHeap κ α) (k : κ) (f : Node κ α → Node κ α) : Option (NodeHeap κ α) :=
  (heap k).map fun n => heap.put k (f n)

@[simp] theorem put_same (heap : NodeHeap κ α) (k : κ) (n : Node κ α) : heap.put k n k = some n :=
  Function.update_self ..

theorem put_other (heap : NodeHeap κ α) {k j : κ} (n : Node κ α) (h : j ≠ k) : heap.put k n j = heap j :=
  Function.update_of_ne h ..

theorem modify_eq {heap : NodeHeap κ α} {k : κ} {n : Node κ α} (h : heap k = some n)
    (f : Node κ α → Node κ α) : heap.modify k f = some (heap.put k (f n)) := by
  rw [modify, h, Option.map_some]

/-- What the nodes of a list hold. -/
def values (heap : NodeHeap κ α) (nodes : List κ) : List (Option α) :=
  nodes.map fun k => (heap k).map Node.value

theorem values_put_other (heap : NodeHeap κ α) {k : κ} {nodes : List κ} (n : Node κ α) (h : k ∉ nodes) :
    (heap.put k n).values nodes = heap.values nodes := by
  refine List.map_congr_left fun j hj => ?_
  have hjk : j ≠ k := ne_of_mem_of_not_mem hj h
  rw [heap.put_other n hjk]

/-- A link is written and no value changes. -/
theorem values_put_link {heap : NodeHeap κ α} {k : κ} {n m : Node κ α} (h : heap k = some n)
    (hvalue : m.value = n.value) (nodes : List κ) : (heap.put k m).values nodes = heap.values nodes := by
  refine List.map_congr_left fun j _ => ?_
  by_cases hj : j = k
  · rw [hj, put_same, h, Option.map_some, Option.map_some, hvalue]
  · rw [heap.put_other m hj]

end NodeHeap

/-- The list's addresses are those of the heap's nodes, and the links of each are the addresses
beside its own. -/
structure Chain (heap : NodeHeap κ α) (nodes : List κ) : Prop where
  nodup : nodes.Nodup
  whole : ∀ k, (heap k).isSome ↔ k ∈ nodes
  linked : ∀ (before : List κ) (k : κ) (after : List κ), before ++ k :: after = nodes →
    ∃ a, heap k = some ⟨a, after.head?, before.getLast?⟩

namespace Chain
variable {heap : NodeHeap κ α} {nodes before after : List κ} {k : κ}

theorem empty : Chain (fun _ => none : NodeHeap κ α) [] :=
  ⟨List.nodup_nil, by simp, by simp⟩

/-- What stands after a cursor. -/
theorem node_after (h : Chain heap (before ++ k :: after)) :
    ∃ a, heap k = some ⟨a, after.head?, before.getLast?⟩ :=
  h.linked before k after rfl

/-- What stands before it. -/
theorem node_before (h : Chain heap (before ++ [k] ++ after)) :
    ∃ a, heap k = some ⟨a, after.head?, before.getLast?⟩ :=
  h.linked before k after (by simp)

theorem not_mem_of_none (h : Chain heap nodes) (hk : heap k = none) : k ∉ nodes := by
  rw [← h.whole, hk]
  simp

variable [DecidableEq κ]

/-- A value is stored and no link changes. -/
theorem store (h : Chain heap nodes) {n : Node κ α} (hk : heap k = some n) (a : α) :
    Chain (heap.put k {n with value := a}) nodes := by
  refine ⟨h.nodup, ?_, ?_⟩
  · intro j
    by_cases hj : j = k
    · subst hj
      simp [← h.whole, hk]
    · rw [heap.put_other _ hj, h.whole]
  · intro before j after hnodes
    obtain ⟨b, hb⟩ := h.linked before j after hnodes
    by_cases hj : j = k
    · subst hj
      cases hk.symm.trans hb
      exact ⟨a, heap.put_same ..⟩
    · exact ⟨b, by rw [heap.put_other _ hj, hb]⟩

/-- The first node of all. -/
theorem pushFirst (h : Chain heap []) (k : κ) (a : α) : Chain (heap.put k ⟨a, none, none⟩) [k] := by
  refine ⟨List.nodup_singleton k, ?_, ?_⟩
  · intro j
    by_cases hj : j = k
    · simp [hj]
    · simp [heap.put_other _ hj, h.whole, hj]
  · intro before j after hnodes
    cases before with
    | nil =>
      cases hnodes
      exact ⟨a, heap.put_same ..⟩
    | cons b before =>
      have hlength := congrArg List.length hnodes
      simp at hlength

/-- A new node goes to the front, and the one that was there links back to it. -/
theorem pushFront {j : κ} {n : Node κ α} (h : Chain heap (j :: after)) (hk : heap k = none)
    (hj : heap j = some n) (a : α) :
    Chain ((heap.put k ⟨a, some j, none⟩).put j {n with prev := some k}) (k :: j :: after) := by
  have hnew := h.not_mem_of_none hk
  have hjk : k ≠ j := (ne_of_mem_of_not_mem List.mem_cons_self hnew).symm
  refine ⟨List.nodup_cons.mpr ⟨hnew, h.nodup⟩, ?_, ?_⟩
  · intro i
    rw [List.mem_cons, ← h.whole]
    by_cases hij : i = j
    · subst hij
      simp [hj]
    · rw [NodeHeap.put_other _ _ hij]
      by_cases hik : i = k
      · simp [hik]
      · simp [NodeHeap.put_other _ _ hik, hik]
  · intro before i rest hnodes
    -- the new node comes first, the old first node second, and no other has a new neighbour
    match before with
    | [] =>
      cases hnodes
      exact ⟨a, by rw [NodeHeap.put_other _ _ hjk, NodeHeap.put_same]; rfl⟩
    | [b] =>
      obtain ⟨c, hc⟩ := h.linked [] j after rfl
      cases hnodes
      cases hj.symm.trans hc
      exact ⟨c, NodeHeap.put_same ..⟩
    | b :: d :: before =>
      simp only [List.cons_append, List.cons.injEq] at hnodes
      obtain ⟨rfl, rfl, rfl⟩ := hnodes
      obtain ⟨c, hc⟩ := h.linked (d :: before) i rest rfl
      have hid : i ≠ d := by
        rintro rfl
        exact (List.nodup_cons.mp h.nodup).1 (by simp)
      have hib : i ≠ b := by
        rintro rfl
        exact hnew (by simp)
      exact ⟨c, by rw [NodeHeap.put_other _ _ hid, NodeHeap.put_other _ _ hib, hc]; simp⟩

end Chain

end Hsim.Lib
