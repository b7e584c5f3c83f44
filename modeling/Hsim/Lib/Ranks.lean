import Mathlib.Data.List.Basic

/-! Ranks in a sorted list.

How many elements of a sorted list are no greater than the one at a position, and
how many are less: with ties, the two counts lie on either side of the position. -/
namespace Hsim.Lib

variable {α : Type*} [LE α] [Std.IsLinearOrder α] {l : List α} {i : Nat}

/-- Up to a position, and with it, nothing is greater. -/
theorem le_of_mem_take (h : l.Pairwise (· ≤ ·)) (hi : i < l.length) : ∀ a ∈ l.take (i + 1), a ≤ l[i] := by
  intro a ha
  obtain ⟨j, hj, rfl⟩ := List.mem_take_iff_getElem.mp ha
  rcases Nat.lt_or_ge j i with hlt | hge
  · exact List.pairwise_iff_getElem.mp h j i (by omega) hi hlt
  · obtain rfl : j = i := by omega
    exact Std.le_refl _

/-- From a position on, nothing is less. -/
theorem le_of_mem_drop (h : l.Pairwise (· ≤ ·)) (hi : i < l.length) : ∀ a ∈ l.drop i, l[i] ≤ a := by
  intro a ha
  obtain ⟨j, hj, rfl⟩ := List.mem_drop_iff_getElem.mp ha
  rcases Nat.eq_zero_or_pos j with rfl | hpos
  · exact Std.le_refl _
  · exact List.pairwise_iff_getElem.mp h i (i + j) hi (by omega) (by omega)

theorem lt_countP_le [DecidableLE α] (h : l.Pairwise (· ≤ ·)) (hi : i < l.length) :
    i < l.countP (· ≤ l[i]) := by
  have hfront : (l.take (i + 1)).countP (· ≤ l[i]) = (l.take (i + 1)).length := by
    rw [List.countP_eq_length]
    exact fun a ha => decide_eq_true (le_of_mem_take h hi a ha)
  have hlength : (l.take (i + 1)).length = i + 1 := by
    rw [List.length_take]
    omega
  have hle : (l.take (i + 1)).countP (· ≤ l[i]) ≤ l.countP (· ≤ l[i]) := (List.take_sublist _ _).countP_le
  omega

theorem countP_lt_le [LT α] [DecidableLT α] [Std.LawfulOrderLT α] (h : l.Pairwise (· ≤ ·))
    (hi : i < l.length) : l.countP (· < l[i]) ≤ i := by
  have hback : (l.drop i).countP (· < l[i]) = 0 := by
    rw [List.countP_eq_zero]
    intro a ha
    rw [decide_eq_true_iff, Std.not_lt]
    exact le_of_mem_drop h hi a ha
  calc l.countP (· < l[i])
      = (l.take i).countP (· < l[i]) + (l.drop i).countP (· < l[i]) := by
        rw [← List.countP_append, List.take_append_drop]
    _ = (l.take i).countP (· < l[i]) := by rw [hback, Nat.add_zero]
    _ ≤ (l.take i).length := List.countP_le_length
    _ ≤ i := List.length_take_le ..

end Hsim.Lib
