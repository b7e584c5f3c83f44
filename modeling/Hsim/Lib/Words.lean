import Mathlib.Algebra.BigOperators.Group.List.Basic
import Mathlib.Algebra.GroupWithZero.Nat
import Mathlib.Data.UInt
import Mathlib.Order.Lattice

/-! Machine words as natural numbers.

What a counter, a minimum, a product or a sum of words is over the integers, for
the operations whose `toNat` the core library does not give. -/
namespace Hsim.Lib

theorem toNat_pos {n : UInt32} (h : n ≠ 0) : 0 < n.toNat :=
  Nat.pos_of_ne_zero fun hzero => h (UInt32.toNat_inj.mp hzero)

/-- A counter that is not zero counts down. -/
theorem toNat_pred {n : UInt32} (h : 1 ≤ n.toNat) : (n - 1).toNat = n.toNat - 1 := by
  have hone : 1 ≤ n := UInt32.le_iff_toNat_le.mpr h
  rw [UInt32.toNat_sub_of_le _ _ hone]
  rfl

theorem toNat_min (a b : UInt32) : (min a b).toNat = min a.toNat b.toNat := by
  show (if a ≤ b then a else b).toNat = _
  split
  · next h => rw [min_eq_left (UInt32.le_iff_toNat_le.mp h)]
  · next h => rw [min_eq_right (Nat.le_of_not_le (mt UInt32.le_iff_toNat_le.mpr h))]

theorem toNat_max (a b : UInt32) : (max a b).toNat = max a.toNat b.toNat := by
  show (if a ≤ b then b else a).toNat = _
  split
  · next h => rw [max_eq_right (UInt32.le_iff_toNat_le.mp h)]
  · next h => rw [max_eq_left (Nat.le_of_not_le (mt UInt32.le_iff_toNat_le.mpr h))]

/-- A product is exact where it fits. -/
theorem toNat_mul_iff (a b : UInt32) : (a * b).toNat = a.toNat * b.toNat ↔ a.toNat * b.toNat < 2 ^ 32 := by
  rw [UInt32.toNat_mul]
  exact ⟨fun h => h ▸ Nat.mod_lt _ (by decide), Nat.mod_eq_of_lt⟩

/-- A quotient that is rounded up is exact where the sum fits, -/
theorem toNat_ceilDiv {n d : UInt32} (hd : 0 < d.toNat) (h : n.toNat + d.toNat ≤ 2 ^ 32) :
    ((n + d - 1) / d).toNat = (n.toNat + d.toNat - 1) / d.toNat := by
  have hone : (1 : UInt32).toNat = 1 := rfl
  rw [UInt32.toNat_div, UInt32.toNat_sub, UInt32.toNat_add]
  congr 1
  omega

/-- and zero where it does not. -/
theorem ceilDiv_overflow {n d : UInt32} (h : 2 ^ 32 < n.toNat + d.toNat) : (n + d - 1) / d = 0 := by
  have hn := n.toNat_lt
  have hd := d.toNat_lt
  have hone : (1 : UInt32).toNat = 1 := rfl
  apply UInt32.toNat_inj.mp
  rw [UInt32.toNat_div, UInt32.toNat_sub, UInt32.toNat_add, UInt32.toNat_zero, Nat.div_eq_zero_iff]
  omega

/-- A sum wraps once, however many terms it has. -/
theorem toNat_sum (words : List UInt64) : words.sum.toNat = (words.map UInt64.toNat).sum % 2 ^ 64 := by
  induction words with
  | nil => rfl
  | cons word words ih =>
    rw [List.sum_cons, List.map_cons, List.sum_cons, UInt64.toNat_add, ih, Nat.add_mod_mod]

/-- At most 2^32 words of 32 bits add up in 64 bits. -/
theorem sum_words_lt {words : List UInt32} (h : words.length ≤ 2 ^ 32) :
    (words.map UInt32.toNat).sum < 2 ^ 64 := by
  have hle : (words.map UInt32.toNat).sum ≤ words.length * (2 ^ 32 - 1) := by
    clear h
    induction words with
    | nil => simp
    | cons word words ih =>
      have hword := word.toNat_lt
      rw [List.map_cons, List.sum_cons, List.length_cons]
      omega
  omega

/-- A word that is the value of an integer in its range. -/
theorem toNat_ofInt {n : Int} (hnonneg : 0 ≤ n) (hlt : n < 2 ^ 64) :
    ((UInt64.ofInt n).toNat : Int) = n := by
  rw [UInt64.ofInt, UInt64.toNat_ofNat']
  omega

/-- Below 2^63 the sign of a word is not changed by a cast. -/
theorem toInt_toInt64 {n : UInt64} (h : n.toNat < 2 ^ 63) : n.toInt64.toInt = n.toNat := by
  show n.toBitVec.toInt = _
  rw [BitVec.toInt_eq_toNat_of_lt]
  · rfl
  · show 2 * n.toNat < _
    omega

end Hsim.Lib
