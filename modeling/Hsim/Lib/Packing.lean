import Mathlib.Algebra.BigOperators.Group.List.Basic
import Mathlib.Algebra.Order.Group.Nat
import Mathlib.Data.Nat.ModEq
import Mathlib.Tactic.Ring

/-! Fields packed into one number, the lowest first.

Each key has a width in bits and starts where the keys before it end. Reading the
fields of a number and packing values into one are inverse to each other, below
the power of two that all widths together span. -/
namespace Hsim.Lib.Packing

variable {κ : Type*} [DecidableEq κ] (width : κ → Nat)

/-- The bits of all keys. -/
def span (keys : List κ) : Nat := (keys.map width).sum

/-- Where a key starts. -/
def offset : List κ → κ → Nat
  | [], _ => 0
  | k :: rest, j => if j = k then 0 else width k + offset rest j

/-- The field of a number. -/
def field (keys : List κ) (x : Nat) (j : κ) : Nat := x / 2 ^ offset width keys j % 2 ^ width j

def pack (value : κ → Nat) : List κ → Nat
  | [] => 0
  | k :: rest => value k + 2 ^ width k * pack value rest

variable {width} {k j : κ} {keys rest : List κ} {value : κ → Nat} {x y : Nat}

theorem field_head (x : Nat) : field width (k :: rest) x k = x % 2 ^ width k := by
  simp [field, offset]

theorem field_tail (h : j ≠ k) (x : Nat) :
    field width (k :: rest) x j = field width rest (x / 2 ^ width k) j := by
  rw [field, offset, if_neg h, field, Nat.div_div_eq_div_mul, Nat.pow_add]

theorem field_lt (keys : List κ) (x : Nat) (j : κ) : field width keys x j < 2 ^ width j :=
  Nat.mod_lt _ (Nat.two_pow_pos _)

omit [DecidableEq κ] in
theorem pack_lt (h : ∀ k ∈ keys, value k < 2 ^ width k) : pack width value keys < 2 ^ span width keys := by
  induction keys with
  | nil => simp [pack, span]
  | cons k rest ih =>
    obtain ⟨hk, hrest⟩ := List.forall_mem_cons.mp h
    have hlt := ih hrest
    have hspan : span width (k :: rest) = width k + span width rest := by simp [span]
    rw [pack, hspan, Nat.pow_add]
    calc value k + 2 ^ width k * pack width value rest
        < 2 ^ width k + 2 ^ width k * pack width value rest := Nat.add_lt_add_right hk _
      _ = 2 ^ width k * (pack width value rest + 1) := by ring
      _ ≤ 2 ^ width k * 2 ^ span width rest := Nat.mul_le_mul_left _ hlt

/-- A packed value is read back. -/
theorem field_pack (hkeys : keys.Nodup) (h : ∀ k ∈ keys, value k < 2 ^ width k) (hj : j ∈ keys) :
    field width keys (pack width value keys) j = value j := by
  induction keys with
  | nil => cases hj
  | cons k rest ih =>
    obtain ⟨hk, hrest⟩ := List.forall_mem_cons.mp h
    obtain ⟨hnot, hnodup⟩ := List.nodup_cons.mp hkeys
    have hpos := Nat.two_pow_pos (width k)
    rcases List.mem_cons.mp hj with rfl | hj
    · rw [field_head, pack, Nat.add_mul_mod_self_left, Nat.mod_eq_of_lt hk]
    · have hne : j ≠ k := fun heq => hnot (heq ▸ hj)
      rw [field_tail hne, pack, Nat.add_mul_div_left _ _ hpos, Nat.div_eq_of_lt hk, Nat.zero_add]
      exact ih hnodup hrest hj

/-- The fields are all of a number. -/
theorem eq_of_fields (hx : x < 2 ^ span width keys) (hy : y < 2 ^ span width keys) (hkeys : keys.Nodup)
    (h : ∀ j ∈ keys, field width keys x j = field width keys y j) : x = y := by
  induction keys generalizing x y with
  | nil => simp [span] at hx hy; omega
  | cons k rest ih =>
    obtain ⟨hnot, hnodup⟩ := List.nodup_cons.mp hkeys
    have hspan : span width (k :: rest) = width k + span width rest := by simp [span]
    rw [hspan, Nat.pow_add] at hx hy
    have hlow := h k List.mem_cons_self
    rw [field_head, field_head] at hlow
    have hhigh : x / 2 ^ width k = y / 2 ^ width k := by
      refine ih (Nat.div_lt_of_lt_mul hx) (Nat.div_lt_of_lt_mul hy) hnodup fun j hj => ?_
      have hne : j ≠ k := fun heq => hnot (heq ▸ hj)
      rw [← field_tail hne, ← field_tail hne]
      exact h j (List.mem_cons_of_mem k hj)
    rw [← Nat.div_add_mod x (2 ^ width k), hhigh, hlow, Nat.div_add_mod]

end Hsim.Lib.Packing
