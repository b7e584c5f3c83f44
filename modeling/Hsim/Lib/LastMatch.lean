import Mathlib.Data.List.Infix

/-! The last occurrence of a pattern.

`rfind` searches a text from its end. Where it finds the pattern is known from the
text itself when the pattern's first element occurs in it once: then the pattern is
found where it stands, unless it occurs again in what follows. -/
namespace Hsim.Lib

variable {α : Type*}

/-- The pattern begins at the position, and nowhere behind it. -/
structure LastMatch (pattern text : List α) (i : Nat) : Prop where
  here : pattern <+: text.drop i
  last : ∀ j, pattern <+: text.drop j → j ≤ i

theorem infix_iff_drop {pattern text : List α} : pattern <:+: text ↔ ∃ i, pattern <+: text.drop i := by
  rw [List.infix_iff_prefix_suffix]
  constructor
  · rintro ⟨rest, hprefix, hsuffix⟩
    exact ⟨_, List.suffix_iff_eq_drop.mp hsuffix ▸ hprefix⟩
  · rintro ⟨i, hprefix⟩
    exact ⟨_, hprefix, List.drop_suffix i text⟩

/-- A pattern does not begin in a text without its first element. -/
theorem prefix_drop_append {c : α} {p a b : List α} (hc : c ∉ a) {i : Nat}
    (h : c :: p <+: (a ++ b).drop i) : a.length ≤ i ∧ c :: p <+: b.drop (i - a.length) := by
  induction a generalizing i with
  | nil => exact ⟨Nat.zero_le i, h⟩
  | cons x a ih =>
    obtain ⟨hx, ha⟩ := List.ne_and_not_mem_of_not_mem_cons hc
    cases i with
    | zero => exact absurd (List.cons_prefix_cons.mp h).1 hx
    | succ i =>
      obtain ⟨hle, hmatch⟩ := ih ha h
      rw [List.length_cons, Nat.add_sub_add_right]
      exact ⟨Nat.succ_le_succ hle, hmatch⟩

theorem infix_append_iff {c : α} {p a b : List α} (hc : c ∉ a) :
    c :: p <:+: a ++ b ↔ c :: p <:+: b := by
  constructor
  · intro h
    obtain ⟨i, hi⟩ := infix_iff_drop.mp h
    exact infix_iff_drop.mpr ⟨_, (prefix_drop_append hc hi).2⟩
  · exact fun h => h.trans (List.suffix_append a b).isInfix

/-- An occurrence is the last if there is none in what follows. -/
theorem lastMatch_iff {c : α} {p front rest : List α} (hc : c ∉ p) :
    LastMatch (c :: p) (front ++ (c :: p ++ rest)) front.length ↔ ¬ c :: p <:+: rest := by
  constructor
  · intro h hinfix
    obtain ⟨i, hi⟩ := infix_iff_drop.mp hinfix
    have hle := h.last (front.length + ((c :: p).length + i)) (by
      rwa [List.drop_length_add_append, List.drop_length_add_append])
    simp only [List.length_cons] at hle
    omega
  · refine fun h => ⟨?_, fun j hj => ?_⟩
    · rw [List.drop_left]
      exact List.prefix_append _ _
    · by_contra hlt
      obtain ⟨d, rfl⟩ : ∃ d, j = front.length + (d + 1) := ⟨j - front.length - 1, by omega⟩
      rw [List.drop_length_add_append, List.cons_append, List.drop_succ_cons] at hj
      exact h (infix_iff_drop.mpr ⟨_, (prefix_drop_append hc hj).2⟩)

/-! ### The search -/

theorem lt_length_of_match {pattern text : List α} (hne : pattern ≠ []) {i : Nat}
    (h : pattern <+: text.drop i) : i < text.length := by
  have hlength := h.length_le
  have hpos := List.length_pos_iff.mpr hne
  rw [List.length_drop] at hlength
  omega

section
variable [DecidableEq α]

/-- The last match at the position or before it. -/
def rfindUpTo (pattern text : List α) : Nat → Option Nat
  | 0 => if pattern.isPrefixOf text then some 0 else none
  | i + 1 => if pattern.isPrefixOf (text.drop (i + 1)) then some (i + 1) else rfindUpTo pattern text i

/-- `text.rfind(pattern)`. -/
def rfind (pattern text : List α) : Option Nat := rfindUpTo pattern text text.length

theorem rfindUpTo_some {pattern text : List α} {n i : Nat} (h : rfindUpTo pattern text n = some i) :
    i ≤ n ∧ pattern <+: text.drop i ∧ ∀ j ≤ n, pattern <+: text.drop j → j ≤ i := by
  induction n with
  | zero =>
    obtain ⟨hmatch, hi⟩ := Option.ite_none_right_eq_some.mp h
    obtain rfl := Option.some_inj.mp hi
    exact ⟨le_rfl, List.isPrefixOf_iff_prefix.mp hmatch, fun j hj _ => hj⟩
  | succ n ih =>
    rw [rfindUpTo] at h
    split at h
    · next hmatch =>
      obtain rfl := Option.some_inj.mp h
      exact ⟨le_rfl, List.isPrefixOf_iff_prefix.mp hmatch, fun j hj _ => hj⟩
    · next hmatch =>
      obtain ⟨hle, hhere, hlast⟩ := ih h
      refine ⟨Nat.le_succ_of_le hle, hhere, fun j hj hmatch' => ?_⟩
      rcases Nat.le_succ_iff.mp hj with hj | rfl
      · exact hlast j hj hmatch'
      · exact absurd (List.isPrefixOf_iff_prefix.mpr hmatch') hmatch

theorem rfindUpTo_none {pattern text : List α} {n : Nat} (h : rfindUpTo pattern text n = none) :
    ∀ j ≤ n, ¬ pattern <+: text.drop j := by
  induction n with
  | zero =>
    intro j hj hmatch
    obtain rfl := Nat.le_zero.mp hj
    have hhere : pattern.isPrefixOf text = true := List.isPrefixOf_iff_prefix.mpr hmatch
    rw [rfindUpTo, if_pos hhere] at h
    cases h
  | succ n ih =>
    intro j hj hmatch
    rw [rfindUpTo] at h
    split at h
    · cases h
    · next hnone =>
      rcases Nat.le_succ_iff.mp hj with hj | rfl
      · exact ih h j hj hmatch
      · exact hnone (List.isPrefixOf_iff_prefix.mpr hmatch)

theorem rfind_eq_some_iff {pattern text : List α} (hne : pattern ≠ []) {i : Nat} :
    rfind pattern text = some i ↔ LastMatch pattern text i := by
  constructor
  · intro h
    obtain ⟨-, hhere, hlast⟩ := rfindUpTo_some h
    exact ⟨hhere, fun j hj => hlast j (lt_length_of_match hne hj).le hj⟩
  · intro h
    cases hfound : rfind pattern text with
    | none => exact absurd h.here (rfindUpTo_none hfound i (lt_length_of_match hne h.here).le)
    | some k =>
      obtain ⟨-, hhere, hlast⟩ := rfindUpTo_some hfound
      have hle := h.last k hhere
      have hge := hlast i (lt_length_of_match hne h.here).le h.here
      rw [le_antisymm hle hge]

end

end Hsim.Lib
