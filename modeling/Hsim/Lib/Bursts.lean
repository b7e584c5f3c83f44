import Mathlib.Data.List.Basic
import Mathlib.Data.List.Count
import Mathlib.Data.List.Induction
import Mathlib.Tactic.TypeStar

/-! Bursts that share a counter.

The elements of several bursts complete one at a time, and each burst has a size.
One counter, kept modulo `w`, goes up with every element; when it is the size of the
burst whose element has just completed, it is reset and the burst is taken to be
complete. It tells the truth (`Tells`) if every burst is complete before an element
of another follows (`Unmixed`), and, where all bursts are complete, only then. -/
namespace Hsim.Lib.Bursts

variable {α : Type*} {w : Nat} {size : α → Nat} {l p : List α} {a b : α}

/-- A list that ends with an element, at one of its elements. -/
theorem split_append_singleton {rest : List α} (h : p ++ a :: rest = l ++ [b]) :
    (p = l ∧ a = b ∧ rest = []) ∨ ∃ rest', rest = rest' ++ [b] ∧ p ++ a :: rest' = l := by
  rcases List.eq_nil_or_concat' rest with rfl | ⟨rest', c, rfl⟩
  · obtain ⟨hp, hab⟩ := List.append_inj' h rfl
    exact .inl ⟨hp, by simpa using hab, rfl⟩
  · have h' : (p ++ a :: rest') ++ [c] = l ++ [b] := by simpa using h
    obtain ⟨hp, hcb⟩ := List.append_inj' h' rfl
    obtain rfl : c = b := by simpa using hcb
    exact .inr ⟨rest', rfl, hp⟩

section
variable (w : Nat) (size : α → Nat)

/-- The counter after an element. -/
def next (n : Nat) (a : α) : Nat := if (n + 1) % w = size a then 0 else (n + 1) % w

/-- The counter after all of them. -/
def counter (l : List α) : Nat := l.foldl (next w size) 0

theorem counter_append_singleton (l : List α) (b : α) :
    counter w size (l ++ [b]) = next w size (counter w size l) b := by
  rw [counter, List.foldl_append]
  rfl

variable [DecidableEq α]

/-- The counter is a burst's size at the last of the burst's elements, and at no other. -/
def Tells (l : List α) : Prop :=
  ∀ (p : List α) (a : α) (rest : List α), p ++ a :: rest = l →
    ((counter w size p + 1) % w = size a ↔ p.count a + 1 = size a)

/-- A burst is complete when an element of another follows. -/
def Unmixed (l : List α) : Prop :=
  ∀ (p : List α) (a b : α) (rest : List α), p ++ a :: b :: rest = l →
    b = a ∨ (p ++ [a]).count a = size a

end

variable [DecidableEq α]

theorem tells_nil : Tells w size [] := by
  intro p a rest h
  simp at h

theorem Tells.append_singleton (h : Tells w size l)
    (hb : (counter w size l + 1) % w = size b ↔ l.count b + 1 = size b) : Tells w size (l ++ [b]) := by
  intro p a rest hp
  rcases split_append_singleton hp with ⟨rfl, rfl, -⟩ | ⟨rest', -, hp'⟩
  · exact hb
  · exact h p a rest' hp'

theorem unmixed_nil : Unmixed size ([] : List α) := by
  intro p a b rest h
  simp at h

theorem unmixed_append_singleton : Unmixed size (l ++ [b]) ↔
    Unmixed size l ∧ ∀ a, l.getLast? = some a → b = a ∨ l.count a = size a := by
  constructor
  · intro h
    refine ⟨fun p a c rest hp => h p a c (rest ++ [b]) (by simp [← hp]), fun a ha => ?_⟩
    obtain ⟨p, rfl⟩ := List.getLast?_eq_some_iff.mp ha
    exact h p a b [] (by simp)
  · rintro ⟨h, hlast⟩ p a c rest hp
    have hp' : (p ++ [a]) ++ c :: rest = l ++ [b] := by simpa using hp
    rcases split_append_singleton hp' with ⟨rfl, rfl, -⟩ | ⟨rest', -, hp''⟩
    · exact hlast a (by simp)
    · exact h p a c rest' (by simpa using hp'')

/-! ### Unmixed bursts -/

/-- What the counter holds: how far the last burst is, all others being complete. -/
structure Account (w : Nat) (size : α → Nat) (l : List α) : Prop where
  tells : Tells w size l
  last : ∀ a, l.getLast? = some a → counter w size l = l.count a % size a
  earlier : ∀ a ∈ l, l.getLast? ≠ some a → l.count a = size a

/-- The counter is at the number of elements the burst of the next one has. -/
theorem Account.counter_eq (h : Account w size l) (hroom : l.count b < size b)
    (hnext : ∀ a, l.getLast? = some a → b = a ∨ l.count a = size a) : counter w size l = l.count b := by
  cases hlast : l.getLast? with
  | none =>
    rw [List.getLast?_eq_none_iff.mp hlast]
    rfl
  | some a =>
    by_cases hba : b = a
    · subst hba
      rw [h.last b hlast, Nat.mod_eq_of_lt hroom]
    · have hfull := (hnext a hlast).resolve_left hba
      have hnew : b ∉ l := by
        intro hb
        have hdone := h.earlier b hb (by simpa [hlast] using Ne.symm hba)
        omega
      rw [h.last a hlast, hfull, Nat.mod_self, List.count_eq_zero.mpr hnew]

theorem Account.append_singleton (h : Account w size l) (hw : size b < w) (hroom : l.count b < size b)
    (hnext : ∀ a, l.getLast? = some a → b = a ∨ l.count a = size a) : Account w size (l ++ [b]) := by
  have hcounter := h.counter_eq hroom hnext
  have hmod : (l.count b + 1) % w = l.count b + 1 := Nat.mod_eq_of_lt (by omega)
  have hcount : (l ++ [b]).count b = l.count b + 1 := by simp
  refine ⟨h.tells.append_singleton ?_, fun a ha => ?_, fun a ha hlast => ?_⟩
  · rw [hcounter, hmod]
  · obtain rfl : b = a := by simpa using ha
    rw [counter_append_singleton, next, hcounter, hmod, hcount]
    split
    · next hfull => rw [hfull, Nat.mod_self]
    · rw [Nat.mod_eq_of_lt (by omega)]
  · have hne : a ≠ b := by
      rintro rfl
      exact hlast (by simp)
    have hmem : a ∈ l := by simpa [hne] using ha
    have hsame : (l ++ [b]).count a = l.count a := by simp [Ne.symm hne]
    rw [hsame]
    by_cases hend : l.getLast? = some a
    · exact (hnext a hend).resolve_left (Ne.symm hne)
    · exact h.earlier a hmem hend

/-- **Unmixed bursts are told apart.** -/
theorem account_of_unmixed (hw : ∀ a ∈ l, size a < w) (hroom : ∀ a ∈ l, l.count a ≤ size a)
    (h : Unmixed size l) : Account w size l := by
  induction l using List.reverseRecOn with
  | nil => exact ⟨tells_nil, by simp, by simp⟩
  | append_singleton l b ih =>
    obtain ⟨hl, hnext⟩ := unmixed_append_singleton.mp h
    have hb := hroom b (by simp)
    have hcount : (l ++ [b]).count b = l.count b + 1 := by simp
    refine Account.append_singleton (ih ?_ ?_ hl) (hw b (by simp)) (by omega) hnext
    · exact fun a ha => hw a (List.mem_append_left _ ha)
    · intro a ha
      have hle := (List.sublist_append_left l [b]).count_le a
      have := hroom a (List.mem_append_left _ ha)
      omega

/-! ### Bursts that are all complete -/

/-- A whole burst after whole bursts. -/
theorem unmixed_append_replicate (hl : Unmixed size l) (hfull : ∀ b ∈ l, l.count b = size b) (n : Nat) :
    Unmixed size (l ++ List.replicate n a) := by
  induction n with
  | zero => simpa using hl
  | succ n ih =>
    rw [List.replicate_succ', ← List.append_assoc, unmixed_append_singleton]
    refine ⟨ih, fun b hb => ?_⟩
    cases n with
    | zero =>
      rw [List.replicate_zero, List.append_nil] at hb ⊢
      exact .inr (hfull b (List.mem_of_getLast? hb))
    | succ n =>
      rw [List.replicate_succ', ← List.append_assoc, List.getLast?_concat] at hb
      exact .inl (Option.some.inj hb)

/-- The elements since the last reset are counted; when the counter tells a burst complete,
they are that burst. -/
theorem unmixed_of_reset (hcomplete : ∀ a ∈ l, l.count a = size a) (hlength : l.length < w)
    (h : Tells w size l) (rest : List α) : ∀ (q s : List α), q ++ s ++ rest = l → Unmixed size q →
      (∀ a ∈ q, q.count a = size a) → counter w size (q ++ s) = s.length → Unmixed size l := by
  induction rest with
  | nil =>
    intro q s hl hq hclosed hcounter
    rw [List.append_nil] at hl
    -- the last element completes its burst, so that nothing is left to count
    rcases List.eq_nil_or_concat' s with rfl | ⟨s, a, rfl⟩
    · rw [← hl, List.append_nil]
      exact hq
    · have hsplit : q ++ s ++ a :: [] = l := by simpa using hl
      have hfull := hcomplete a (by simp [← hsplit])
      have hlast : (q ++ s).count a + 1 = size a := by
        rw [← hfull, ← hsplit]
        simp [Nat.add_assoc]
      have hreset := (h (q ++ s) a [] hsplit).mpr hlast
      rw [← List.append_assoc, counter_append_singleton, next, if_pos hreset] at hcounter
      simp at hcounter
  | cons a rest ih =>
    intro q s hl hq hclosed hcounter
    have htells := h (q ++ s) a rest hl
    have hlt : s.length + 1 < w := by
      rw [← hl] at hlength
      simp only [List.length_append, List.length_cons] at hlength
      omega
    rw [hcounter, Nat.mod_eq_of_lt hlt] at htells
    have hnext : counter w size (q ++ (s ++ [a])) =
        if s.length + 1 = size a then 0 else s.length + 1 := by
      rw [← List.append_assoc, counter_append_singleton, next, hcounter, Nat.mod_eq_of_lt hlt]
    have hl' : q ++ (s ++ [a]) ++ rest = l := by simpa using hl
    by_cases hfull : s.length + 1 = size a
    · have hcount := htells.mp hfull
      have hnew : a ∉ q := by
        intro ha
        have hdone := hclosed a ha
        rw [List.count_append] at hcount
        have hall := hcomplete a (by simp [← hl])
        rw [← hl] at hall
        simp only [List.count_append, List.count_cons_self] at hall
        omega
      rw [List.count_append, List.count_eq_zero.mpr hnew, Nat.zero_add] at hcount
      have hs : s = List.replicate s.length a := by
        rw [List.eq_replicate_iff]
        refine ⟨rfl, fun b hb => ?_⟩
        have hsame : s.count a = s.length := by omega
        exact (List.count_eq_length.mp hsame b hb).symm
      have hburst : s ++ [a] = List.replicate (size a) a := by
        rw [← hfull, List.replicate_succ', ← hs]
      rw [if_pos hfull] at hnext
      refine ih (q ++ (s ++ [a])) [] (by simpa using hl') ?_ ?_ (by simpa using hnext)
      · rw [hburst]
        exact unmixed_append_replicate hq hclosed _
      · intro b hb
        rw [hburst] at hb ⊢
        rw [List.count_append, List.count_replicate]
        by_cases hba : b = a
        · rw [hba, List.count_eq_zero.mpr hnew, beq_self_eq_true, if_pos rfl, Nat.zero_add]
        · have hmem : b ∈ q := by simpa [hba] using hb
          rw [hclosed b hmem, if_neg (by simpa using Ne.symm hba), Nat.add_zero]
    · rw [if_neg hfull] at hnext
      exact ih q (s ++ [a]) hl' hq hclosed (by simpa using hnext)

/-- **Only unmixed bursts are told apart**, if they are all complete and the counter does not wrap. -/
theorem unmixed_of_tells (hcomplete : ∀ a ∈ l, l.count a = size a) (hlength : l.length < w)
    (h : Tells w size l) : Unmixed size l :=
  unmixed_of_reset hcomplete hlength h l [] [] rfl unmixed_nil (by simp) rfl

end Hsim.Lib.Bursts
