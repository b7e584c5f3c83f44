import Mathlib.Logic.Function.Basic

/-! Cells of a family, visited one after the other.

A loop over a list of indices rewrites each cell it visits. Where no index comes
twice, what a cell holds afterwards depends on that cell alone (`forEach_apply`),
also if a visit can fail (`forEachM_eq_ok`). -/
namespace Hsim.Lib

variable {ι σ ε : Type*} [DecidableEq ι]

/-- Rewrites the cells of the list in turn. -/
def forEach (f : ι → σ → σ) : List ι → (ι → σ) → ι → σ
  | [], s => s
  | i :: rest, s => forEach f rest (Function.update s i (f i (s i)))

theorem forEach_apply (f : ι → σ → σ) {l : List ι} (hl : l.Nodup) (s : ι → σ) (j : ι) :
    forEach f l s j = if j ∈ l then f j (s j) else s j := by
  induction l generalizing s with
  | nil => simp [forEach]
  | cons i rest ih =>
    obtain ⟨hi, hrest⟩ := List.nodup_cons.mp hl
    rw [forEach, ih hrest]
    by_cases hj : j = i
    · subst hj
      simp [hi]
    · simp [hj]

/-- The same, where a visit can fail; the first that does ends the loop. -/
def forEachM (f : ι → σ → Except ε σ) : List ι → (ι → σ) → Except ε (ι → σ)
  | [], s => .ok s
  | i :: rest, s =>
    match f i (s i) with
    | .error e => .error e
    | .ok x => forEachM f rest (Function.update s i x)

theorem forEachM_eq_ok {f : ι → σ → Except ε σ} {l : List ι} (hl : l.Nodup) {s s' : ι → σ} :
    forEachM f l s = .ok s' ↔ (∀ i ∈ l, f i (s i) = .ok (s' i)) ∧ ∀ i, i ∉ l → s' i = s i := by
  induction l generalizing s with
  | nil =>
    simp only [forEachM, Except.ok.injEq, List.not_mem_nil, false_implies, implies_true, true_and,
      not_false_eq_true, forall_const]
    exact ⟨fun h i => by rw [h], fun h => funext fun i => (h i).symm⟩
  | cons i rest ih =>
    obtain ⟨hi, hrest⟩ := List.nodup_cons.mp hl
    rw [forEachM]
    cases hf : f i (s i) with
    | error e => simp [hf]
    | ok x =>
      dsimp only
      rw [ih hrest]
      -- The rest of the loop does not look at cell `i`, and leaves it as it is.
      constructor
      · rintro ⟨hvisited, hother⟩
        have hx : s' i = x := by simpa using hother i hi
        refine ⟨?_, ?_⟩
        · intro j hj
          rcases List.mem_cons.mp hj with rfl | hj
          · rw [hf, hx]
          · have hne : j ≠ i := fun h => hi (h ▸ hj)
            simpa [hne] using hvisited j hj
        · intro j hj
          have hne : j ≠ i := fun h => hj (h ▸ List.mem_cons_self)
          simpa [hne] using hother j fun h => hj (List.mem_cons_of_mem _ h)
      · rintro ⟨hvisited, hother⟩
        have hx : x = s' i := by
          have h := hvisited i List.mem_cons_self
          rw [hf] at h
          exact Except.ok.inj h
        refine ⟨?_, ?_⟩
        · intro j hj
          have hne : j ≠ i := fun h => hi (h ▸ hj)
          simpa [hne] using hvisited j (List.mem_cons_of_mem _ hj)
        · intro j hj
          by_cases hne : j = i
          · subst hne
            simpa using hx.symm
          · have hmem : j ∉ i :: rest := by simpa [hne] using hj
            simpa [hne] using hother j hmem

/-- Where no visit can fail, the loop does not. -/
theorem forEachM_ok {f : ι → σ → Except ε σ} {l : List ι} (hl : l.Nodup) {s : ι → σ}
    (h : ∀ i ∈ l, ∃ x, f i (s i) = .ok x) : ∃ s', forEachM f l s = .ok s' := by
  classical
  refine ⟨fun i => if hi : i ∈ l then (h i hi).choose else s i, (forEachM_eq_ok hl).mpr ⟨?_, ?_⟩⟩
  · intro i hi
    rw [dif_pos hi]
    exact (h i hi).choose_spec
  · intro i hi
    exact dif_neg hi

end Hsim.Lib
