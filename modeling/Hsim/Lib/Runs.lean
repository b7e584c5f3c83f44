import Mathlib.Data.List.SplitBy

/-! Runs of a stream.

Elements arrive one at a time and go to the open run, or the open run is closed
and the element opens the next. Whatever decides the cuts, nothing is lost; if the
cuts are where a relation between neighbours fails, the runs are those the relation
splits the list into. -/
namespace Hsim.Lib

variable {α : Type*}

/-- The closed runs and the open one. -/
structure Runs (α : Type*) where
  closed : List (List α) := []
  current : List α := []

namespace Runs

/-- An element arrives, with or without a cut before it. -/
def push (x : Runs α) (cut : Bool) (a : α) : Runs α :=
  if cut then {
    closed := x.closed ++ [x.current]
    current := [a]}
  else {x with current := x.current ++ [a]}

/-- All runs, at the end of the stream. -/
def all (x : Runs α) : List (List α) := x.closed ++ if x.current.isEmpty then [] else [x.current]

/-- The runs hold the elements that have arrived, none is empty, and the first element
opened one. -/
structure Holds (x : Runs α) (l : List α) : Prop where
  whole : x.closed.flatten ++ x.current = l
  full : [] ∉ x.closed
  started : x.current = [] → x.closed = []

section
variable {x : Runs α} {l : List α} {cut : Bool} {a : α}

theorem holds_empty : ({} : Runs α).Holds [] := ⟨rfl, by simp, fun _ => rfl⟩

/-- Nothing is cut before the first element. -/
theorem Holds.push (h : x.Holds l) (hcut : cut = true → x.current ≠ []) :
    (x.push cut a).Holds (l ++ [a]) := by
  cases cut with
  | false => exact ⟨by simp [Runs.push, ← h.whole], h.full, by simp [Runs.push]⟩
  | true =>
    have hne := hcut rfl
    refine ⟨by simp [Runs.push, ← h.whole], ?_, by simp [Runs.push]⟩
    simp only [Runs.push, if_true, List.mem_append, List.mem_singleton, not_or]
    exact ⟨h.full, fun hempty => hne hempty.symm⟩

theorem Holds.all_flatten (h : x.Holds l) : x.all.flatten = l := by
  rw [← h.whole, all]
  split
  · next hempty => simp [List.isEmpty_iff.mp hempty]
  · simp

theorem Holds.all_full (h : x.Holds l) : [] ∉ x.all := by
  rw [all, List.mem_append, not_or]
  refine ⟨h.full, ?_⟩
  split
  · simp
  · next hempty =>
    rw [List.mem_singleton]
    exact fun hnil => hempty (by simp [← hnil])

end

/-- The runs are chains of the relation, and it fails from each to the next. -/
structure Splits (r : α → α → Bool) (x : Runs α) : Prop where
  closed : ∀ m ∈ x.closed, m.IsChain fun a b => r a b
  current : x.current.IsChain fun a b => r a b
  apart : (x.closed ++ [x.current]).IsChain fun a b => ∃ ha hb, r (a.getLast ha) (b.head hb) = false

section
variable {r : α → α → Bool} {x : Runs α} {l : List α} {cut : Bool} {a : α}

theorem splits_empty : Splits r ({} : Runs α) := ⟨by simp, by simp, by simp⟩

/-- A cut where the relation fails, and nowhere else. -/
theorem Splits.push (h : Splits r x) (hx : x.Holds l) (hfirst : x.current = [] → cut = false)
    (hcut : ∀ b ∈ x.current.getLast?, cut = !r b a) : Splits r (x.push cut a) := by
  cases hlast : x.current.getLast? with
  | none =>
    have hempty : x.current = [] := List.getLast?_eq_none_iff.mp hlast
    have hclosed := hx.started hempty
    rw [hfirst hempty]
    simp only [Runs.push, hempty, hclosed]
    exact ⟨by simp, by simp, by simp⟩
  | some b =>
    have hb := hcut b hlast
    have hne : x.current ≠ [] := by
      intro hempty
      rw [hempty] at hlast
      cases hlast
    cases hr : r b a with
    | true =>
      rw [hr, Bool.not_true] at hb
      rw [hb]
      refine ⟨h.closed, ?_, ?_⟩
      · refine List.isChain_append.mpr ⟨h.current, by simp, ?_⟩
        intro c hc d hd
        rw [hlast] at hc
        cases hc
        cases hd
        exact hr
      · have hapart := List.isChain_append.mp h.apart
        refine List.isChain_append.mpr ⟨hapart.1, by simp, ?_⟩
        intro m hm m' hm'
        cases hm'
        obtain ⟨hm₀, hhead, hfails⟩ := hapart.2.2 m hm x.current rfl
        have hopen : x.current ++ [a] ≠ [] := by simp
        have hsame : (x.current ++ [a]).head hopen = x.current.head hhead :=
          List.head_append_of_ne_nil hhead
        refine ⟨hm₀, hopen, ?_⟩
        rw [← hsame] at hfails
        exact hfails
    | false =>
      rw [hr, Bool.not_false] at hb
      rw [hb]
      refine ⟨?_, by simp [Runs.push], ?_⟩
      · intro m hm
        rcases List.mem_append.mp hm with hm | hm
        · exact h.closed m hm
        · obtain rfl := List.mem_singleton.mp hm
          exact h.current
      · refine List.isChain_append.mpr ⟨h.apart, by simp, ?_⟩
        intro m hm m' hm'
        change m ∈ (x.closed ++ [x.current]).getLast? at hm
        rw [List.getLast?_concat] at hm
        cases hm
        cases hm'
        refine ⟨hne, by simp [Runs.push], ?_⟩
        have hget : x.current.getLast hne = b := by
          rw [List.getLast?_eq_some_getLast hne] at hlast
          exact Option.some.inj hlast
        rw [hget]
        exact hr

/-- The runs are those of the whole list. -/
theorem Splits.all_eq (h : Splits r x) (hx : x.Holds l) : x.all = l.splitBy r := by
  symm
  refine List.splitBy_eq_iff.mpr ⟨hx.all_flatten.symm, hx.all_full, ?_, ?_⟩
  · intro m hm
    rcases List.mem_append.mp hm with hm | hm
    · exact h.closed m hm
    · split at hm
      · cases hm
      · obtain rfl := List.mem_singleton.mp hm
        exact h.current
  · rw [all]
    split
    · rw [List.append_nil]
      exact (List.isChain_append.mp h.apart).1
    · exact h.apart

end

end Runs

end Hsim.Lib
