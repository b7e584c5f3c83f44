import Mathlib.Order.Lattice
import Mathlib.Data.List.Basic

/-! A window that counts what has happened lately.

Every event leaves the time at which it stops counting. An event drops the oldest of
these at most, and only if that time has come. As long as no event is let in while the
window is full, it is never larger than its size, and an event lies at or after the
time at which the one `size` places before it stopped counting (`Window.spaced`). -/
namespace Hsim.Lib

variable {α : Type*} [LinearOrder α]

/-- The window is not full, or its first entry has stopped counting. -/
def windowReady (size : Nat) (window : List α) (now : α) : Bool :=
  match window with
  | [] => true
  | first :: _ => !(now < first && size ≤ window.length)

/-- The window after an event. -/
def slide (window : List α) (now stop : α) : List α :=
  match window with
  | [] => [stop]
  | first :: rest => (if first ≤ now then rest else first :: rest) ++ [stop]

/-- Once everything has stopped counting, an event is let in. -/
theorem windowReady_of_le {size : Nat} {window : List α} {now : α} (h : ∀ stop ∈ window, stop ≤ now) :
    windowReady size window now = true := by
  cases window with
  | nil => rfl
  | cons first rest => simp [windowReady, not_lt.mpr (h first List.mem_cons_self)]

theorem mem_slide {window : List α} {now stop t : α} (h : t ∈ slide window now stop) :
    t ∈ window ∨ t = stop := by
  cases window with
  | nil => exact .inr (List.mem_singleton.mp h)
  | cons first rest =>
    rw [slide, List.mem_append, List.mem_singleton] at h
    refine h.imp_left fun ht => ?_
    split at ht
    · exact List.mem_cons_of_mem first ht
    · exact ht

/-- What a window remembers of all the times at which events stop counting. -/
structure Window (size : Nat) (now : α) (stops window : List α) : Prop where
  suffix : ∃ gone, stops = gone ++ window ∧ ∀ stop ∈ gone, stop ≤ now
  length_le : window.length ≤ size

namespace Window
variable {size : Nat} {now now' stop : α} {stops window : List α}

theorem start : Window size now [] [] := ⟨⟨[], rfl, by simp⟩, Nat.zero_le _⟩

theorem mono (h : Window size now stops window) (hnow : now ≤ now') : Window size now' stops window := by
  obtain ⟨gone, hstops, hgone⟩ := h.suffix
  exact ⟨⟨gone, hstops, fun s hs => le_trans (hgone s hs) hnow⟩, h.length_le⟩

theorem slide (hsize : 0 < size) (h : Window size now stops window)
    (hready : windowReady size window now = true) :
    Window size now (stops ++ [stop]) (slide window now stop) := by
  obtain ⟨⟨gone, rfl, hgone⟩, hlength⟩ := h
  cases window with
  | nil => exact ⟨⟨gone, by simp [Lib.slide], hgone⟩, by simpa [Lib.slide, Nat.succ_le_iff] using hsize⟩
  | cons first rest =>
    by_cases hfirst : first ≤ now
    · refine ⟨⟨gone ++ [first], by simp [Lib.slide, hfirst], ?_⟩, ?_⟩
      · intro s hs
        rcases List.mem_append.mp hs with hs | hs
        · exact hgone s hs
        · rwa [List.mem_singleton.mp hs]
      · simpa [Lib.slide, hfirst] using hlength
    · refine ⟨⟨gone, by simp [Lib.slide, hfirst], hgone⟩, ?_⟩
      simp only [windowReady, Bool.not_eq_true', Bool.and_eq_false_imp, decide_eq_true_eq,
        decide_eq_false_iff_not, List.length_cons] at hready
      simpa [Lib.slide, hfirst, Nat.succ_le_iff] using hready (not_le.mp hfirst)

/-- When an event is let in, the one `size` places before it has stopped counting. -/
theorem due (h : Window size now stops window) (hready : windowReady size window now = true) {i : Nat}
    (hi : i + size = stops.length) {stop : α} (hstop : stops[i]? = some stop) : stop ≤ now := by
  obtain ⟨⟨gone, rfl, hgone⟩, hlength⟩ := h
  rw [List.length_append] at hi
  by_cases hlt : i < gone.length
  · rw [List.getElem?_append_left hlt] at hstop
    exact hgone stop (List.mem_of_getElem? hstop)
  · -- The window is full, so its first entry is the one that counts.
    have hi' : i = gone.length := by omega
    subst hi'
    rw [List.getElem?_append_right (Nat.le_refl _), Nat.sub_self] at hstop
    cases window with
    | nil => cases hstop
    | cons first rest =>
      cases hstop
      have hfull : size ≤ (stop :: rest).length := by omega
      by_contra hlate
      have hbusy : windowReady size (stop :: rest) now = false := by
        simp only [windowReady, Bool.not_eq_false', Bool.and_eq_true, decide_eq_true_eq]
        exact ⟨not_le.mp hlate, hfull⟩
      rw [hbusy] at hready
      cases hready

end Window

/-- Each event lies after the one `size` places before it has stopped counting. -/
def Spaced (size : Nat) (stop : α → α) (events : List α) : Prop :=
  ∀ i s t, events[i]? = some s → events[i + size]? = some t → stop s ≤ t

/-- One more event keeps the spacing, if the window lets it in. -/
theorem Spaced.snoc {size : Nat} {stop : α → α} {events window : List α} {now : α}
    (hspaced : Spaced size stop events) (h : Window size now (events.map stop) window)
    (hready : windowReady size window now = true) (hsize : 0 < size) : Spaced size stop (events ++ [now]) := by
  intro i s t hs ht
  have hs' : events[i]? = some s := by
    rw [List.getElem?_append] at hs ht
    split at hs
    · exact hs
    · next hi =>
      rw [if_neg (by omega), List.getElem?_eq_none (by simp; omega)] at ht
      cases ht
  by_cases hlast : i + size < events.length
  · rw [List.getElem?_append_left hlast] at ht
    exact hspaced i s t hs' ht
  · have hbound : i + size < (events ++ [now]).length := (List.getElem?_eq_some_iff.mp ht).1
    rw [List.length_append, List.length_singleton] at hbound
    have hlen : i + size = events.length := by omega
    rw [hlen, List.getElem?_append_right (Nat.le_refl _), Nat.sub_self] at ht
    cases ht
    exact h.due hready (by simpa using hlen) (by simp [hs'])

end Hsim.Lib
