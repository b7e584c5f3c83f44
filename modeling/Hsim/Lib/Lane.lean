import Mathlib.Data.List.Basic

/-! A lane and its event.

A coordinator puts the jobs of a stage on a lane, which serves them in order,
and waits for an event that is raised when a marked job is served. If only the
last job of a stage can be marked, then the event says that the whole stage has
been served, and it is raised once. -/
namespace Hsim.Lib.Lane

variable {α : Type*}

structure State (α : Type*) where
  /-- The coordinator waits. -/
  waiting : Bool := false
  /-- It has seen the event. -/
  seen : Bool := false
  /-- The event is raised and not yet seen. -/
  raised : Bool := false
  emitted : List α := []
  served : List α := []
  lane : List α := []

/-- Only the last job can be marked. -/
def OnlyLast (marked : α → Bool) (jobs : List α) : Prop :=
  ∀ front t, jobs = front ++ [t] → ∀ x ∈ front, marked x = false

structure Inv (marked : α → Bool) (s : State α) : Prop where
  order : s.served ++ s.lane = s.emitted
  onlyLast : OnlyLast marked s.emitted
  count : s.waiting = true → (s.served.filter marked).length = s.raised.toNat + s.seen.toNat
  quiet : s.waiting = false → s.lane = [] ∧ s.raised = false

theorem inv_initial (marked : α → Bool) : Inv marked ({} : State α) := by
  refine ⟨rfl, fun front t h => ?_, fun h => ?_, fun _ => ⟨rfl, rfl⟩⟩
  · exact absurd (congrArg List.length h) (by simp)
  · cases h

section
variable {marked : α → Bool} {s : State α} (h : Inv marked s)
include h

/-- While the lane holds a job, no marked one has been served. -/
theorem Inv.none_served (hlane : s.lane ≠ []) : s.served.filter marked = [] := by
  obtain ⟨init, t, hsplit⟩ := List.eq_nil_or_concat s.lane |>.resolve_left hlane
  have hjobs : s.emitted = (s.served ++ init) ++ [t] := by
    rw [← h.order, hsplit, List.concat_eq_append, List.append_assoc]
  rw [List.filter_eq_nil_iff]
  intro x hx
  simp [h.onlyLast _ t hjobs x (List.mem_append_left _ hx)]

/-- The event is raised once. -/
theorem Inv.served_once : (s.served.filter marked).length ≤ 1 := by
  rcases List.eq_nil_or_concat s.served with hnone | ⟨init, t, hsplit⟩
  · simp [hnone]
  · rw [List.concat_eq_append] at hsplit
    by_cases hlane : s.lane = []
    · have hjobs : s.emitted = init ++ [t] := by rw [← h.order, hlane, List.append_nil, hsplit]
      have hinit : init.filter marked = [] := by
        rw [List.filter_eq_nil_iff]
        intro x hx
        simp [h.onlyLast init t hjobs x hx]
      rw [hsplit, List.filter_append, hinit, List.nil_append]
      exact List.length_filter_le marked [t]
    · rw [h.none_served hlane]
      exact Nat.zero_le 1

/-- **The event says that the stage is served.** -/
theorem Inv.all_served (hwaiting : s.waiting = true) (hevent : s.raised = true ∨ s.seen = true) :
    s.lane = [] ∧ s.served = s.emitted := by
  have hlane : s.lane = [] := by
    by_contra hlane
    have hcount := h.count hwaiting
    rw [h.none_served hlane, List.length_nil] at hcount
    rcases hevent with hevent | hevent
    · rw [hevent, Bool.toNat_true] at hcount
      omega
    · rw [hevent, Bool.toNat_true] at hcount
      omega
  refine ⟨hlane, ?_⟩
  rw [← h.order, hlane, List.append_nil]

theorem Inv.launch (hidle : s.waiting = false) {jobs : List α} (hjobs : OnlyLast marked jobs) :
    Inv marked {s with
      waiting := true
      seen := false
      emitted := jobs
      served := []
      lane := s.lane ++ jobs} := by
  obtain ⟨hlane, hraised⟩ := h.quiet hidle
  refine ⟨?_, hjobs, fun _ => ?_, fun hnot => ?_⟩
  · show [] ++ (s.lane ++ jobs) = jobs
    rw [hlane, List.nil_append, List.nil_append]
  · show 0 = s.raised.toNat + 0
    rw [hraised]
    rfl
  · cases hnot

theorem Inv.serve {t : α} {rest : List α} (hlane : s.lane = t :: rest) :
    Inv marked {s with
      served := s.served ++ [t]
      lane := rest
      raised := s.raised || marked t} := by
  have hnone := h.none_served (by rw [hlane]; simp)
  have hwaiting : s.waiting = true := by
    by_contra hidle
    have hempty := (h.quiet (by simpa using hidle)).1
    rw [hlane] at hempty
    cases hempty
  have hcount := h.count hwaiting
  rw [hnone, List.length_nil] at hcount
  have hzero : s.raised = false ∧ s.seen = false := by
    constructor
    · rw [← Bool.toNat_eq_zero]
      omega
    · rw [← Bool.toNat_eq_zero]
      omega
  refine ⟨?_, h.onlyLast, fun _ => ?_, fun hidle => ?_⟩
  · show s.served ++ [t] ++ rest = s.emitted
    rw [← h.order, hlane, List.append_assoc, List.singleton_append]
  · show ((s.served ++ [t]).filter marked).length = (s.raised || marked t).toNat + s.seen.toNat
    rw [List.filter_append, hnone, hzero.1, hzero.2, Bool.false_or]
    cases hmark : marked t <;> simp [hmark]
  · rw [hwaiting] at hidle
    cases hidle

/-- The event is seen, by a coordinator that waits. -/
theorem Inv.see (hraised : s.raised = true) :
    s.waiting = true ∧ Inv marked {s with
      raised := false
      seen := true} := by
  have hwaiting : s.waiting = true := by
    by_contra hidle
    have hquiet := (h.quiet (by simpa using hidle)).2
    rw [hraised] at hquiet
    cases hquiet
  have hcount := h.count hwaiting
  have honce := h.served_once
  rw [hraised] at hcount
  refine ⟨hwaiting, h.order, h.onlyLast, fun _ => ?_, fun hidle => ?_⟩
  · show (s.served.filter marked).length = 0 + 1
    simp only [Bool.toNat_true] at hcount
    omega
  · rw [hwaiting] at hidle
    cases hidle

/-- The coordinator goes on. -/
theorem Inv.pass (hwaiting : s.waiting = true) (hseen : s.seen = true) (seen : Bool) :
    Inv marked {s with
      waiting := false
      seen := seen} := by
  have hlane := (h.all_served hwaiting (.inr hseen)).1
  have hcount := h.count hwaiting
  have honce := h.served_once
  refine ⟨h.order, h.onlyLast, fun hnot => ?_, fun _ => ⟨hlane, ?_⟩⟩
  · cases hnot
  · show s.raised = false
    rw [← Bool.toNat_eq_zero]
    rw [hseen, Bool.toNat_true] at hcount
    omega

end

end Hsim.Lib.Lane
