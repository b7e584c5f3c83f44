import Mathlib.Algebra.Order.Monoid.Canonical.Defs
import Mathlib.Data.List.Pairwise
import Mathlib.Data.List.TakeWhile

/-! A serial resource.

One job at a time, in the order of submission. A job submitted at `t` starts when
the resource is free and not before `t`, runs for its duration, and waits in a
queue until somebody polls. The resource is described by the single instant from
which it is free; that instant bounds every completion still queued, and this is
what makes polling from the front exact. -/
namespace Hsim.Lib

variable {τ α : Type*} [LinearOrder τ]

/-- Completions in nondecreasing order. -/
def Sorted (queue : List (τ × α)) : Prop := queue.Pairwise (·.1 ≤ ·.1)

/-- A queue of completions of a resource that is free from `available` on. -/
structure Queued (available : τ) (queue : List (τ × α)) : Prop where
  sorted : Sorted queue
  bounded : ∀ e ∈ queue, e.1 ≤ available

/-- The completions a poll at `now` releases. -/
def due (now : τ) (queue : List (τ × α)) : List (τ × α) := queue.takeWhile fun e => e.1 ≤ now

/-- What stays queued. -/
def notDue (now : τ) (queue : List (τ × α)) : List (τ × α) := queue.dropWhile fun e => e.1 ≤ now

theorem due_append_notDue (now : τ) (queue : List (τ × α)) : due now queue ++ notDue now queue = queue :=
  List.takeWhile_append_dropWhile

theorem le_of_mem_due {now : τ} {queue : List (τ × α)} {e : τ × α} (h : e ∈ due now queue) :
    e.1 ≤ now := by
  simpa using List.mem_takeWhile_imp h

/-- A poll that finds the front not due releases nothing. -/
theorem due_cons_of_lt {now : τ} {e : τ × α} (h : now < e.1) (rest : List (τ × α)) :
    due now (e :: rest) = [] := by
  simp [due, h]

theorem notDue_cons_of_lt {now : τ} {e : τ × α} (h : now < e.1) (rest : List (τ × α)) :
    notDue now (e :: rest) = e :: rest := by
  simp [notDue, h]

theorem due_cons_of_le {now : τ} {e : τ × α} (h : e.1 ≤ now) (rest : List (τ × α)) :
    due now (e :: rest) = e :: due now rest := by
  simp [due, h]

theorem notDue_cons_of_le {now : τ} {e : τ × α} (h : e.1 ≤ now) (rest : List (τ × α)) :
    notDue now (e :: rest) = notDue now rest := by
  simp [notDue, h]

theorem Queued.nil (available : τ) : Queued available ([] : List (τ × α)) :=
  ⟨List.Pairwise.nil, by simp⟩

/-- A job that starts no earlier than the resource is free goes to the end of the queue. -/
theorem Queued.submit {available : τ} {queue : List (τ × α)} (h : Queued available queue) {done : τ}
    (hd : available ≤ done) (a : α) : Queued done (queue ++ [(done, a)]) := by
  refine ⟨?_, fun e he => ?_⟩
  · refine List.pairwise_append.mpr ⟨h.sorted, List.pairwise_singleton _ _, ?_⟩
    intro e he e' he'
    obtain rfl := List.mem_singleton.mp he'
    exact (h.bounded e he).trans hd
  · rcases List.mem_append.mp he with he | he
    · exact (h.bounded e he).trans hd
    · obtain rfl := List.mem_singleton.mp he
      exact le_rfl

theorem Queued.notDue {available : τ} {queue : List (τ × α)} (h : Queued available queue) (now : τ) :
    Queued available (notDue now queue) :=
  ⟨h.sorted.sublist (List.dropWhile_sublist _),
    fun e he => h.bounded e ((List.dropWhile_sublist _).subset he)⟩

theorem Sorted.lt_of_mem_notDue {now : τ} {queue : List (τ × α)} (h : Sorted queue) {e : τ × α}
    (he : e ∈ Lib.notDue now queue) : now < e.1 := by
  induction queue with
  | nil => simp [Lib.notDue] at he
  | cons x queue ih =>
    obtain ⟨hx, hs⟩ := List.pairwise_cons.mp h
    by_cases hdue : x.1 ≤ now
    · exact ih hs (by simpa [Lib.notDue, hdue] using he)
    · have hmem : e = x ∨ e ∈ queue := by simpa [Lib.notDue, hdue] using he
      rcases hmem with rfl | hmem
      · exact not_le.mp hdue
      · exact (not_le.mp hdue).trans_le (hx e hmem)

/-- Polling from the front of a sorted queue releases every completion that is due. -/
theorem Sorted.due_eq_filter {queue : List (τ × α)} (h : Sorted queue) (now : τ) :
    due now queue = queue.filter fun e => e.1 ≤ now := by
  have hsplit := due_append_notDue now queue
  have hdue : (due now queue).filter (fun e => decide (e.1 ≤ now)) = due now queue :=
    List.filter_eq_self.mpr fun e he => by simpa using le_of_mem_due he
  have hrest : (Lib.notDue now queue).filter (fun e => decide (e.1 ≤ now)) = [] :=
    List.filter_eq_nil_iff.mpr fun e he => by simpa using h.lt_of_mem_notDue he
  rw [← hsplit, List.filter_append, hrest, List.append_nil, hsplit, hdue]

theorem Sorted.notDue_eq_filter {queue : List (τ × α)} (h : Sorted queue) (now : τ) :
    Lib.notDue now queue = queue.filter fun e => now < e.1 := by
  have hdue : (due now queue).filter (fun e => decide (now < e.1)) = [] :=
    List.filter_eq_nil_iff.mpr fun e he => by simpa using le_of_mem_due he
  have hrest : (Lib.notDue now queue).filter (fun e => decide (now < e.1)) = Lib.notDue now queue :=
    List.filter_eq_self.mpr fun e he => by simpa using h.lt_of_mem_notDue he
  calc Lib.notDue now queue
      = (due now queue ++ Lib.notDue now queue).filter (fun e => decide (now < e.1)) := by
        rw [List.filter_append, hdue, hrest, List.nil_append]
    _ = queue.filter fun e => now < e.1 := by rw [due_append_notDue]

/-! ### The schedule of a sequence of submissions -/

/-- A job with the interval in which it is served. -/
structure Slot (τ α : Type*) where
  start : τ
  done : τ
  job : α
  deriving DecidableEq

/-- A slot as it waits in the queue. -/
def Slot.entry (o : Slot τ α) : τ × α := (o.done, o.job)

/-- The due part of a queue of slots is a prefix of the slots. -/
theorem due_slots (now : τ) (slots : List (Slot τ α)) :
    ∃ done rest, slots = done ++ rest ∧ due now (slots.map Slot.entry) = done.map Slot.entry ∧
      notDue now (slots.map Slot.entry) = rest.map Slot.entry := by
  refine ⟨slots.takeWhile fun o => o.done ≤ now, slots.dropWhile fun o => o.done ≤ now,
    List.takeWhile_append_dropWhile.symm, ?_, ?_⟩
  · rw [due, List.takeWhile_map]
    rfl
  · rw [notDue, List.dropWhile_map]
    rfl

variable [Add τ]

/-- The slots given to jobs, each with its submission time and duration, by a resource
that is free from `available` on. -/
def schedule (available : τ) : List (τ × τ × α) → List (Slot τ α)
  | [] => []
  | (t, d, a) :: rest =>
    ⟨max t available, max t available + d, a⟩ :: schedule (max t available + d) rest

/-- When the resource is free again. -/
def freeAt (available : τ) (jobs : List (τ × τ × α)) : τ :=
  jobs.foldl (fun free j => max j.1 free + j.2.1) available

theorem schedule_append (available : τ) (jobs more : List (τ × τ × α)) :
    schedule available (jobs ++ more) =
      schedule available jobs ++ schedule (freeAt available jobs) more := by
  induction jobs generalizing available with
  | nil => rfl
  | cons j jobs ih => simp [schedule, freeAt, ih]

theorem freeAt_append (available : τ) (jobs : List (τ × τ × α)) (t d : τ) (a : α) :
    freeAt available (jobs ++ [(t, d, a)]) = max t (freeAt available jobs) + d := by
  simp [freeAt]

end Hsim.Lib

namespace Hsim.Lib

variable {τ α : Type*} [LinearOrder τ] [AddCommMonoid τ] [CanonicallyOrderedAdd τ]

theorem le_freeAt (available : τ) (jobs : List (τ × τ × α)) : available ≤ freeAt available jobs := by
  induction jobs generalizing available with
  | nil => exact le_rfl
  | cons j jobs ih =>
    calc available ≤ max j.1 available := le_max_right _ _
      _ ≤ max j.1 available + j.2.1 := le_self_add
      _ ≤ freeAt available (j :: jobs) := ih _

theorem schedule_bounds (available : τ) (jobs : List (τ × τ × α)) :
    ∀ s ∈ schedule available jobs,
      available ≤ s.start ∧ s.start ≤ s.done ∧ s.done ≤ freeAt available jobs := by
  induction jobs generalizing available with
  | nil => simp [schedule]
  | cons j jobs ih =>
    obtain ⟨t, d, a⟩ := j
    intro s hs
    simp only [schedule, List.mem_cons] at hs
    rcases hs with rfl | hs
    · exact ⟨le_max_right _ _, le_self_add, le_freeAt _ _⟩
    · obtain ⟨h1, h2, h3⟩ := ih _ s hs
      exact ⟨((le_max_right t available).trans le_self_add).trans h1, h2, h3⟩

/-- Slots follow each other: they are disjoint and in the order of submission. -/
theorem schedule_disjoint (available : τ) (jobs : List (τ × τ × α)) :
    (schedule available jobs).Pairwise (fun s s' => s.done ≤ s'.start) := by
  induction jobs generalizing available with
  | nil => exact List.Pairwise.nil
  | cons j jobs ih =>
    obtain ⟨t, d, a⟩ := j
    exact List.pairwise_cons.mpr ⟨fun s hs => (schedule_bounds _ jobs s hs).1, ih _⟩

end Hsim.Lib
