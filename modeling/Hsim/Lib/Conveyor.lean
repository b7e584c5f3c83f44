import Mathlib.Data.List.Basic
import Mathlib.Logic.Function.Iterate

/-! A two-stage conveyor.

Items are put down, moved one at a time to a queue where each gets a label, and
taken off the queue's front one at a time. Nothing overtakes and nothing is lost:
what was put down is what came off, what is queued and what is still to be
labelled, in this order. -/
namespace Hsim.Lib

variable {α ι : Type*}

structure Conveyor (α ι : Type*) where
  staged : List α := []
  queue : List (α × ι) := []
  delivered : List (α × ι) := []

namespace Conveyor

/-- Everything that was put down, in order. -/
def items (c : Conveyor α ι) : List α := c.delivered.map (·.1) ++ c.queue.map (·.1) ++ c.staged

def put (c : Conveyor α ι) (a : α) : Conveyor α ι := {c with staged := c.staged ++ [a]}

def stage (label : α → ι) (c : Conveyor α ι) : Conveyor α ι :=
  match c.staged with
  | [] => c
  | a :: rest => {c with staged := rest, queue := c.queue ++ [(a, label a)]}

def deliver (c : Conveyor α ι) : Conveyor α ι :=
  match c.queue with
  | [] => c
  | e :: rest => {c with queue := rest, delivered := c.delivered ++ [e]}

@[simp] theorem items_put (c : Conveyor α ι) (a : α) : (c.put a).items = c.items ++ [a] := by
  simp [items, put]

@[simp] theorem items_stage (label : α → ι) (c : Conveyor α ι) : (c.stage label).items = c.items := by
  unfold stage
  split
  · rfl
  · next a rest h => simp [items, h]

@[simp] theorem items_deliver (c : Conveyor α ι) : c.deliver.items = c.items := by
  unfold deliver
  split
  · rfl
  · next e rest h => simp [items, h]

/-- Labels are what the labelling says. -/
def Labelled (label : α → ι) (c : Conveyor α ι) : Prop :=
  (∀ e ∈ c.queue, e.2 = label e.1) ∧ ∀ e ∈ c.delivered, e.2 = label e.1

theorem Labelled.put {label : α → ι} {c : Conveyor α ι} (h : c.Labelled label) (a : α) :
    (c.put a).Labelled label := h

theorem Labelled.stage {label : α → ι} {c : Conveyor α ι} (h : c.Labelled label) :
    (c.stage label).Labelled label := by
  unfold Conveyor.stage
  split
  · exact h
  · refine ⟨fun e he => ?_, h.2⟩
    rcases List.mem_append.mp he with he | he
    · exact h.1 e he
    · rw [List.mem_singleton.mp he]

theorem Labelled.deliver {label : α → ι} {c : Conveyor α ι} (h : c.Labelled label) :
    c.deliver.Labelled label := by
  unfold Conveyor.deliver
  split
  · exact h
  · next e rest hq =>
    refine ⟨fun e' he' => h.1 e' (by rw [hq]; exact List.mem_cons_of_mem _ he'), fun e' he' => ?_⟩
    rcases List.mem_append.mp he' with he' | he'
    · exact h.2 e' he'
    · rw [List.mem_singleton.mp he']
      exact h.1 e (by rw [hq]; exact List.mem_cons_self ..)

/-! ### Running empty -/

theorem staged_iterate_stage (label : α → ι) (n : Nat) (c : Conveyor α ι) :
    ((stage label)^[n] c).staged = c.staged.drop n := by
  induction n generalizing c with
  | zero => rfl
  | succ n ih =>
    rw [Function.iterate_succ_apply, ih]
    unfold stage
    split
    · next h => simp [h]
    · next h => simp [h]

theorem queue_iterate_stage (label : α → ι) (n : Nat) (c : Conveyor α ι) :
    ((stage label)^[n] c).queue.length ≤ c.queue.length + c.staged.length := by
  induction n generalizing c with
  | zero => exact Nat.le_add_right _ _
  | succ n ih =>
    rw [Function.iterate_succ_apply]
    apply Nat.le_trans (ih _)
    unfold stage
    split
    · exact Nat.le_refl _
    · next h =>
      simp [h]
      omega

theorem staged_iterate_deliver (n : Nat) (c : Conveyor α ι) : (deliver^[n] c).staged = c.staged := by
  induction n generalizing c with
  | zero => rfl
  | succ n ih =>
    rw [Function.iterate_succ_apply, ih]
    unfold deliver
    split <;> rfl

theorem queue_iterate_deliver (n : Nat) (c : Conveyor α ι) :
    (deliver^[n] c).queue = c.queue.drop n := by
  induction n generalizing c with
  | zero => rfl
  | succ n ih =>
    rw [Function.iterate_succ_apply, ih]
    unfold deliver
    split
    · next h => simp [h]
    · next h => simp [h]

theorem items_iterate_stage (label : α → ι) (n : Nat) (c : Conveyor α ι) :
    ((stage label)^[n] c).items = c.items := by
  induction n generalizing c with
  | zero => rfl
  | succ n ih => rw [Function.iterate_succ_apply, ih, items_stage]

theorem items_iterate_deliver (n : Nat) (c : Conveyor α ι) : (deliver^[n] c).items = c.items := by
  induction n generalizing c with
  | zero => rfl
  | succ n ih => rw [Function.iterate_succ_apply, ih, items_deliver]

/-- Enough moves of either kind take everything off. -/
theorem delivered_of_moves (label : α → ι) {n m : Nat} (c : Conveyor α ι) (hn : c.staged.length ≤ n)
    (hm : c.queue.length + c.staged.length ≤ m) :
    (deliver^[m] ((stage label)^[n] c)).delivered.map (·.1) = c.items := by
  have hitems : (deliver^[m] ((stage label)^[n] c)).items = c.items := by
    rw [items_iterate_deliver, items_iterate_stage]
  have hstaged : (deliver^[m] ((stage label)^[n] c)).staged = [] := by
    rw [staged_iterate_deliver, staged_iterate_stage, List.drop_of_length_le hn]
  have hqueue : (deliver^[m] ((stage label)^[n] c)).queue = [] := by
    rw [queue_iterate_deliver]
    exact List.drop_of_length_le (Nat.le_trans (queue_iterate_stage label n c) hm)
  rw [← hitems, items, hstaged, hqueue]
  simp

end Conveyor

end Hsim.Lib
