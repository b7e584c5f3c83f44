import Mathlib.Algebra.Order.Group.Multiset
import Mathlib.Data.Multiset.UnionInter
import Mathlib.Tactic.Abel

/-! Object pools.

A pool keeps the objects that have been given back and hands out the last of
them first; with none there it makes a new object. Objects are never destroyed,
so an object is free or out, and no two that are out are the same
(`Balanced`). -/
namespace Hsim.Lib

variable {α : Type*}

/-- The objects given back, the last one in front, and all objects ever made. -/
structure Pool (α : Type*) where
  freeList : List α := []
  made : List α := []

namespace Pool

/-- Takes an object back. -/
def free (m : Pool α) (a : α) : Pool α := {m with freeList := a :: m.freeList}

section
variable [DecidableEq α]

/-- The pool after it has handed out an object, `none` if it would hand out another. A new
object is none of its own and none of those that others have taken. -/
def allocate (m : Pool α) (taken : List α) (a : α) : Option (Pool α) :=
  match m.freeList with
  | b :: rest => if a = b then some {m with freeList := rest} else none
  | [] => if a ∈ m.made ∨ a ∈ taken then none else some {m with made := a :: m.made}

/-- One object after the other. -/
def allocateAll (m : Pool α) (taken : List α) : List α → Option (Pool α)
  | [] => some m
  | a :: rest => (m.allocate taken a).bind fun m' => m'.allocateAll taken rest

/-- What a pool hands out it had free or has made. -/
structure Handed (m m' : Pool α) (taken : List α) (out new : List α) : Prop where
  made : m'.made = new ++ m.made
  nodup : new.Nodup
  fresh : ∀ a ∈ new, a ∉ m.made ∧ a ∉ taken
  left : m'.freeList <:+ m.freeList
  moved : (m.freeList : Multiset α) + new = m'.freeList + out

theorem allocate_handed {m m' : Pool α} {taken : List α} {a : α} (h : m.allocate taken a = some m') :
    ∃ new, Handed m m' taken [a] new := by
  unfold allocate at h
  split at h
  · next b rest hq =>
    obtain ⟨hab, h⟩ := Option.ite_none_right_eq_some.mp h
    cases h
    subst hab
    refine ⟨[], rfl, List.nodup_nil, by simp, ?_, ?_⟩
    · rw [hq]
      exact List.suffix_cons a rest
    · rw [hq, ← Multiset.cons_coe, Multiset.coe_nil, add_zero, Multiset.coe_singleton, add_comm,
        Multiset.singleton_add]
  · next hq =>
    obtain ⟨hnew, h⟩ := Option.ite_none_left_eq_some.mp h
    cases h
    rw [not_or] at hnew
    exact ⟨[a], rfl, List.nodup_singleton a, by simpa using hnew, List.suffix_refl _, by simp [hq]⟩

theorem allocateAll_handed {m m' : Pool α} {taken out : List α}
    (h : m.allocateAll taken out = some m') : ∃ new, Handed m m' taken out new := by
  induction out generalizing m with
  | nil =>
    cases h
    exact ⟨[], rfl, List.nodup_nil, by simp, List.suffix_refl _, rfl⟩
  | cons a rest ih =>
    obtain ⟨m₁, hfirst, hrest⟩ := Option.bind_eq_some_iff.mp h
    obtain ⟨new, hnew⟩ := allocate_handed hfirst
    obtain ⟨more, hmore⟩ := ih hrest
    have hfresh : ∀ b ∈ more, b ∉ new ∧ b ∉ m.made := by
      intro b hb
      have hb' := (hmore.fresh b hb).1
      rw [hnew.made, List.mem_append, not_or] at hb'
      exact hb'
    refine ⟨more ++ new, ?_, ?_, ?_, hmore.left.trans hnew.left, ?_⟩
    · rw [hmore.made, hnew.made, List.append_assoc]
    · exact hmore.nodup.append hnew.nodup fun b hb hb' => (hfresh b hb).1 hb'
    · intro b hb
      rcases List.mem_append.mp hb with hb | hb
      · exact ⟨(hfresh b hb).2, (hmore.fresh b hb).2⟩
      · exact hnew.fresh b hb
    · have hfirst' := hnew.moved
      have hrest' := hmore.moved
      calc (m.freeList : Multiset α) + (more ++ new : List α)
          = (m.freeList + new) + more := by
            rw [← Multiset.coe_add]
            abel
        _ = (m₁.freeList + more) + [a] := by
            rw [hfirst']
            abel
        _ = m'.freeList + (a :: rest : List α) := by
            rw [hrest', Multiset.coe_singleton, ← Multiset.cons_coe a rest, ← Multiset.singleton_add]
            abel

end

/-- The pool's objects are the free ones and those that are out, and no two are the same. -/
structure Balanced (m : Pool α) (out : Multiset α) : Prop where
  nodup : m.made.Nodup
  whole : (m.freeList : Multiset α) + out = m.made

section
variable {m m' : Pool α} {out : Multiset α} {a : α}

theorem balanced_empty : Balanced ({} : Pool α) 0 := ⟨List.nodup_nil, rfl⟩

theorem Balanced.distinct (h : m.Balanced out) : ((m.freeList : Multiset α) + out).Nodup := by
  rw [h.whole]
  exact Multiset.coe_nodup.mpr h.nodup

theorem Balanced.mem_made (h : m.Balanced out) : a ∈ m.made ↔ a ∈ m.freeList ∨ a ∈ out := by
  rw [← Multiset.mem_coe, ← h.whole, Multiset.mem_add, Multiset.mem_coe]

theorem Balanced.free (h : m.Balanced (a ::ₘ out)) : (m.free a).Balanced out := by
  refine ⟨h.nodup, ?_⟩
  have hwhole := h.whole
  rw [Multiset.add_cons, ← Multiset.cons_add] at hwhole
  exact hwhole

theorem Balanced.handed [DecidableEq α] (h : m.Balanced out) {taken more new : List α}
    (hh : Handed m m' taken more new) : m'.Balanced (out + more) := by
  refine ⟨?_, ?_⟩
  · rw [hh.made]
    exact hh.nodup.append h.nodup fun b hb => (hh.fresh b hb).1
  · calc (m'.freeList : Multiset α) + (out + more)
        = (m'.freeList + more) + out := by abel
      _ = (m.freeList + out) + new := by
          rw [← hh.moved]
          abel
      _ = m'.made := by
          rw [h.whole, hh.made, ← Multiset.coe_add, add_comm]

end

end Pool

end Hsim.Lib
