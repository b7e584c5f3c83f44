import Hsim.Lib.Chain
import Hsim.Lib.Pool

/-! The memory manager, mm.

The manager keeps the payloads that have been freed in access nodes, which it
never destroys. All its nodes are in one doubly linked chain, and `free_list` and
`empties` are the two sides of one cursor in it: an allocation moves the cursor
forward over a node, whose payload it hands out, and a free moves it back over a
node, which takes the payload; when no node is left before the cursor, the free
puts a new one there. -/
namespace Hsim.Mm

open Lib

variable {κ π : Type}

/-- `mm::access`, the value of which is `trans`, not set in a node that is new. -/
abbrev Access (κ π : Type) := Node κ (Option π)

/-- `mm`: where its access nodes are, and its pointers into them. -/
structure State (κ π : Type) where
  heap : NodeHeap κ (Option π) := fun _ => none
  freeList : Option κ := none
  empties : Option κ := none

/-- The payload handed out, a new one if none is free; `none` where the code would read a node that is
not there or a payload that is not set. -/
def allocate (m : State κ π) (new : π) : Option (π × State κ π) :=
  match m.freeList with
  | some node => do
    let access ← m.heap node
    let ptr ← access.value
    some (ptr, {m with
      empties := some node
      freeList := access.next})
  | none => some (new, m)

section
variable [DecidableEq κ]

/-- A new access node in front of `free_list`. -/
def grow (m : State κ π) (new : κ) : Option (State κ π) :=
  let heap := m.heap.put new {value := none, next := m.freeList, prev := none}
  match m.freeList with
  | none => some {m with
      heap := heap
      empties := some new}
  | some node => do
    let heap ← heap.modify node ({· with prev := some new})
    some {m with
      heap := heap
      empties := some new}

/-- The node before `free_list` takes the payload and becomes the first free one. -/
def store (m : State κ π) (node : κ) (trans : π) : Option (State κ π) := do
  let heap ← m.heap.modify node ({· with value := some trans})
  let access ← heap node
  some {
    heap := heap
    freeList := some node
    empties := access.prev}

/-- Takes a payload back; `new` is the access node that is made if none is empty. -/
def free (m : State κ π) (trans : π) (new : κ) : Option (State κ π) :=
  match m.empties with
  | some node => store m node trans
  | none => (grow m new).bind fun m => store m new trans

end

/-- The nodes are a chain, in which `free_list` is what stands after a cursor and `empties` what stands
before it; the nodes after it hold the payloads that wait, in their order. -/
structure Shape (m : State κ π) (before after : List κ) (waiting : List π) : Prop where
  chain : Chain m.heap (before ++ after)
  freeList : m.freeList = after.head?
  empties : m.empties = before.getLast?
  holds : m.heap.values after = waiting.map fun trans => some (some trans)

namespace Shape
variable {m : State κ π} {before after : List κ} {waiting : List π} {trans : π}

theorem empty : Shape ({} : State κ π) [] [] [] := ⟨Chain.empty, rfl, rfl, rfl⟩

theorem freeList_prev (h : Shape m before after waiting) {node : κ} (hnode : m.freeList = some node) :
    ∃ access, m.heap node = some access ∧ access.prev = m.empties := by
  rw [h.freeList, List.head?_eq_some_iff] at hnode
  obtain ⟨rest, rfl⟩ := hnode
  obtain ⟨value, hheap⟩ := h.chain.node_after
  exact ⟨_, hheap, h.empties.symm⟩

theorem empties_next (h : Shape m before after waiting) {node : κ} (hnode : m.empties = some node) :
    ∃ access, m.heap node = some access ∧ access.next = m.freeList := by
  rw [h.empties, List.getLast?_eq_some_iff] at hnode
  obtain ⟨rest, rfl⟩ := hnode
  obtain ⟨value, hheap⟩ := h.chain.node_before
  exact ⟨_, hheap, h.freeList.symm⟩

/-- The cursor goes forward: the payload that was freed last is handed out. -/
theorem allocate (h : Shape m before after (trans :: waiting)) (new : π) :
    ∃ node rest m', after = node :: rest ∧ Mm.allocate m new = some (trans, m') ∧
      Shape m' (before ++ [node]) rest waiting := by
  obtain ⟨hchain, hfree, hempties, hholds⟩ := h
  cases after with
  | nil => simp [NodeHeap.values] at hholds
  | cons node rest =>
    obtain ⟨value, hnode⟩ := hchain.node_after
    simp only [NodeHeap.values, List.map_cons, hnode, Option.map_some, List.cons.injEq,
      Option.some.injEq] at hholds
    obtain ⟨rfl, hrest⟩ := hholds
    refine ⟨node, rest, {m with empties := some node, freeList := rest.head?}, rfl, ?_, ?_, rfl, ?_,
      hrest⟩
    · simp [Mm.allocate, hfree, hnode]
    · simpa using hchain
    · simp

/-- With none waiting a new payload is handed out. -/
theorem allocate_new (h : Shape m before after ([] : List π)) (new : π) :
    Mm.allocate m new = some (new, m) := by
  have hafter : after = [] := by simpa [NodeHeap.values] using h.holds
  have hfree := h.freeList
  rw [hafter, List.head?_nil] at hfree
  simp [Mm.allocate, hfree]

variable [DecidableEq κ] {node : κ}

/-- The cursor goes back: the node before it takes the payload. -/
theorem store (h : Shape m (before ++ [node]) after waiting) (trans : π) :
    ∃ m', Mm.store m node trans = some m' ∧ Shape m' before (node :: after) (trans :: waiting) := by
  obtain ⟨value, hnode⟩ := h.chain.node_before
  have hnot : node ∉ after := by
    have hnodup := h.chain.nodup
    rw [List.append_assoc] at hnodup
    exact (List.nodup_cons.mp hnodup.of_append_right).1
  refine ⟨_, by rw [Mm.store, NodeHeap.modify_eq hnode]; simp; rfl, ?_, rfl, rfl, ?_⟩
  · simpa using h.chain.store hnode (some trans)
  · have hheld := NodeHeap.values_put_other m.heap
      (⟨some trans, after.head?, before.getLast?⟩ : Access κ π) hnot
    have hholds := h.holds
    simp only [NodeHeap.values] at hheld hholds
    simp [NodeHeap.values, hheld, hholds]

/-- A new node stands before the cursor. -/
theorem grow (h : Shape m [] after waiting) (hnew : m.heap node = none) :
    ∃ m', Mm.grow m node = some m' ∧ Shape m' [node] after waiting := by
  have hnot := h.chain.not_mem_of_none hnew
  cases after with
  | nil =>
    have hfree : m.freeList = none := h.freeList
    refine ⟨{m with heap := m.heap.put node ⟨none, none, none⟩, empties := some node}, ?_, ?_, hfree,
      rfl, h.holds⟩
    · simp [Mm.grow, hfree]
    · exact h.chain.pushFirst node none
  | cons first rest =>
    obtain ⟨value, hfirst⟩ := h.chain.linked [] first rest rfl
    have hne : first ≠ node := fun heq => hnot (by simp [heq])
    have hput := (m.heap.put_other (⟨none, some first, none⟩ : Access κ π) hne).trans hfirst
    have hfree : m.freeList = some first := h.freeList
    refine ⟨{m with
      heap := (m.heap.put node ⟨none, some first, none⟩).put first ⟨value, rest.head?, some node⟩
      empties := some node}, ?_, ?_, hfree, rfl, ?_⟩
    · simp [Mm.grow, hfree, NodeHeap.modify_eq hput]
    · exact h.chain.pushFront hnew hfirst none
    · have hlink := NodeHeap.values_put_link (m := ⟨value, rest.head?, some node⟩) hput rfl
        (first :: rest)
      exact hlink.trans ((NodeHeap.values_put_other _ _ hnot).trans h.holds)

/-- A free, of which the payload is the next to be handed out. -/
theorem free (h : Shape m before after waiting) (hnew : m.heap node = none) (trans : π) :
    ∃ m' before' after', Mm.free m trans node = some m' ∧
      Shape m' before' after' (trans :: waiting) := by
  rcases List.eq_nil_or_concat' before with rfl | ⟨before, last, rfl⟩
  · obtain ⟨grown, hgrow, hgrown⟩ := h.grow hnew
    have hcursor : Shape grown ([] ++ [node]) after waiting := hgrown
    obtain ⟨m', hstore, hm'⟩ := hcursor.store trans
    refine ⟨m', _, _, ?_, hm'⟩
    rw [Mm.free, h.empties]
    simp [hgrow, hstore]
  · obtain ⟨m', hstore, hm'⟩ := h.store trans
    refine ⟨m', _, _, ?_, hm'⟩
    rw [Mm.free, h.empties]
    simp [hstore]

end Shape

/-- A call, and the address `new` gives if the call makes an object. -/
inductive Call (κ π : Type)
  | allocate (new : π)
  | free (trans : π) (new : κ)

/-- A manager with the payloads that are handed out, those that have been freed and not handed out since,
the last one first, and all that were ever made. -/
structure World (κ π : Type) where
  mm : State κ π := {}
  out : List π := []
  waiting : List π := []
  made : List π := []

namespace World
variable {w : World κ π} {t new : π} {node : κ}

/-- The payloads of the manager, free and made. -/
def pool (w : World κ π) : Pool π := {
  freeList := w.waiting
  made := w.made}

/-- The nodes have their shape, and no payload is in two places. -/
structure Kept (w : World κ π) : Prop where
  shape : ∃ before after, Shape w.mm before after w.waiting
  balanced : w.pool.Balanced w.out

theorem kept_empty : ({} : World κ π).Kept := ⟨⟨[], [], Shape.empty⟩, Pool.balanced_empty⟩

/-- What is handed out was not. -/
theorem Kept.distinct (h : w.Kept) (hnew : new ∉ w.made) : w.waiting.headD new ∉ w.out := by
  intro hout
  cases hwaiting : w.waiting with
  | nil =>
    rw [hwaiting] at hout
    exact hnew (h.balanced.mem_made.mpr (.inr hout))
  | cons t rest =>
    have hnodup := h.balanced.distinct
    rw [hwaiting] at hout
    simp only [pool, hwaiting, Multiset.coe_add, Multiset.coe_nodup] at hnodup
    exact List.disjoint_of_nodup_append hnodup List.mem_cons_self hout

variable [DecidableEq κ] [DecidableEq π]

/-- A payload that is handed out waits no longer; if none waits it is one that has just been made. -/
def step (w : World κ π) : Call κ π → Option (World κ π)
  | .allocate new => (Mm.allocate w.mm new).map fun (ptr, mm) => {
      mm := mm
      out := ptr :: w.out
      waiting := w.waiting.erase ptr
      made := if w.mm.freeList.isSome then w.made else new :: w.made}
  | .free t new => (Mm.free w.mm t new).map fun mm => {w with
      mm := mm
      out := w.out.erase t
      waiting := t :: w.waiting}

/-- A payload is freed while it is handed out, and `new` gives an address not in use. -/
def Permits (w : World κ π) : Call κ π → Prop
  | .allocate new => new ∉ w.made
  | .free t new => t ∈ w.out ∧ (w.mm.heap new).isNone

instance (w : World κ π) : (c : Call κ π) → Decidable (w.Permits c)
  | .allocate new => inferInstanceAs (Decidable (new ∉ w.made))
  | .free t new => inferInstanceAs (Decidable (t ∈ w.out ∧ (w.mm.heap new).isNone = true))

/-- One call after the other, `none` if one of them reads what is not there. -/
def run (w : World κ π) : List (Call κ π) → Option (World κ π)
  | [] => some w
  | c :: rest => (w.step c).bind fun w => w.run rest

/-- Each call is permitted where it is made. -/
def PermitsAll (w : World κ π) : List (Call κ π) → Prop
  | [] => True
  | c :: rest => w.Permits c ∧ ∀ w' ∈ w.step c, w'.PermitsAll rest

instance decidablePermitsAll : (w : World κ π) → (calls : List (Call κ π)) →
    Decidable (w.PermitsAll calls)
  | _, [] => inferInstanceAs (Decidable True)
  | w, c :: rest =>
    have := fun w' => decidablePermitsAll w' rest
    inferInstanceAs (Decidable (w.Permits c ∧ ∀ w' ∈ w.step c, w'.PermitsAll rest))

/-- What the next call does, whichever it is: an allocation hands out the payload that was freed last, or
a new one if none waits, and never one that is handed out. -/
structure Safe (w : World κ π) : Prop extends Kept w where
  allocates : ∀ new ∉ w.made, ∃ mm, Mm.allocate w.mm new = some (w.waiting.headD new, mm)
  distinct : ∀ new ∉ w.made, w.waiting.headD new ∉ w.out
  frees : ∀ t ∈ w.out, ∀ new, w.mm.heap new = none → ∃ mm, Mm.free w.mm t new = some mm
  before : ∀ node ∈ w.mm.freeList, ∃ access, w.mm.heap node = some access ∧ access.prev = w.mm.empties
  after : ∀ node ∈ w.mm.empties, ∃ access, w.mm.heap node = some access ∧ access.next = w.mm.freeList

/-- An allocation is one of the pool. -/
theorem Kept.allocate (h : w.Kept) (hnew : new ∉ w.made) :
    ∃ mm w', Mm.allocate w.mm new = some (w.waiting.headD new, mm) ∧ w.step (.allocate new) = some w' ∧
      w'.out = w.waiting.headD new :: w.out ∧ w.pool.allocate [] (w.waiting.headD new) = some w'.pool ∧
      ∃ before after, Shape w'.mm before after w'.waiting := by
  obtain ⟨before, after, hshape⟩ := h.shape
  cases hwaiting : w.waiting with
  | nil =>
    rw [hwaiting] at hshape
    have hallocate := hshape.allocate_new new
    have hafter : after = [] := by simpa [NodeHeap.values] using hshape.holds
    have hfree := hshape.freeList
    rw [hafter, List.head?_nil] at hfree
    refine ⟨w.mm, {w with out := new :: w.out, made := new :: w.made}, hallocate, ?_, rfl, ?_, before,
      after, ?_⟩
    · simp [step, hallocate, hfree, hwaiting]
    · simp [Pool.allocate, pool, hwaiting, hnew]
    · rw [hwaiting]
      exact hshape
  | cons t rest =>
    rw [hwaiting] at hshape
    obtain ⟨node, after, mm, rfl, hallocate, hmm⟩ := hshape.allocate new
    have hfree := hshape.freeList
    refine ⟨mm, {w with mm := mm, out := t :: w.out, waiting := rest}, hallocate, ?_, rfl, ?_, _, _, hmm⟩
    · simp [step, hallocate, hfree, hwaiting]
    · simp [Pool.allocate, pool, hwaiting]

/-- A free is one of the pool. -/
theorem Kept.free (h : w.Kept) (ht : t ∈ w.out) (hnode : w.mm.heap node = none) :
    ∃ mm w', Mm.free w.mm t node = some mm ∧ w.step (.free t node) = some w' ∧ w'.Kept := by
  obtain ⟨before, after, hshape⟩ := h.shape
  obtain ⟨mm, before', after', hfree, hmm⟩ := hshape.free hnode t
  refine ⟨mm, _, hfree, by rw [step, hfree]; rfl, ⟨before', after', hmm⟩, ?_⟩
  have hout : (w.out : Multiset π) = t ::ₘ (w.out.erase t : List π) := by
    rw [Multiset.cons_coe, Multiset.coe_eq_coe]
    exact List.perm_cons_erase ht
  have hbalanced := h.balanced
  rw [hout] at hbalanced
  exact hbalanced.free

theorem Kept.step (h : w.Kept) {c : Call κ π} (hc : w.Permits c) :
    ∃ w', w.step c = some w' ∧ w'.Kept := by
  cases c with
  | allocate new =>
    obtain ⟨-, w', -, hstep, hout, hpool, hshape⟩ := h.allocate hc
    obtain ⟨more, hhanded⟩ := Pool.allocate_handed hpool
    refine ⟨w', hstep, hshape, ?_⟩
    have hbalanced := h.balanced.handed hhanded
    rw [hout, ← Multiset.cons_coe, ← Multiset.singleton_add, add_comm]
    exact hbalanced
  | free t node =>
    obtain ⟨-, w', -, hstep, hkept⟩ := h.free hc.1 (Option.isNone_iff_eq_none.mp hc.2)
    exact ⟨w', hstep, hkept⟩

theorem Kept.run (h : w.Kept) {calls : List (Call κ π)} (hcalls : w.PermitsAll calls) :
    ∃ w', w.run calls = some w' ∧ w'.Kept := by
  induction calls generalizing w with
  | nil => exact ⟨w, rfl, h⟩
  | cons c rest ih =>
    obtain ⟨w₁, hstep, hkept⟩ := h.step hcalls.1
    obtain ⟨w', hrun, hw'⟩ := ih hkept (hcalls.2 w₁ hstep)
    exact ⟨w', by rw [World.run, hstep]; exact hrun, hw'⟩

theorem Kept.safe (h : w.Kept) : w.Safe where
  toKept := h
  allocates := fun new hnew => by
    obtain ⟨mm, -, hallocate, -⟩ := h.allocate hnew
    exact ⟨mm, hallocate⟩
  distinct := fun new hnew => h.distinct hnew
  frees := fun t ht new hnew => by
    obtain ⟨mm, -, hfree, -⟩ := h.free ht hnew
    exact ⟨mm, hfree⟩
  before := fun node hnode => by
    obtain ⟨_, _, hshape⟩ := h.shape
    exact hshape.freeList_prev hnode
  after := fun node hnode => by
    obtain ⟨_, _, hshape⟩ := h.shape
    exact hshape.empties_next hnode

/-- **The memory manager is safe.** After any calls that are permitted, none of which reads what is not
there, the access nodes are a chain in which `empties` is what stands before `free_list`; the next
allocation hands out the payload that was freed last, a new one only if none waits, and never one
that is handed out. -/
theorem run_safe (calls : List (Call κ π)) (hcalls : ({} : World κ π).PermitsAll calls) :
    ∃ w, ({} : World κ π).run calls = some w ∧ w.Safe := by
  obtain ⟨w, hrun, hkept⟩ := kept_empty.run hcalls
  exact ⟨w, hrun, hkept.safe⟩

/-- Two payloads that are freed and come back, the last one first, before there is a third. -/
def threePayloads : List (Call Nat Nat) :=
  [.allocate 1, .allocate 2, .free 1 11, .free 2 12, .allocate 3, .free 2 13, .allocate 3, .allocate 3,
    .allocate 3]

theorem run_safe_threePayloads : ∃ w, ({} : World Nat Nat).run threePayloads = some w ∧ w.Safe :=
  run_safe threePayloads (by decide)

end World

end Hsim.Mm
