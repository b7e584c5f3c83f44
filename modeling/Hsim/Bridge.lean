import Hsim.Lib.Serial
import Hsim.Payload
import Mathlib.Algebra.BigOperators.Group.Finset.Basic
import Mathlib.Algebra.Order.BigOperators.Group.Multiset
import Mathlib.Data.Fintype.BigOperators
import Mathlib.Tactic.Abel

/-! The bridge between TLM transactions and the cycle-level memory simulator.

Memory transactions wait per channel until the memory system takes them, then
in a table keyed by address until it calls back. PIM commands do not reach the
memory system at all: the bridge keeps one compute engine, and a command's
address is its latency in nanoseconds. Everything finished leaves through one
outgoing queue.

The memory system itself is a parameter: what it answers to a tick is an
argument (`Answers`), and any answer is allowed. -/
namespace Hsim.Bridge

/-- `MAX_CHANNEL`. -/
abbrev maxChannel : Nat := 16

instance : NeZero maxChannel := ⟨by decide⟩

/-- What the bridge reads of its memory system's configuration. -/
structure MemorySystem where
  channels : Nat
  getChannel : UInt64 → Fin maxChannel

/-- What the memory system does during one `ClockTick`: the callbacks it makes, in
order (`true` for a write), and the channels at which it then takes a transaction. -/
structure Answers where
  callbacks : List (Bool × UInt64) := []
  accepts : Fin maxChannel → Bool := fun _ => false

structure State where
  incomingQueue : Fin maxChannel → List Payload := fun _ => []
  outgoingQueue : List Payload := []
  readDone : List (UInt64 × Payload) := []
  writeDone : List (UInt64 × Payload) := []
  pimComputeQueue : List (Time × Payload) := []
  lastComputeStartTime : Time := 0
  lastComputeDoneTime : Time := 0

/-- The scan of `ReadCallBack` and `WriteCallBack`: what is moved out and what stays.
The index advances after an erase, so the entry behind a match is not looked at. -/
def callBack (addr : UInt64) : List (UInt64 × Payload) → List Payload × List (UInt64 × Payload)
  | [] => ([], [])
  | e :: rest =>
    if e.1 = addr then
      match rest with
      | [] => ([e.2], [])
      | skipped :: rest =>
        let (moved, kept) := callBack addr rest
        (e.2 :: moved, skipped :: kept)
    else
      let (moved, kept) := callBack addr rest
      (moved, e :: kept)

theorem callBack_other {addr : UInt64} {e : UInt64 × Payload} (h : ¬e.1 = addr)
    (rest : List (UInt64 × Payload)) :
    callBack addr (e :: rest) = ((callBack addr rest).1, e :: (callBack addr rest).2) := by
  rw [callBack.eq_def]
  simp only [h, if_false]

def readCallBack (b : State) (addr : UInt64) : State :=
  let (moved, kept) := callBack addr b.readDone
  {b with outgoingQueue := b.outgoingQueue ++ moved, readDone := kept}

def writeCallBack (b : State) (addr : UInt64) : State :=
  let (moved, kept) := callBack addr b.writeDone
  {b with outgoingQueue := b.outgoingQueue ++ moved, writeDone := kept}

/-- `memory_system_.ClockTick()`, seen from the bridge. -/
def callBacks (b : State) (calls : List (Bool × UInt64)) : State :=
  calls.foldl (fun b c => if c.1 then writeCallBack b c.2 else readCallBack b c.2) b

/-- One channel's turn: its front transaction, if the memory system takes it. -/
def offer (answers : Answers) (b : State) (c : Fin maxChannel) : State :=
  match b.incomingQueue c with
  | [] => b
  | t :: rest =>
    if answers.accepts c then
      let b := {b with incomingQueue := Function.update b.incomingQueue c rest}
      if t.command = .write then {b with writeDone := b.writeDone ++ [(t.address, t)]}
      else {b with readDone := b.readDone ++ [(t.address, t)]}
    else b

/-- The compute commands whose time has come move to the outgoing queue. -/
def drainCompute (b : State) (now : Time) : State :=
  {b with
    outgoingQueue := b.outgoingQueue ++ (Lib.due now b.pimComputeQueue).map (·.2)
    pimComputeQueue := Lib.notDue now b.pimComputeQueue}

def clockTick (m : MemorySystem) (b : State) (now : Time) (answers : Answers) : State :=
  let b := callBacks b answers.callbacks
  let b := ((List.finRange maxChannel).filter (·.val < m.channels)).foldl (offer answers) b
  drainCompute b now

/-- The engine time a compute command takes. -/
def computeDelay (t : Payload) : Time := ns t.address.toNat + halfNs

def sendCommand (m : MemorySystem) (b : State) (now : Time) (t : Payload) : State :=
  if t.command = .pim then
    let actualStart := max now b.lastComputeDoneTime
    let computeDoneTime := actualStart + computeDelay t
    {b with
      pimComputeQueue := b.pimComputeQueue ++ [(computeDoneTime, t)]
      lastComputeStartTime := actualStart
      lastComputeDoneTime := computeDoneTime}
  else
    let channel := m.getChannel t.address
    {b with incomingQueue :=
      Function.update b.incomingQueue channel (b.incomingQueue channel ++ [t])}

def getCompletedCommand (b : State) : Option Payload × State :=
  match b.outgoingQueue with
  | [] => (none, b)
  | t :: rest => (some t, {b with outgoingQueue := rest})

/-! ### What is inside

The transactions handed over and not yet given back, wherever they wait. -/

def contents (b : State) : Multiset Payload :=
  ∑ c, (b.incomingQueue c : Multiset Payload) + (b.readDone.map (·.2) : List Payload) +
    (b.writeDone.map (·.2) : List Payload) + (b.pimComputeQueue.map (·.2) : List Payload) +
    (b.outgoingQueue : Multiset Payload)

@[simp] theorem contents_empty : contents {} = 0 := by
  simp [contents]

theorem callBack_perm (addr : UInt64) (l : List (UInt64 × Payload)) :
    ((callBack addr l).1 : Multiset Payload) + ((callBack addr l).2.map (·.2) : List Payload) =
      (l.map (·.2) : List Payload) := by
  induction l using callBack.induct addr with
  | case1 => simp [callBack]
  | case2 e h => simp [callBack, h]
  | case3 e h skipped rest _ _ _ ih =>
    simp only [callBack, h, if_true, List.map_cons, ← Multiset.cons_coe, Multiset.cons_add,
      Multiset.add_cons, ih]
    exact Multiset.cons_swap _ _ _
  | case4 e rest h _ _ _ ih =>
    simp only [callBack_other h, List.map_cons, ← Multiset.cons_coe, Multiset.add_cons, ih]

@[simp] theorem contents_readCallBack (b : State) (addr : UInt64) :
    contents (readCallBack b addr) = contents b := by
  simp only [contents, readCallBack, ← callBack_perm addr b.readDone, ← Multiset.coe_add]
  abel

@[simp] theorem contents_writeCallBack (b : State) (addr : UInt64) :
    contents (writeCallBack b addr) = contents b := by
  simp only [contents, writeCallBack, ← callBack_perm addr b.writeDone, ← Multiset.coe_add]
  abel

@[simp] theorem contents_callBacks (b : State) (calls : List (Bool × UInt64)) :
    contents (callBacks b calls) = contents b := by
  induction calls generalizing b with
  | nil => rfl
  | cons c calls ih =>
    simp only [callBacks, List.foldl_cons]
    rw [← callBacks, ih]
    cases c.1 <;> simp

/-- Replacing one channel's queue replaces its summand. -/
theorem sum_update (q : Fin maxChannel → List Payload) (c : Fin maxChannel) (l : List Payload) :
    (∑ i, (Function.update q c l i : Multiset Payload)) + (q c : Multiset Payload) =
      ∑ i, (q i : Multiset Payload) + (l : Multiset Payload) := by
  rw [← Finset.add_sum_erase _ _ (Finset.mem_univ c), ← Finset.add_sum_erase Finset.univ
    (fun i => (q i : Multiset Payload)) (Finset.mem_univ c)]
  have hrest : ∑ i ∈ Finset.univ.erase c, (Function.update q c l i : Multiset Payload) =
      ∑ i ∈ Finset.univ.erase c, (q i : Multiset Payload) := by
    refine Finset.sum_congr rfl fun i hi => ?_
    rw [Function.update_of_ne (Finset.ne_of_mem_erase hi)]
  rw [hrest, Function.update_self]
  abel

@[simp] theorem contents_offer (answers : Answers) (b : State) (c : Fin maxChannel) :
    contents (offer answers b c) = contents b := by
  unfold offer
  cases hq : b.incomingQueue c with
  | nil => rfl
  | cons t rest =>
    have hsum := sum_update b.incomingQueue c rest
    rw [hq, ← Multiset.cons_coe] at hsum
    have hsum' : (∑ i, (Function.update b.incomingQueue c rest i : Multiset Payload)) + {t} =
        ∑ i, (b.incomingQueue i : Multiset Payload) := by
      apply add_right_cancel (b := (rest : Multiset Payload))
      rw [← hsum, add_assoc, Multiset.singleton_add]
    simp only
    split
    · split <;>
      · simp only [contents, List.map_append, List.map_cons, List.map_nil, ← Multiset.coe_add,
          Multiset.coe_singleton, ← hsum']
        abel
    · rfl

@[simp] theorem contents_drainCompute (b : State) (now : Time) :
    contents (drainCompute b now) = contents b := by
  have hsplit := congrArg (fun l => ((l.map (·.2) : List Payload) : Multiset Payload))
    (Lib.due_append_notDue now b.pimComputeQueue)
  simp only [List.map_append, ← Multiset.coe_add] at hsplit
  simp only [contents, drainCompute, ← Multiset.coe_add, ← hsplit]
  abel

/-- A tick moves transactions; it neither loses nor makes one. -/
@[simp] theorem contents_clockTick (m : MemorySystem) (b : State) (now : Time) (answers : Answers) :
    contents (clockTick m b now answers) = contents b := by
  have hoffers : ∀ (cs : List (Fin maxChannel)) (b : State),
      contents (cs.foldl (offer answers) b) = contents b := by
    intro cs
    induction cs with
    | nil => exact fun _ => rfl
    | cons c cs ih =>
      intro b
      rw [List.foldl_cons, ih, contents_offer]
  rw [clockTick, contents_drainCompute, hoffers, contents_callBacks]

@[simp] theorem contents_sendCommand (m : MemorySystem) (b : State) (now : Time) (t : Payload) :
    contents (sendCommand m b now t) = t ::ₘ contents b := by
  unfold sendCommand
  split
  · simp only [contents, List.map_append, List.map_cons, List.map_nil, ← Multiset.coe_add,
      Multiset.coe_singleton, ← Multiset.singleton_add]
    abel
  · have hsum := sum_update b.incomingQueue (m.getChannel t.address)
      (b.incomingQueue (m.getChannel t.address) ++ [t])
    rw [← Multiset.coe_add, ← add_assoc, add_right_comm] at hsum
    have hsum' := add_right_cancel hsum
    simp only [contents, hsum', Multiset.coe_singleton, ← Multiset.singleton_add]
    abel

/-- What comes back was inside, and is inside no more. -/
theorem contents_getCompletedCommand (b : State) :
    contents b = ((getCompletedCommand b).1.toList : Multiset Payload) +
      contents (getCompletedCommand b).2 := by
  unfold getCompletedCommand
  cases hq : b.outgoingQueue with
  | nil => simp
  | cons t rest =>
    simp only [contents, hq, Option.toList_some, ← Multiset.cons_coe, ← Multiset.singleton_add]
    abel

/-! ### The compute engine and the rest

The memory system's answers do not reach the compute engine; a tick moves what
is due from the engine to the outgoing queue. -/

/-- The two bridges have the same compute engine. -/
structure SameEngine (b b' : State) : Prop where
  queue : b'.pimComputeQueue = b.pimComputeQueue
  lastStart : b'.lastComputeStartTime = b.lastComputeStartTime
  lastDone : b'.lastComputeDoneTime = b.lastComputeDoneTime

theorem SameEngine.trans {a b c : State} (h : SameEngine a b) (h' : SameEngine b c) :
    SameEngine a c :=
  ⟨h'.queue.trans h.queue, h'.lastStart.trans h.lastStart, h'.lastDone.trans h.lastDone⟩

theorem sameEngine_callBacks (b : State) (calls : List (Bool × UInt64)) :
    SameEngine b (callBacks b calls) := by
  induction calls generalizing b with
  | nil => exact ⟨rfl, rfl, rfl⟩
  | cons c calls ih =>
    have hrest := ih (if c.1 then writeCallBack b c.2 else readCallBack b c.2)
    refine SameEngine.trans ?_ hrest
    split <;> exact ⟨rfl, rfl, rfl⟩

theorem sameEngine_offers (answers : Answers) (cs : List (Fin maxChannel)) (b : State) :
    SameEngine b (cs.foldl (offer answers) b) := by
  induction cs generalizing b with
  | nil => exact ⟨rfl, rfl, rfl⟩
  | cons c cs ih =>
    refine SameEngine.trans ?_ (ih (offer answers b c))
    unfold offer
    split
    · exact ⟨rfl, rfl, rfl⟩
    · split
      · dsimp only
        split <;> exact ⟨rfl, rfl, rfl⟩
      · exact ⟨rfl, rfl, rfl⟩

theorem pimComputeQueue_clockTick (m : MemorySystem) (b : State) (now : Time) (answers : Answers) :
    (clockTick m b now answers).pimComputeQueue = Lib.notDue now b.pimComputeQueue := by
  have hsame := (sameEngine_callBacks b answers.callbacks).trans (sameEngine_offers answers
    ((List.finRange maxChannel).filter (·.val < m.channels)) _)
  exact congrArg (Lib.notDue now) hsame.queue

/-- What is inside and not with the compute engine. -/
def resting (b : State) : Multiset Payload :=
  ∑ c, (b.incomingQueue c : Multiset Payload) + (b.readDone.map (·.2) : List Payload) +
    (b.writeDone.map (·.2) : List Payload) + (b.outgoingQueue : Multiset Payload)

theorem contents_eq (b : State) :
    contents b = resting b + (b.pimComputeQueue.map (·.2) : List Payload) := by
  simp only [contents, resting]
  abel

theorem resting_clockTick (m : MemorySystem) (b : State) (now : Time) (answers : Answers) :
    resting (clockTick m b now answers) =
      resting b + ((Lib.due now b.pimComputeQueue).map (·.2) : List Payload) := by
  have hcontents := contents_clockTick m b now answers
  have hsplit := congrArg (fun l => ((l.map (·.2) : List Payload) : Multiset Payload))
    (Lib.due_append_notDue now b.pimComputeQueue)
  simp only [List.map_append, ← Multiset.coe_add] at hsplit
  rw [contents_eq, contents_eq, pimComputeQueue_clockTick, ← hsplit, ← add_assoc] at hcontents
  exact add_right_cancel hcontents

end Hsim.Bridge
