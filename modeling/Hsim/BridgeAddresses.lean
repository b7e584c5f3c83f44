import Hsim.BridgeConservation
import Hsim.Lanes

/-! Completion by address.

The bridge knows the transactions the memory system has taken by their addresses
only. While the addresses are distinct, a callback for a transaction that was
taken finds that transaction and no other. -/
namespace Hsim.Bridge

/-- Taken by the memory system and not called back. -/
def accepted (b : State) : Multiset Payload :=
  (b.readDone.map (·.2) : List Payload) + (b.writeDone.map (·.2) : List Payload)

/-- On the way to the memory system, or taken. -/
def queued (b : State) : Multiset Payload :=
  ∑ c, (b.incomingQueue c : Multiset Payload) + accepted b

theorem queued_le_contents (b : State) : queued b ≤ contents b := by
  have hsplit : contents b = queued b + ((b.pimComputeQueue.map (·.2) : List Payload) +
      (b.outgoingQueue : Multiset Payload)) := by
    simp only [contents, queued, accepted]
    abel
  rw [hsplit]
  exact Multiset.le_add_right _ _

/-- Every entry is under its transaction's address, writes in one table and the others in
the other. -/
structure Keyed (b : State) : Prop where
  readDone : ∀ e ∈ b.readDone, e.1 = e.2.address ∧ e.2.command ≠ .write
  writeDone : ∀ e ∈ b.writeDone, e.1 = e.2.address ∧ e.2.command = .write

theorem keyed_empty : Keyed {} := by
  constructor <;> simp

/-! ### One callback -/

theorem callBack_sublist (addr : UInt64) (l : List (UInt64 × Payload)) :
    (callBack addr l).2.Sublist l := by
  induction l using callBack.induct addr with
  | case1 => exact .slnil
  | case2 e h => simp [callBack, h]
  | case3 e h skipped rest _ _ _ ih =>
    simp only [callBack, h, if_true]
    exact .cons _ (ih.cons_cons skipped)
  | case4 e rest h _ _ _ ih =>
    rw [callBack_other h]
    exact ih.cons_cons e

/-- An address no entry has. -/
theorem callBack_absent {addr : UInt64} {l : List (UInt64 × Payload)} (h : addr ∉ l.map (·.1)) :
    (callBack addr l).1 = [] := by
  induction l using callBack.induct addr with
  | case1 => rfl
  | case2 e he => exact absurd (List.mem_map_of_mem (List.mem_singleton_self e)) (he ▸ h)
  | case3 e he skipped rest _ _ _ ih => exact absurd (List.mem_map_of_mem List.mem_cons_self) (he ▸ h)
  | case4 e rest he _ _ _ ih =>
    rw [callBack_other he]
    exact ih fun hmem => h (by
      rw [List.map_cons]
      exact List.mem_cons_of_mem _ hmem)

/-- With one entry for each address, the entry is found although the scan skips the one
behind a match. -/
theorem callBack_unique {addr : UInt64} {l : List (UInt64 × Payload)} {t : Payload}
    (hnodup : (l.map (·.1)).Nodup) (ht : (addr, t) ∈ l) : (callBack addr l).1 = [t] := by
  induction l using callBack.induct addr with
  | case1 => exact absurd ht (by simp)
  | case2 e he =>
    obtain rfl := List.mem_singleton.mp ht
    simp [callBack]
  | case3 e he skipped rest _ _ _ ih =>
    rw [List.map_cons, List.nodup_cons, List.map_cons] at hnodup
    have hfront : (addr, t) = e := by
      rcases List.mem_cons.mp ht with hfront | hrest
      · exact hfront
      · have hmem := List.mem_map_of_mem (f := (·.1)) hrest
        rw [List.map_cons] at hmem
        exact absurd hmem (he ▸ hnodup.1)
    have habsent : addr ∉ rest.map (·.1) := by
      intro hmem
      exact hnodup.1 (he ▸ List.mem_cons_of_mem _ hmem)
    subst hfront
    simp only [callBack, if_true, callBack_absent habsent]
  | case4 e rest he _ _ _ ih =>
    rw [List.map_cons, List.nodup_cons] at hnodup
    have hrest : (addr, t) ∈ rest := by
      rcases List.mem_cons.mp ht with rfl | hrest
      · exact absurd rfl he
      · exact hrest
    rw [callBack_other he]
    exact ih hnodup.2 hrest

/-! ### The callbacks of a tick -/

/-- The callback the memory system makes for a transaction. -/
def callOf (t : Payload) : Bool × UInt64 := (decide (t.command = .write), t.address)

/-- The addresses tell the transactions apart. -/
def Distinct (b : State) : Prop := ((queued b).map (·.address)).Nodup

theorem Distinct.of_le {b b' : State} (h : Distinct b) (hle : queued b' ≤ queued b) : Distinct b' :=
  Multiset.nodup_of_le (Multiset.map_le_map hle) h

/-- In a table that is part of what is queued, no address comes twice. -/
theorem Distinct.keys {b : State} (h : Distinct b) {l : List (UInt64 × Payload)}
    (hkeys : ∀ e ∈ l, e.1 = e.2.address) (hle : ((l.map (·.2) : List Payload) : Multiset Payload) ≤
      queued b) : (l.map (·.1)).Nodup := by
  have hmap : l.map (·.1) = (l.map (·.2)).map (·.address) := by
    rw [List.map_map]
    exact List.map_congr_left hkeys
  have hnodup := Multiset.nodup_of_le (Multiset.map_le_map hle) h
  rw [hmap]
  exact hnodup

section
variable {b : State} {t : Payload}

/-- A callback for a transaction that was taken moves that transaction. -/
structure CalledBack (b b' : State) (t : Payload) : Prop where
  outgoing : b'.outgoingQueue = b.outgoingQueue ++ [t]
  accepted : accepted b = t ::ₘ accepted b'
  incoming : b'.incomingQueue = b.incomingQueue
  keyed : Keyed b'

theorem CalledBack.distinct {b b' : State} {t : Payload} (h : CalledBack b b' t) (hd : Distinct b) :
    Distinct b' := by
  refine hd.of_le ?_
  rw [queued, queued, h.incoming, h.accepted]
  exact add_le_add le_rfl (Multiset.le_cons_self _ _)

theorem readCallBack_taken (hk : Keyed b) (hd : Distinct b) (ht : (t.address, t) ∈ b.readDone) :
    CalledBack b (readCallBack b t.address) t := by
  have hle : ((b.readDone.map (·.2) : List Payload) : Multiset Payload) ≤ queued b := by
    rw [queued, accepted]
    exact (Multiset.le_add_right _ _).trans (Multiset.le_add_left _ _)
  have hmoved := callBack_unique (hd.keys (fun e he => (hk.readDone e he).1) hle) ht
  have hperm := callBack_perm t.address b.readDone
  rw [hmoved, Multiset.coe_singleton, Multiset.singleton_add] at hperm
  have hkept := (callBack_sublist t.address b.readDone).subset
  refine ⟨?_, ?_, rfl, fun e he => hk.readDone e (hkept he), hk.writeDone⟩
  · exact congrArg (b.outgoingQueue ++ ·) hmoved
  · rw [accepted, ← hperm, Multiset.cons_add]
    rfl

theorem writeCallBack_taken (hk : Keyed b) (hd : Distinct b) (ht : (t.address, t) ∈ b.writeDone) :
    CalledBack b (writeCallBack b t.address) t := by
  have hle : ((b.writeDone.map (·.2) : List Payload) : Multiset Payload) ≤ queued b := by
    rw [queued, accepted]
    exact (Multiset.le_add_left _ _).trans (Multiset.le_add_left _ _)
  have hmoved := callBack_unique (hd.keys (fun e he => (hk.writeDone e he).1) hle) ht
  have hperm := callBack_perm t.address b.writeDone
  rw [hmoved, Multiset.coe_singleton, Multiset.singleton_add] at hperm
  have hkept := (callBack_sublist t.address b.writeDone).subset
  refine ⟨?_, ?_, rfl, hk.readDone, fun e he => hk.writeDone e (hkept he)⟩
  · exact congrArg (b.outgoingQueue ++ ·) hmoved
  · rw [accepted, ← hperm, Multiset.add_cons]
    rfl

/-- The callback of a transaction looks in the table the transaction is in. -/
theorem calledBack (hk : Keyed b) (hd : Distinct b) (ht : t ∈ accepted b) :
    CalledBack b (if (callOf t).1 then writeCallBack b (callOf t).2 else readCallBack b (callOf t).2)
      t := by
  rcases Multiset.mem_add.mp ht with ht | ht
  · obtain ⟨e, he, rfl⟩ := List.mem_map.mp (Multiset.mem_coe.mp ht)
    obtain ⟨hkey, hcommand⟩ := hk.readDone e he
    have hentry : (e.2.address, e.2) ∈ b.readDone := by
      rw [← hkey]
      exact he
    simpa [callOf, hcommand] using readCallBack_taken hk hd hentry
  · obtain ⟨e, he, rfl⟩ := List.mem_map.mp (Multiset.mem_coe.mp ht)
    obtain ⟨hkey, hcommand⟩ := hk.writeDone e he
    have hentry : (e.2.address, e.2) ∈ b.writeDone := by
      rw [← hkey]
      exact he
    simpa [callOf, hcommand] using writeCallBack_taken hk hd hentry

/-- **The callbacks of a tick complete the transactions they are made for**, each of them
once and no other. -/
theorem callBacks_exact (hk : Keyed b) (hd : Distinct b) {picks : List Payload}
    (hpicks : (picks : Multiset Payload) ≤ accepted b) :
    (callBacks b (picks.map callOf)).outgoingQueue = b.outgoingQueue ++ picks ∧
      accepted b = picks + accepted (callBacks b (picks.map callOf)) := by
  induction picks generalizing b with
  | nil => simp [callBacks]
  | cons t picks ih =>
    have ht : t ∈ accepted b := Multiset.mem_of_le hpicks (by simp)
    have hone := calledBack hk hd ht
    generalize hb : (if (callOf t).1 then writeCallBack b (callOf t).2
      else readCallBack b (callOf t).2) = b' at hone
    have hrest : (picks : Multiset Payload) ≤ accepted b' := by
      rw [hone.accepted, ← Multiset.cons_coe] at hpicks
      exact (Multiset.cons_le_cons_iff t).mp hpicks
    obtain ⟨hout, haccepted⟩ := ih hone.keyed (hone.distinct hd) hrest
    have hcalls : callBacks b ((t :: picks).map callOf) = callBacks b' (picks.map callOf) := by
      rw [callBacks, List.map_cons, List.foldl_cons, hb]
      rfl
    rw [hcalls]
    refine ⟨?_, ?_⟩
    · rw [hout, hone.outgoing, List.append_assoc, List.singleton_append]
    · rw [hone.accepted, haccepted, ← Multiset.cons_coe, Multiset.cons_add]

end

/-! ### Whole runs of a bridge -/

theorem Keyed.callBacks {b : State} (h : Keyed b) (calls : List (Bool × UInt64)) :
    Keyed (callBacks b calls) := by
  induction calls generalizing b with
  | nil => exact h
  | cons c calls ih =>
    refine ih (b := if c.1 then writeCallBack b c.2 else readCallBack b c.2) ?_
    split
    · exact ⟨h.readDone, fun e he => h.writeDone e ((callBack_sublist _ _).subset he)⟩
    · exact ⟨fun e he => h.readDone e ((callBack_sublist _ _).subset he), h.writeDone⟩

theorem Keyed.offer {b : State} (h : Keyed b) (answers : Answers) (c : Fin maxChannel) :
    Keyed (offer answers b c) := by
  unfold Bridge.offer
  split
  · exact h
  · next t rest hq =>
    split
    · dsimp only
      split
      · next hwrite =>
        exact ⟨h.readDone, List.forall_mem_append.mpr ⟨h.writeDone,
          List.forall_mem_singleton.mpr ⟨rfl, hwrite⟩⟩⟩
      · next hwrite =>
        exact ⟨List.forall_mem_append.mpr ⟨h.readDone, List.forall_mem_singleton.mpr ⟨rfl, hwrite⟩⟩,
          h.writeDone⟩
    · exact h

theorem Keyed.clockTick {b : State} (h : Keyed b) (m : MemorySystem) (now : Time) (answers : Answers) :
    Keyed (clockTick m b now answers) := by
  have hoffers : ∀ (cs : List (Fin maxChannel)) (b : State), Keyed b →
      Keyed (cs.foldl (Bridge.offer answers) b) := by
    intro cs
    induction cs with
    | nil => exact fun _ hb => hb
    | cons c cs ih => exact fun b hb => ih _ (hb.offer answers c)
  have hticked := hoffers ((List.finRange maxChannel).filter (·.val < m.channels)) _
    (h.callBacks answers.callbacks)
  exact ⟨hticked.readDone, hticked.writeDone⟩

/-- A bridge as the wrappers leave it: compute commands apart, and the tables keyed. -/
structure Ordered (b : State) : Prop where
  kinds : Kinds b
  keyed : Keyed b

theorem ordered_empty : Ordered {} := ⟨kinds_empty, keyed_empty⟩

theorem Ordered.clockTick {b : State} (h : Ordered b) (m : MemorySystem) (now : Time)
    (answers : Answers) : Ordered (clockTick m b now answers) :=
  ⟨(h.kinds.clockTick m now answers).1, h.keyed.clockTick m now answers⟩

theorem Ordered.sendCommand {b : State} (h : Ordered b) (m : MemorySystem) (now : Time) (t : Payload) :
    Ordered (sendCommand m b now t) := by
  refine ⟨(h.kinds.sendCommand m now t).1, ?_⟩
  unfold Bridge.sendCommand
  split <;> exact ⟨h.keyed.readDone, h.keyed.writeDone⟩

theorem Ordered.getCompletedCommand {b : State} (h : Ordered b) :
    Ordered (getCompletedCommand b).2 := by
  refine ⟨h.kinds.getCompletedCommand.1, ?_⟩
  unfold Bridge.getCompletedCommand
  split <;> exact ⟨h.keyed.readDone, h.keyed.writeDone⟩

/-- What is queued is no compute command. -/
theorem Ordered.queued_isPim {b : State} (h : Ordered b) : ∀ t ∈ queued b, t.isPim = false := by
  intro t ht
  rcases Multiset.mem_add.mp ht with ht | ht
  · obtain ⟨c, -, ht⟩ := Multiset.mem_sum.mp ht
    exact h.kinds.incoming c t ht
  · rcases Multiset.mem_add.mp ht with ht | ht
    · obtain ⟨e, he, rfl⟩ := List.mem_map.mp (Multiset.mem_coe.mp ht)
      exact h.kinds.readDone e he
    · obtain ⟨e, he, rfl⟩ := List.mem_map.mp (Multiset.mem_coe.mp ht)
      exact h.kinds.writeDone e he

end Hsim.Bridge
