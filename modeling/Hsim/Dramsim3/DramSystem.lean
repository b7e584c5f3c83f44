import Hsim.Dramsim3.Total
import Mathlib.Data.List.Count

/-! The channels together, `JedecDRAMSystem`.

A tick first makes the callbacks that are due, channel by channel, then every
controller takes its cycle. A transaction that has been taken is called back once or
is still outstanding, in the controller of its channel (`run_conserves`). The
statistics of an epoch are left out, and with them the division by an `epoch_period`
of zero. -/
namespace Hsim.Dramsim3

namespace Controller

/-- The loop over `ReturnDoneTrans`, for the answers that can be left. -/
def returnAll (clk : Nat) : Nat → Controller → List (UInt64 × Bool) × Controller
  | 0, c => ([], c)
  | left + 1, c =>
    match c.returnDoneTrans clk with
    | (none, c) => ([], c)
    | (some answer, c) =>
      let (answers, c) := returnAll clk left c
      (answer :: answers, c)

/-- What has been taken and not been called back. -/
def outstanding (c : Controller) : List (UInt64 × Bool) :=
  (c.pendingRdQ ++ c.returnQueue).map fun t => (t.addr, t.isWrite)

end Controller

/-- `BaseDRAMSystem` as `JedecDRAMSystem` makes it. -/
structure DramSystem where
  ctrls : Nat → Controller := fun _ => {}
  clk : Nat := 0

namespace DramSystem
variable (cfg : Config)

def willAcceptTransaction (s : DramSystem) (addr : UInt64) (isWrite : Bool) : Bool :=
  (s.ctrls (cfg.mapping.getChannel addr)).willAcceptTransaction cfg isWrite

/-- `AddTransaction`, with whether the transaction has been taken. -/
def addTransaction (s : DramSystem) (addr : UInt64) (isWrite : Bool) : Bool × DramSystem :=
  let channel := cfg.mapping.getChannel addr
  if s.willAcceptTransaction cfg addr isWrite then
    (true, {s with
      ctrls := Function.update s.ctrls channel ((s.ctrls channel).addTransaction cfg addr isWrite)})
  else (false, s)

/-- The first half of a tick: the callbacks. -/
def callBacks (s : DramSystem) : List (UInt64 × Bool) × DramSystem :=
  let returned := fun c : Controller => c.returnAll s.clk c.returnQueue.length
  ((List.range cfg.channels.toNat).flatMap fun i : Nat => (returned (s.ctrls i)).1,
    {s with ctrls := Lib.forEach (fun _ c => (returned c).2) (List.range cfg.channels.toNat) s.ctrls})

def clockTick (s : DramSystem) : Except Abort (List (UInt64 × Bool) × DramSystem) := do
  let (calls, s) := s.callBacks cfg
  let ctrls ← Lib.forEachM (fun _ c => c.clockTick cfg) (List.range cfg.channels.toNat) s.ctrls
  return (calls, {
    ctrls := ctrls
    clk := s.clk + 1})

/-! ### Runs -/

/-- What a system is used for; a transaction that is not taken is offered again some time. -/
inductive Event where
  | add (addr : UInt64) (isWrite : Bool)
  | tick
  deriving DecidableEq, Repr

/-- What has come in and what has gone out. -/
structure Ledger where
  taken : List (UInt64 × Bool) := []
  calledBack : List (UInt64 × Bool) := []

def step (s : DramSystem) (l : Ledger) : Event → Except Abort (DramSystem × Ledger)
  | .add addr isWrite =>
    let (ok, s) := s.addTransaction cfg addr isWrite
    .ok (s, if ok then {l with taken := l.taken ++ [(addr, isWrite)]} else l)
  | .tick => do
    let (calls, s) ← s.clockTick cfg
    return (s, {l with calledBack := l.calledBack ++ calls})

def run (s : DramSystem) (l : Ledger) : List Event → Except Abort (DramSystem × Ledger)
  | [] => .ok (s, l)
  | e :: rest => do
    let (s, l) ← s.step cfg l e
    s.run l rest

end DramSystem

/-! ### One controller -/

namespace Controller
variable {cfg : Config} {c c' : Controller}

/-- The loop returns what is due, in its order, and leaves the rest. -/
theorem returnAll_eq (clk : Nat) {left : Nat} (h : c.returnQueue.length ≤ left) :
    returnAll clk left c =
      ((c.returnQueue.filter fun t => t.completeCycle ≤ clk).map (fun t => (t.addr, t.isWrite)),
        {c with returnQueue := c.returnQueue.filter fun t => ¬ t.completeCycle ≤ clk}) := by
  induction left generalizing c with
  | zero =>
    have hnil : c.returnQueue = [] := List.length_eq_zero_iff.mp (Nat.le_zero.mp h)
    rw [returnAll, hnil]
    cases c
    simp_all
  | succ left ih =>
    rw [returnAll]
    unfold returnDoneTrans
    cases hfind : c.returnQueue.find? fun t => t.completeCycle ≤ clk with
    | none =>
      have hlate : ∀ t ∈ c.returnQueue, ¬ t.completeCycle ≤ clk := by simpa using hfind
      have hdue : c.returnQueue.filter (fun t => t.completeCycle ≤ clk) = [] := by simpa using hlate
      have hrest : c.returnQueue.filter (fun t => ¬ t.completeCycle ≤ clk) = c.returnQueue :=
        List.filter_eq_self.mpr (by simpa using hlate)
      simp only [hdue, hrest]
      rfl
    | some t =>
      obtain ⟨hdue, before, after, hqueue, hlate⟩ := List.find?_eq_some_iff_append.mp hfind
      have hlate' : ∀ s ∈ before, ¬ s.completeCycle ≤ clk := by simpa using hlate
      have hdue' : t.completeCycle ≤ clk := of_decide_eq_true hdue
      have herase : c.returnQueue.eraseP (fun t => t.completeCycle ≤ clk) = before ++ after := by
        rw [hqueue, List.eraseP_append_right _ (by simpa using hlate')]
        simp [hdue']
      have hlength : (before ++ after).length ≤ left := by
        rw [hqueue] at h
        simp at h ⊢
        omega
      have hnone : before.filter (fun t => t.completeCycle ≤ clk) = [] := by simpa using hlate'
      dsimp only
      rw [herase, ih (c := {c with returnQueue := before ++ after}) hlength]
      dsimp only
      simp [hqueue, hnone, hdue']

/-- What one controller has to do with the transactions of a kind. -/
theorem count_returnAll (c : Controller) (clk : Nat) (x : UInt64 × Bool) :
    (returnAll clk c.returnQueue.length c).1.count x +
      (returnAll clk c.returnQueue.length c).2.outstanding.count x = c.outstanding.count x := by
  rw [returnAll_eq clk le_rfl]
  have hsplit := (List.filter_append_perm (fun t : Transaction => decide (t.completeCycle ≤ clk))
    c.returnQueue).map fun t => (t.addr, t.isWrite)
  have hcount := hsplit.count_eq x
  rw [List.map_append, List.count_append] at hcount
  simp only [outstanding, List.map_append, List.count_append, decide_not]
  omega

theorem outstanding_eq (hrd : c'.pendingRdQ = c.pendingRdQ)
    (hreturn : c'.returnQueue = c.returnQueue) :
    c'.outstanding = c.outstanding := by rw [outstanding, hrd, hreturn, outstanding]

/-- A read that is answered moves over. -/
theorem Issues.outstanding {cmd : Command} (h : Issues cfg c cmd c') :
    c'.outstanding.Perm c.outstanding := by
  cases hread : cmd.isRead with
  | false =>
    obtain ⟨hrd, hreturn⟩ := h.noRead hread
    rw [outstanding_eq hrd hreturn]
  | true =>
    obtain ⟨-, hrd, hreturn⟩ := h.read hread
    unfold Controller.outstanding
    rw [hrd, hreturn, List.map_append, List.map_append, List.map_append, List.map_map]
    have hsplit := (List.filter_append_perm (fun t : Transaction => decide (t.addr = cmd.hexAddr))
      c.pendingRdQ).map fun t => (t.addr, t.isWrite)
    rw [List.map_append] at hsplit
    refine List.Perm.trans ?_ (hsplit.append_right _)
    refine List.Perm.trans ?_ (List.perm_append_comm.append_right _)
    rw [List.append_assoc]
    simp only [decide_not]
    exact List.perm_append_comm.append_left _

theorem Move.outstanding (h : Move cfg c c') : c'.outstanding.Perm c.outstanding := by
  cases h with
  | refreshTick htick => exact .refl _
  | turn hturned => exact .refl _
  | refresh front ready hissue => exact (issueCommand_issues hissue).outstanding
  | row offers access hissue => exact (issueCommand_issues hissue).outstanding
  | access offers access erase hissue => exact (issueCommand_issues hissue).outstanding
  | drop dual offers access erase => exact .refl _
  | selfRefresh enabled asks ready hissue => exact (issueCommand_issues hissue).outstanding
  | idle => exact .refl _
  | schedule =>
    have hframe := (scheduleTransaction_scheduled cfg c).frame
    rw [outstanding_eq hframe.pendingRdQ hframe.returnQueue]
  | clock => exact .refl _

/-- A cycle makes nothing and loses nothing. -/
theorem clockTick_outstanding (h : c.clockTick cfg = .ok c') : c'.outstanding.Perm c.outstanding := by
  have hmoves := clockTick_moves h
  clear h
  induction hmoves with
  | refl => exact .refl _
  | tail _ hlast ih => exact (Move.outstanding hlast).trans ih

/-- A transaction that is added is outstanding. -/
theorem addTransaction_outstanding (cfg : Config) (c : Controller) (addr : UInt64) (isWrite : Bool) :
    (c.addTransaction cfg addr isWrite).outstanding.Perm ((addr, isWrite) :: c.outstanding) := by
  have henqueue : ∀ (c₁ : Controller) t, (enqueue cfg c₁ t).outstanding = c₁.outstanding := by
    intro c₁ t
    unfold enqueue
    split
    · rfl
    · split <;> rfl
  have hreturn : ∀ (c₁ : Controller) t, ({c₁ with returnQueue := c₁.returnQueue ++ [t]} :
    Controller).outstanding.Perm
      ((t.addr, t.isWrite) :: c₁.outstanding) := by
    intro c₁ t
    unfold outstanding
    rw [← List.append_assoc, List.map_append]
    exact List.perm_append_singleton _ _
  have hpending : ∀ (c₁ : Controller) t, ({c₁ with pendingRdQ := c₁.pendingRdQ ++ [t]} :
    Controller).outstanding.Perm
      ((t.addr, t.isWrite) :: c₁.outstanding) := by
    intro c₁ t
    unfold outstanding
    rw [List.append_assoc, List.singleton_append]
    exact (List.perm_middle.map _).trans (.refl _)
  unfold addTransaction
  dsimp only
  split
  · split
    · exact hreturn c _
    · refine (hreturn _ _).trans ?_
      rw [henqueue]
      exact .refl _
  · split
    · exact hreturn c _
    · split
      · exact hpending c _
      · rw [henqueue]
        exact hpending c _

end Controller

namespace DramSystem
variable {cfg : Config} {s s' : DramSystem} {l l' : Ledger}

/-- What has been taken, has been called back or is outstanding in the controller of its channel. -/
structure Balanced (cfg : Config) (s : DramSystem) (l : Ledger) : Prop where
  taken : ∀ addr isWrite, l.taken.count (addr, isWrite) = l.calledBack.count (addr, isWrite) +
    (s.ctrls (cfg.mapping.getChannel addr)).outstanding.count (addr, isWrite)
  home : ∀ i addr isWrite, i ≠ cfg.mapping.getChannel addr →
    (s.ctrls i).outstanding.count (addr, isWrite) = 0

theorem balanced_start (cfg : Config) : Balanced cfg {} {} := ⟨fun _ _ => rfl, fun _ _ _ _ => rfl⟩

theorem Balanced.add (h : Balanced cfg s l) (addr : UInt64) (isWrite : Bool) :
    Balanced cfg {s with
      ctrls := Function.update s.ctrls (cfg.mapping.getChannel addr)
        ((s.ctrls (cfg.mapping.getChannel addr)).addTransaction cfg addr isWrite)}
      {l with taken := l.taken ++ [(addr, isWrite)]} := by
  have hadd := Controller.addTransaction_outstanding cfg (s.ctrls (cfg.mapping.getChannel addr))
    addr isWrite
  refine ⟨?_, ?_⟩
  · intro a w
    have hold := h.taken a w
    dsimp only
    rw [List.count_append, List.count_singleton]
    by_cases hchannel : cfg.mapping.getChannel a = cfg.mapping.getChannel addr
    · rw [hchannel] at hold
      rw [hchannel, Function.update_self, hadd.count_eq, List.count_cons]
      omega
    · have hne : ((addr, isWrite) == (a, w)) = false := by
        refine beq_false_of_ne fun heq => hchannel ?_
        rw [(Prod.mk.inj heq).1]
      rw [Function.update_of_ne hchannel, hne]
      simpa using hold
  · intro i a w hi
    dsimp only
    by_cases hchannel : i = cfg.mapping.getChannel addr
    · subst hchannel
      have hne : ((addr, isWrite) == (a, w)) = false := by
        refine beq_false_of_ne fun heq => hi ?_
        rw [(Prod.mk.inj heq).1]
      rw [Function.update_self, hadd.count_eq, List.count_cons, hne, h.home _ a w hi]
      rfl
    · rw [Function.update_of_ne hchannel]
      exact h.home i a w hi

/-- A kind that only one of the lists has. -/
theorem count_flatMap_of_unique {β : Type} [BEq β] [LawfulBEq β] {f : Nat → List β} {l : List Nat}
    {i : Nat} {x : β} (hl : l.Nodup) (hi : i ∈ l) (hother : ∀ j, j ≠ i → (f j).count x = 0) :
    (l.flatMap f).count x = (f i).count x := by
  induction l with
  | nil => cases hi
  | cons j rest ih =>
    obtain ⟨hj, hrest⟩ := List.nodup_cons.mp hl
    rw [List.flatMap_cons, List.count_append]
    rcases List.mem_cons.mp hi with rfl | hi
    · have hnone : (rest.flatMap f).count x = 0 := by
        rw [List.count_eq_zero, List.mem_flatMap]
        rintro ⟨k, hk, hx⟩
        exact List.count_eq_zero.mp (hother k fun hki => hj (hki ▸ hk)) hx
      rw [hnone, Nat.add_zero]
    · rw [hother j fun hji => hj (hji ▸ hi), Nat.zero_add, ih hrest hi]

/-- A tick calls back what is due of the channel of an address, and nothing of it elsewhere. -/
theorem Balanced.tick {calls : List (UInt64 × Bool)}
    (hchannels : ∀ addr, cfg.mapping.getChannel addr < cfg.channels.toNat) (h : Balanced cfg s l)
    (htick : s.clockTick cfg = .ok (calls, s')) :
    Balanced cfg s' {l with calledBack := l.calledBack ++ calls} := by
  obtain ⟨ctrls, hctrls, htick⟩ := ok_of_bind htick
  have hpair := Except.ok.inj htick
  have hcallBacks : (s.callBacks cfg).1 = calls := congrArg Prod.fst hpair
  have hs' : s'.ctrls = ctrls := congrArg (fun p => p.2.ctrls) hpair.symm
  have hnodup : (List.range cfg.channels.toNat).Nodup := List.nodup_range
  have hall : Lib.forEachM (fun _ c => c.clockTick cfg) (List.range cfg.channels.toNat)
      (s.callBacks cfg).2.ctrls = .ok ctrls := hctrls
  have hticked := (Lib.forEachM_eq_ok hnodup).mp hall
  have hreturned : ∀ i, (s.callBacks cfg).2.ctrls i = if i ∈ List.range cfg.channels.toNat then
      ((s.ctrls i).returnAll s.clk (s.ctrls i).returnQueue.length).2 else s.ctrls i :=
    fun i => Lib.forEach_apply (fun (_ : Nat) (c : Controller) =>
      (c.returnAll s.clk c.returnQueue.length).2) hnodup s.ctrls i
  -- What one controller has left after its callbacks and its cycle.
  have hone : ∀ i x, (ctrls i).outstanding.count x ≤ (s.ctrls i).outstanding.count x ∧
      (i ∈ List.range cfg.channels.toNat →
        ((s.ctrls i).returnAll s.clk (s.ctrls i).returnQueue.length).1.count x +
          (ctrls i).outstanding.count x = (s.ctrls i).outstanding.count x) := by
    intro i x
    have hcount := Controller.count_returnAll (s.ctrls i) s.clk x
    by_cases hi : i ∈ List.range cfg.channels.toNat
    · have hperm := Controller.clockTick_outstanding (hticked.1 i hi)
      have hsame := hperm.count_eq x
      rw [hreturned, if_pos hi] at hsame
      exact ⟨by omega, fun _ => by omega⟩
    · have hsame := hticked.2 i hi
      rw [hreturned, if_neg hi] at hsame
      exact ⟨by rw [hsame], fun hin => absurd hin hi⟩
  refine ⟨?_, ?_⟩
  · intro addr w
    have hi := List.mem_range.mpr (hchannels addr)
    have hcalls : calls.count (addr, w) =
        ((s.ctrls (cfg.mapping.getChannel addr)).returnAll s.clk
          (s.ctrls (cfg.mapping.getChannel addr)).returnQueue.length).1.count (addr, w) := by
      rw [← hcallBacks]
      refine count_flatMap_of_unique
        (f := fun i => ((s.ctrls i).returnAll s.clk (s.ctrls i).returnQueue.length).1) hnodup hi ?_
      intro j hj
      have hnone := h.home j addr w hj
      have hcount := Controller.count_returnAll (s.ctrls j) s.clk (addr, w)
      omega
    have hold := h.taken addr w
    have hleft := (hone (cfg.mapping.getChannel addr) (addr, w)).2 hi
    dsimp only
    rw [List.count_append, hcalls, hs']
    omega
  · intro i addr w hi
    have hnone := h.home i addr w hi
    have hle := (hone i (addr, w)).1
    rw [hs']
    omega

theorem Balanced.step {e : Event}
    (hchannels : ∀ addr, cfg.mapping.getChannel addr < cfg.channels.toNat) (h : Balanced cfg s l)
    (hstep : s.step cfg l e = .ok (s', l')) : Balanced cfg s' l' := by
  cases e with
  | add addr isWrite =>
    unfold DramSystem.step addTransaction at hstep
    dsimp only at hstep
    split at hstep
    · cases hstep
      exact h.add addr isWrite
    · cases hstep
      exact h
  | tick =>
    obtain ⟨⟨calls, s₁⟩, htick, hstep⟩ := ok_of_bind hstep
    cases hstep
    exact h.tick hchannels htick

/-! ### The runs of a channel -/

/-- A controller that some run of its own ends with. -/
def Reached (cfg : Config) (c : Controller) : Prop :=
  ∃ events, Controller.run cfg {} events = .ok c

theorem Reached.run {c c' : Controller} {events : List Controller.Event} (h : Reached cfg c)
    (hrun : c.run cfg events = .ok c') : Reached cfg c' := by
  obtain ⟨before, hbefore⟩ := h
  exact ⟨before ++ events, Controller.run_append.mpr ⟨c, hbefore, hrun⟩⟩

theorem Reached.step {c c' : Controller} {e : Controller.Event} (h : Reached cfg c)
    (he : c.step cfg e = .ok c') : Reached cfg c' :=
  h.run (Controller.run_singleton.mpr he)

theorem Reached.add {c : Controller} (h : Reached cfg c) {addr : UInt64} {isWrite : Bool}
    (hroom : c.willAcceptTransaction cfg isWrite = true) :
    Reached cfg (c.addTransaction cfg addr isWrite) :=
  h.step (e := .add addr isWrite) (by rw [Controller.step, if_pos hroom])

theorem Reached.returnAll {c : Controller} (h : Reached cfg c) (clk left : Nat) :
    Reached cfg (c.returnAll clk left).2 := by
  induction left generalizing c with
  | zero => exact h
  | succ left ih =>
    have hone : Reached cfg (c.returnDoneTrans clk).2 := h.step (e := .collect clk) rfl
    rw [Controller.returnAll]
    split
    · next heq =>
      rw [heq] at hone
      exact hone
    · next heq =>
      rw [heq] at hone
      exact ih hone

/-- What the callbacks leave of each controller, some run of its own leaves. -/
theorem reached_callBacks (h : ∀ i, Reached cfg (s.ctrls i)) (i : Nat) :
    Reached cfg ((s.callBacks cfg).2.ctrls i) := by
  have hreturned : (s.callBacks cfg).2.ctrls i = if i ∈ List.range cfg.channels.toNat then
      ((s.ctrls i).returnAll s.clk (s.ctrls i).returnQueue.length).2 else s.ctrls i :=
    Lib.forEach_apply (fun (_ : Nat) (c : Controller) => (c.returnAll s.clk c.returnQueue.length).2)
      List.nodup_range s.ctrls i
  rw [hreturned]
  split
  · exact (h i).returnAll _ _
  · exact h i

theorem reached_tick {calls : List (UInt64 × Bool)} (h : ∀ i, Reached cfg (s.ctrls i))
    (htick : s.clockTick cfg = .ok (calls, s')) (i : Nat) : Reached cfg (s'.ctrls i) := by
  obtain ⟨ctrls, hctrls, htick⟩ := ok_of_bind htick
  have hall : Lib.forEachM (fun _ c => c.clockTick cfg) (List.range cfg.channels.toNat)
      (s.callBacks cfg).2.ctrls = .ok ctrls := hctrls
  have hticked := (Lib.forEachM_eq_ok List.nodup_range).mp hall
  have hs' : s'.ctrls = ctrls := congrArg (fun p => p.2.ctrls) (Except.ok.inj htick).symm
  have hreturned := reached_callBacks h i
  rw [hs']
  by_cases hi : i ∈ List.range cfg.channels.toNat
  · exact hreturned.step (e := .tick) (hticked.1 i hi)
  · rw [hticked.2 i hi]
    exact hreturned

theorem reached_add (h : ∀ i, Reached cfg (s.ctrls i)) (addr : UInt64) (isWrite : Bool) (i : Nat) :
    Reached cfg ((s.addTransaction cfg addr isWrite).2.ctrls i) := by
  unfold addTransaction
  dsimp only
  split
  · next hroom =>
    dsimp only
    by_cases hi : i = cfg.mapping.getChannel addr
    · subst hi
      rw [Function.update_self]
      exact (h _).add hroom
    · rw [Function.update_of_ne hi]
      exact h i
  · exact h i

theorem reached_step {e : Event} (h : ∀ i, Reached cfg (s.ctrls i))
    (hstep : s.step cfg l e = .ok (s', l')) (i : Nat) : Reached cfg (s'.ctrls i) := by
  cases e with
  | add addr isWrite =>
    cases hstep
    exact reached_add h addr isWrite i
  | tick =>
    obtain ⟨⟨calls, s₁⟩, htick, hstep⟩ := ok_of_bind hstep
    cases hstep
    exact reached_tick h htick i

/-- A tick of the system goes through. -/
theorem clockTick_ok (hplain : cfg.Plain) (h : ∀ i, Reached cfg (s.ctrls i)) :
    ∃ ticked, s.clockTick cfg = .ok ticked := by
  have hctrls : ∃ ctrls, Lib.forEachM (fun _ c => c.clockTick cfg) (List.range cfg.channels.toNat)
      (s.callBacks cfg).2.ctrls = .ok ctrls := by
    refine Lib.forEachM_ok List.nodup_range ?_
    intro i _
    obtain ⟨events, hrun⟩ := reached_callBacks h i
    exact (Controller.sound_run hplain hrun).clockTick hplain |>.imp fun _ h => h.1
  obtain ⟨ctrls, hctrls⟩ := hctrls
  exact exists_ok_bind hctrls ⟨_, rfl⟩

theorem run_ok (hplain : cfg.Plain) {s : DramSystem} (h : ∀ i, Reached cfg (s.ctrls i)) (l : Ledger)
    (events : List Event) : ∃ result, run cfg s l events = .ok result := by
  induction events generalizing s l with
  | nil => exact ⟨_, rfl⟩
  | cons e rest ih =>
    have hstep : ∃ stepped, s.step cfg l e = .ok stepped := by
      cases e with
      | add addr isWrite => exact ⟨_, rfl⟩
      | tick =>
        obtain ⟨ticked, htick⟩ := clockTick_ok hplain h
        exact exists_ok_bind htick ⟨_, rfl⟩
    obtain ⟨⟨s₁, l₁⟩, hstep⟩ := hstep
    exact exists_ok_bind hstep (ih (reached_step h hstep) l₁)

/-- **The system never aborts**, whatever is offered to it. -/
theorem never_aborts (hplain : cfg.Plain) (events : List Event) :
    ∃ result, run cfg {} {} events = .ok result :=
  run_ok hplain (fun _ => ⟨[], rfl⟩) {} events

theorem never_aborts_lpddr5 : ∃ result,
    run lpddr5Ch4 {} {} (.add 0 false :: .add 0x80 true :: List.replicate 8000 .tick) = .ok result :=
  never_aborts lpddr5Ch4_plain _

/-- **Every transaction is called back once**, or is still outstanding, over any run. -/
theorem run_conserves (hchannels : ∀ addr, cfg.mapping.getChannel addr < cfg.channels.toNat)
    {events : List Event} (h : run cfg {} {} events = .ok (s, l)) : Balanced cfg s l := by
  have hrun : ∀ {events : List Event} {s₀ : DramSystem} {l₀ : Ledger}, Balanced cfg s₀ l₀ →
      run cfg s₀ l₀ events = .ok (s, l) → Balanced cfg s l := by
    intro events
    induction events with
    | nil =>
      intro s₀ l₀ h₀ hrun
      cases hrun
      exact h₀
    | cons e rest ih =>
      intro s₀ l₀ h₀ hrun
      obtain ⟨⟨s₁, l₁⟩, hstep, hrun⟩ := ok_of_bind hrun
      exact ih (h₀.step hchannels hstep) hrun
  exact hrun (balanced_start cfg) h

theorem run_conserves_lpddr5 : ∃ s l,
    run lpddr5Ch4 {} {} (.add 0 false :: .add 0x80 true :: List.replicate 100 .tick) = .ok (s, l) ∧
      Balanced lpddr5Ch4 s l := by
  obtain ⟨⟨s, l⟩, hrun⟩ := run_ok lpddr5Ch4_plain (s := {}) (fun _ => ⟨[], rfl⟩) {}
    (.add 0 false :: .add 0x80 true :: List.replicate 100 .tick)
  exact ⟨s, l, hrun, run_conserves lpddr5Ch4_channels hrun⟩

end DramSystem

end Hsim.Dramsim3
