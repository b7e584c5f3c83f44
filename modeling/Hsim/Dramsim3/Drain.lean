import Hsim.Dramsim3.Accesses

/-! What is pending gets settled.

An access settles a pending transaction, and only a request makes another one pending.
As long as commands wait, two refresh intervals bring an access; as long as only
transactions wait, one cycle or two bring a command, unless the channel is stuck. So
the time in between is bounded in which nothing is settled (`progress`), and with it
the time to the end, once the requests have come to theirs (`drains`). -/
namespace Hsim.Dramsim3

/-- The queues of a channel have room for commands, and two refresh intervals leave time for an
access. -/
structure Config.Brisk (cfg : Config) : Prop where
  plain : cfg.Plain
  counts : cfg.Counts
  ranks : cfg.RanksExist
  policy : cfg.refreshPolicy ≠ .bankLevelStaggered
  split : cfg.unifiedQueue = false
  cmdQueue : 0 < cfg.cmdQueueSize
  interval : ∃ bound gap pre, cfg.DelaysWithin bound pre ∧ cfg.Bounded (fun _ => True) bound ∧
    cfg.Bounded (Controller.OfQueues cfg) gap ∧ cfg.refreshDelay bound pre + 1 + bound +
      (2 * cfg.allBanks.card - cfg.banks.toNat + 1) * (gap + 1) ≤ cfg.refreshInterval

namespace Controller
variable {cfg : Config} {c c' : Controller}

/-! ### Pending transactions -/

/-- The transactions that no command has been issued for. -/
def unsettled (c : Controller) : Nat := c.pendingRdQ.length + c.pendingWrQ.length

def Event.isAdd : Event → Bool
  | .add _ _ => true
  | _ => false

/-- An access settles a transaction at least. -/
theorem Issues.unsettled_le {cmd : Command} (h : Issues cfg c cmd c') :
    c'.unsettled + accesses c'.cmdTrace ≤ c.unsettled + accesses c.cmdTrace := by
  have htrace : c'.cmdTrace = c.cmdTrace ++ [(c.clk, cmd)] := by rw [h.frame]
  rw [htrace, accesses_snoc, unsettled, unsettled]
  cases hread : cmd.isRead with
  | true =>
    obtain ⟨hpending, hreads, -⟩ := h.read hread
    obtain ⟨t, ht, haddr⟩ := List.any_eq_true.mp hpending
    have hless : c'.pendingRdQ.length < c.pendingRdQ.length := by
      rw [hreads]
      exact List.length_filter_lt_length_iff_exists.mpr ⟨t, ht, by simpa using haddr⟩
    rw [h.noWrite (Command.isWrite_of_isRead hread)]
    split <;> omega
  | false =>
    rw [(h.noRead hread).1]
    cases hwrite : cmd.isWrite with
    | true =>
      obtain ⟨hpending, hwrites⟩ := h.write hwrite
      obtain ⟨t, ht, haddr⟩ := List.any_eq_true.mp hpending
      have hlength := List.length_eraseP_of_mem (p := fun t => t.addr == cmd.hexAddr) ht haddr
      have hpos := List.length_pos_of_mem ht
      rw [hwrites]
      split <;> omega
    | false => simp [h.noWrite hwrite, Command.isReadWrite, hread, hwrite]

theorem Moves.unsettled_le (hdual : cfg.enableHbmDualCmd = false) (h : Moves cfg c c') :
    c'.unsettled + accesses c'.cmdTrace ≤ c.unsettled + accesses c.cmdTrace := by
  induction h with
  | refl => exact le_rfl
  | @tail c₁ c₂ _ hmove ih =>
    refine le_trans ?_ ih
    cases hmove with
    | refreshTick | turn | idle | clock => exact le_rfl
    | refresh _ _ hissue => exact (issueCommand_issues hissue).unsettled_le
    | row _ _ hissue => exact (issueCommand_issues hissue).unsettled_le
    | access _ _ _ hissue => exact (issueCommand_issues hissue).unsettled_le
    | selfRefresh _ _ _ hissue => exact (issueCommand_issues hissue).unsettled_le
    | drop dual =>
      rw [hdual] at dual
      cases dual
    | schedule =>
      have hframe := (scheduleTransaction_scheduled cfg c₁).frame
      rw [unsettled, hframe.pendingRdQ, hframe.pendingWrQ, hframe.cmdTrace, unsettled]

theorem addTransaction_unsettled (cfg : Config) (c : Controller) (addr : UInt64) (isWrite : Bool) :
    (c.addTransaction cfg addr isWrite).unsettled ≤ c.unsettled + 1 := by
  have henqueue : ∀ (c₁ : Controller) t, (enqueue cfg c₁ t).unsettled = c₁.unsettled := by
    intro c₁ t
    unfold enqueue
    split
    · rfl
    · split <;> rfl
  have hreturn : ∀ (c₁ : Controller) queue,
    ({c₁ with returnQueue := queue} : Controller).unsettled = c₁.unsettled := fun _ _ => rfl
  unfold addTransaction
  dsimp only
  split
  · rw [hreturn]
    split
    · exact Nat.le_succ _
    · rw [henqueue, unsettled, unsettled, List.length_append, List.length_singleton]
      dsimp only
      omega
  · split
    · rw [hreturn]
      exact Nat.le_succ _
    · split
      · rw [unsettled, unsettled, List.length_append, List.length_singleton]
        dsimp only
        omega
      · rw [henqueue, unsettled, unsettled, List.length_append, List.length_singleton]
        dsimp only
        omega

/-- Over a run the accesses are paid for by what was pending and what has been added. -/
theorem run_unsettled (hdual : cfg.enableHbmDualCmd = false) {events : List Event}
    (h : c.run cfg events = .ok c') :
    c'.unsettled + accesses c'.cmdTrace ≤
      c.unsettled + accesses c.cmdTrace + events.countP Event.isAdd := by
  induction events generalizing c with
  | nil =>
    cases h
    exact le_rfl
  | cons e rest ih =>
    obtain ⟨c₁, hstep, hrest⟩ := ok_of_bind h
    have hlater := ih hrest
    rw [List.countP_cons]
    cases e with
    | add addr isWrite =>
      have hone : c₁.unsettled ≤ c.unsettled + 1 := by
        cases hstep
        split
        · exact addTransaction_unsettled cfg c addr isWrite
        · exact Nat.le_succ _
      rw [(step_beside (by simp) hstep).cmdTrace] at hlater
      simp only [Event.isAdd, if_true]
      omega
    | collect clk =>
      have hsame : c₁.unsettled = c.unsettled := by
        cases hstep
        unfold returnDoneTrans
        split <;> rfl
      rw [(step_beside (by simp) hstep).cmdTrace, hsame] at hlater
      simpa [Event.isAdd] using hlater
    | tick =>
      have hmoves := Moves.unsettled_le hdual (clockTick_moves hstep)
      simp only [Event.isAdd, Bool.false_eq_true, if_false]
      omega

/-- Without accesses the commands in the queues stay. -/
theorem run_keeps (hdual : cfg.enableHbmDualCmd = false) {events : List Event}
    (h : c.run cfg events = .ok c') (hnone : accesses c'.cmdTrace = accesses c.cmdTrace) (i : Int) :
    c.cmdQueue.queues i <+: c'.cmdQueue.queues i := by
  have hissued : ∀ {c₁ c₂ : Controller} {cmd : Command}, c₁.issueCommand cfg cmd = .ok c₂ →
      c₂.cmdQueue = c₁.cmdQueue ∧
      accesses c₂.cmdTrace = accesses c₁.cmdTrace + if cmd.isReadWrite then 1 else 0 := by
    intro c₁ c₂ cmd hissue
    rw [(issueCommand_issues hissue).frame]
    exact ⟨rfl, accesses_snoc _ _ _⟩
  have hother : ∀ {c₁ c₂ : Controller} {cmd : Command}, c₁.issueCommand cfg cmd = .ok c₂ →
      accesses c.cmdTrace ≤ accesses c₁.cmdTrace ∧ (accesses c₁.cmdTrace = accesses c.cmdTrace →
        c.cmdQueue.queues i <+: c₁.cmdQueue.queues i) →
      accesses c.cmdTrace ≤ accesses c₂.cmdTrace ∧ (accesses c₂.cmdTrace = accesses c.cmdTrace →
        c.cmdQueue.queues i <+: c₂.cmdQueue.queues i) := by
    rintro c₁ c₂ cmd hissue ⟨hle, hsame⟩
    obtain ⟨hqueue, htrace⟩ := hissued hissue
    exact ⟨by omega, fun heq => hqueue ▸ hsame (by omega)⟩
  have hboth : accesses c.cmdTrace ≤ accesses c'.cmdTrace ∧ (accesses c'.cmdTrace = accesses c.cmdTrace →
      c.cmdQueue.queues i <+: c'.cmdQueue.queues i) := by
    refine run_invariant (I := fun c₁ => accesses c.cmdTrace ≤ accesses c₁.cmdTrace ∧
      (accesses c₁.cmdTrace = accesses c.cmdTrace →
      c.cmdQueue.queues i <+: c₁.cmdQueue.queues i)) ?_ ?_ ?_ h
      ⟨le_rfl, fun _ => List.prefix_rfl⟩
    · intro c₁ c₂ hmove hc₁
      cases hmove with
      | refreshTick | idle | clock => exact hc₁
      | turn hturned => exact ⟨hc₁.1, fun heq => hturned.queues ▸ hc₁.2 heq⟩
      | refresh _ _ hissue => exact hother hissue hc₁
      | row _ _ hissue => exact hother hissue hc₁
      | selfRefresh _ _ _ hissue => exact hother hissue hc₁
      | access _ access _ hissue =>
        have htrace := (hissued hissue).2
        rw [if_pos access] at htrace
        dsimp only at htrace
        exact ⟨by omega, fun heq => by omega⟩
      | drop dual =>
        rw [hdual] at dual
        cases dual
      | schedule =>
        have hscheduled := scheduleTransaction_scheduled cfg c₁
        rw [hscheduled.frame.cmdTrace]
        exact ⟨hc₁.1, fun heq => (hc₁.2 heq).trans (hscheduled.queues_prefix i)⟩
    · intro c₁ addr isWrite _ hc₁
      have hbeside := addTransaction_beside cfg c₁ addr isWrite
      rw [hbeside.cmdTrace, hbeside.cmdQueue]
      exact hc₁
    · intro c₁ clk hc₁
      have hbeside := returnDoneTrans_beside c₁ clk
      rw [hbeside.cmdTrace, hbeside.cmdQueue]
      exact hc₁
  exact hboth.2 hnone

/-! ### What waits -/

/-- What is pending waits in a command queue, or has not been scheduled. -/
theorem Lineup.waits (h : Lineup cfg c) (hsplit : cfg.unifiedQueue = false)
    (hpending : 0 < c.unsettled) :
    (∃ i, c.cmdQueue.queues i ≠ []) ∨ 0 < c.unscheduled := by
  obtain ⟨addr, howed⟩ : ∃ addr, c.owed addr ≠ [] := by
    rcases Nat.eq_zero_or_pos c.pendingRdQ.length with hnone | hsome
    · obtain ⟨t, ht⟩ := List.length_pos_iff_exists_mem.mp
        (show 0 < c.pendingWrQ.length by rw [unsettled] at hpending; omega)
      exact ⟨t.addr, by simp [owed, pending_iff.mpr (List.mem_map_of_mem ht)]⟩
    · obtain ⟨t, ht⟩ := List.length_pos_iff_exists_mem.mp hsome
      exact ⟨t.addr, by simp [owed, pending_iff.mpr (List.mem_map_of_mem ht)]⟩
  by_contra hnothing
  push Not at hnothing
  obtain ⟨hqueues, hunscheduled⟩ := hnothing
  have hused := h.used
  rw [if_neg (by simp [hsplit])] at hused
  rw [unscheduled] at hunscheduled
  have hreads : c.readQueue = [] := List.length_eq_zero_iff.mp (by omega)
  have hwrites : c.writeBuffer = [] := List.length_eq_zero_iff.mp (by omega)
  refine howed ?_
  rw [← h.waiting addr]
  simp [Controller.waiting, queued, hqueues, hused, hreads, hwrites]

/-- Nothing is left to do. -/
structure Settled (c : Controller) : Prop where
  pendingRdQ : c.pendingRdQ = []
  pendingWrQ : c.pendingWrQ = []
  queued : c.queued = []
  queues : ∀ i, c.cmdQueue.queues i = []

theorem Lineup.settled (h : Lineup cfg c) (hnone : c.unsettled = 0) : Settled c := by
  obtain ⟨hreads, hwrites⟩ := Nat.add_eq_zero_iff.mp hnone
  rw [List.length_eq_zero_iff] at hreads hwrites
  have hwaiting : ∀ addr, c.waiting cfg addr = [] := by
    intro addr
    rw [h.waiting addr, owed, hreads, hwrites]
    rfl
  refine ⟨hreads, hwrites, ?_, ?_⟩
  · refine List.eq_nil_iff_forall_not_mem.mpr fun t ht => ?_
    have hlast := (List.append_eq_nil_iff.mp (hwaiting t.addr)).2
    rw [List.map_eq_nil_iff] at hlast
    exact List.not_mem_nil (hlast ▸ List.mem_filter.mpr ⟨ht, decide_eq_true rfl⟩)
  · intro i
    refine List.eq_nil_iff_forall_not_mem.mpr fun e he => ?_
    obtain ⟨t, rfl, rfl⟩ := h.tidy.entries i e he
    have hfirst := (List.append_eq_nil_iff.mp (hwaiting t.addr)).1
    rw [List.map_eq_nil_iff] at hfirst
    exact List.not_mem_nil (hfirst ▸ List.mem_filter.mpr ⟨he, decide_eq_true rfl⟩)

/-- What leaves the queues of transactions becomes a command. -/
theorem Scheduled.takes (h : Scheduled cfg c c') (htaken : c'.unscheduled < c.unscheduled) :
    ∃ i, c'.cmdQueue.queues i ≠ [] := by
  cases h with
  | stay => exact absurd htaken (lt_irrefl _)
  | @move source before after t drain used queue passed room late =>
    refine ⟨home cfg t.addr, ?_⟩
    cases source <;> simp [setQueue]

theorem tick_takes (hplain : cfg.Plain) (htick : c.clockTick cfg = .ok c')
    (htaken : c'.unscheduled < c.unscheduled) :
    ∃ i, c'.cmdQueue.queues i ≠ [] := by
  obtain ⟨r, ch, c₂, -, hturn, rfl⟩ := clockTick_ends hplain htick
  obtain ⟨hreads, hwrites, -⟩ := hturn.leaves
  have hsame : (c₂.countIdle cfg).unscheduled = c.unscheduled := by
    show c₂.readQueue.length + c₂.writeBuffer.length = _
    rw [hreads, hwrites, unscheduled]
  exact (scheduleTransaction_scheduled cfg (c₂.countIdle cfg)).takes (htaken.trans_eq hsame.symm)

/-- Two refresh intervals with a command in the queues bring an access. -/
theorem accesses_of_waiting (hbrisk : cfg.Brisk) {before events : List Event}
    (h : run cfg {} before = .ok c) (hwaits : ∃ i, c.cmdQueue.queues i ≠ [])
    (hticks : 2 * cfg.refreshInterval ≤ events.count .tick) (hrun : c.run cfg events = .ok c') :
    accesses c.cmdTrace < accesses c'.cmdTrace := by
  obtain ⟨bound, gap, pre, hdelays, hany, hbounded, hinterval⟩ := hbrisk.interval
  by_contra hnone
  have hwaiting : AlwaysWaiting cfg c events := by
    rintro first rest c₁ rfl hfirst
    obtain ⟨c₂, hfirst', hrest⟩ := run_append.mp hrun
    cases hfirst.symm.trans hfirst'
    have hsame : accesses c₁.cmdTrace = accesses c.cmdTrace := by
      have hlow := accesses_le hfirst
      have hhigh := accesses_le hrest
      omega
    obtain ⟨i, hsome⟩ := hwaits
    refine ⟨i, fun hempty => hsome ?_⟩
    exact List.prefix_nil.mp (hempty ▸ run_keeps hbrisk.plain.dual hfirst hsame i)
  exact hnone (run_rate (n := 0) hbrisk.plain hbrisk.counts hbrisk.ranks hbrisk.policy hdelays
    hany hbounded
    hinterval h hwaiting hrun hticks)

/-! ### Progress -/

/-- Without requests, nothing that scheduling depends on changes before the next cycle. -/
theorem next_tick {events : List Event} (hadds : events.countP Event.isAdd = 0)
    (hticks : 0 < events.count .tick) (hrun : c.run cfg events = .ok c') :
      ∃ first rest c₁ c₂, c.run cfg first = .ok c₁ ∧ Alike c c₁ ∧ c₁.clockTick cfg = .ok c₂ ∧
      c₂.run cfg rest = .ok c' ∧ rest.countP Event.isAdd = 0 ∧
      rest.count .tick + 1 = events.count .tick := by
  induction events generalizing c with
  | nil => cases hticks
  | cons e events ih =>
    obtain ⟨c₁, hstep, hlater⟩ := ok_of_bind hrun
    cases e with
    | add addr isWrite => simp [Event.isAdd] at hadds
    | collect clk =>
      obtain ⟨first, rest, c₂, c₃, hfirst, halike, htick⟩ :=
        ih (by simpa [Event.isAdd] using hadds) (by simpa using hticks) hlater
      have hcollected : Alike c c₁ := by
        cases hstep
        unfold returnDoneTrans
        split <;> exact ⟨rfl, rfl, rfl, rfl, rfl, rfl, [], by simp, by simp⟩
      refine ⟨.collect clk :: first, rest, c₂, c₃, ?_, hcollected.trans halike, by simpa using htick⟩
      exact run_append.mpr ⟨c₁, run_singleton.mpr hstep, hfirst⟩
    | tick =>
      exact ⟨[], events, c, c₁, rfl, .refl c, hstep, hlater, by simpa [Event.isAdd] using hadds, by simp⟩

/-- **Something is settled**: without requests, two refresh intervals and two cycles bring an
access, unless nothing is pending or the channel is stuck. -/
theorem progress (hbrisk : cfg.Brisk) {before events : List Event} (h : run cfg {} before = .ok c)
    (hadds : events.countP Event.isAdd = 0)
    (hticks : 2 * cfg.refreshInterval + 2 ≤ events.count .tick) (hrun : c.run cfg events = .ok c') :
    c'.unsettled < c.unsettled ∨ c.unsettled = 0 ∨ Idle cfg c' ∧ Wedged cfg c' := by
  have hplain := hbrisk.plain
  have hpaid := run_unsettled hplain.dual hrun
  rw [hadds] at hpaid
  by_cases hmore : accesses c.cmdTrace < accesses c'.cmdTrace
  · exact .inl (by omega)
  -- A command that waits on the way would bring an access in what is left of the run.
  have hidles : ∀ {first rest : List Event} {c₁ : Controller}, c.run cfg first = .ok c₁ →
      c₁.run cfg rest = .ok c' → 2 * cfg.refreshInterval ≤ rest.count .tick → Idle cfg c₁ := by
    intro first rest c₁ hfirst hrest hleft
    have hreached := run_append.mpr ⟨c, h, hfirst⟩
    refine ⟨sound_run hplain hreached, ?_, draining_run hplain hbrisk.split hreached⟩
    by_contra hwaits
    have hlow := accesses_le hfirst
    have hhigh := accesses_of_waiting hbrisk hreached (not_forall.mp hwaits) hleft hrest
    omega
  have htakes : ∀ {first rest : List Event} {c₁ c₂ : Controller}, c.run cfg first = .ok c₁ →
      c₁.clockTick cfg = .ok c₂ → c₂.run cfg rest = .ok c' → 2 * cfg.refreshInterval ≤ rest.count .tick →
      c.run cfg (first ++ [.tick]) = .ok c₂ ∧ Idle cfg c₁ ∧ c₁.unscheduled ≤ c₂.unscheduled := by
    intro first rest c₁ c₂ hfirst htick hrest hleft
    have hstep : c₁.run cfg [.tick] = .ok c₂ := run_singleton.mpr htick
    have hboth := run_append.mpr ⟨c₁, hfirst, hstep⟩
    refine ⟨hboth, hidles hfirst (run_append.mpr ⟨c₂, hstep, hrest⟩) ?_, ?_⟩
    · rw [List.count_append]
      exact hleft.trans (Nat.le_add_left _ _)
    · by_contra htaken
      obtain ⟨i, hsome⟩ := tick_takes hplain htick (not_le.mp htaken)
      exact hsome ((hidles hboth hrest hleft).empty i)
  rcases Nat.eq_zero_or_pos c.unsettled with hnone | hpending
  · exact .inr (.inl hnone)
  refine .inr (.inr ?_)
  have hstart : c.run cfg [] = .ok c := rfl
  have hidle := hidles hstart hrun (by omega)
  have hwork : 0 < c.unscheduled :=
    (hidle.sound.lineup.waits hbrisk.split hpending).resolve_left fun ⟨i, hsome⟩ => hsome (hidle.empty i)
  -- The first cycle takes nothing, so it ends the draining; nor does the second, so the channel is stuck.
  obtain ⟨first, rest, c₁, c₂, hfirst, halike₁, htick₁, hrest, hadds₂, hcount₂⟩ :=
    next_tick hadds (by omega) hrun
  obtain ⟨hrun₂, hidle₁, hkept₁⟩ := htakes hfirst htick₁ hrest (by omega)
  obtain ⟨-, -, -, hzero, hbuffer, hqueue, -⟩ := hidle₁.tick hplain hbrisk.split hbrisk.cmdQueue
    (halike₁.unscheduled_eq ▸ hwork) htick₁ hkept₁
  obtain ⟨second, later, c₃, c₄, hsecond, halike₃, htick₃, hlater, -, hcount₄⟩ :=
    next_tick hadds₂ (by omega) hrest
  obtain ⟨-, hidle₃, hkept₃⟩ := htakes (run_append.mpr ⟨c₂, hrun₂, hsecond⟩) htick₃ hlater (by omega)
  have hsame : c₃.unscheduled = c.unscheduled := by
    rw [halike₃.unscheduled_eq, unscheduled, hbuffer, hqueue, ← unscheduled, halike₁.unscheduled_eq]
  have hwedged := hidle₃.wedged hplain hbrisk.split hbrisk.cmdQueue (halike₃.writeDraining.trans hzero)
    (hsame ▸ hwork) htick₃ hkept₃
  have hstep : c₃.run cfg [.tick] = .ok c₄ := run_singleton.mpr htick₃
  obtain ⟨hidle', hfrozen⟩ := hwedged.run hidle₃ hplain hbrisk.split hbrisk.cmdQueue
    (run_append.mpr ⟨c₄, hstep, hlater⟩)
  exact ⟨hidle', hwedged.frozen hfrozen⟩

/-- A write of the buffer is pending, and once for its address. -/
theorem Lineup.writes_le (h : Lineup cfg c) (addr : UInt64) :
    (c.writeBuffer.map Transaction.addr).count addr ≤ if pending c.pendingWrQ addr then 1 else 0 := by
  have hsublist : ((c.writeBuffer.filter fun t => t.addr = addr).map Transaction.isWrite).Sublist
      (c.owed addr) := by
    rw [← h.waiting addr, Controller.waiting, queued, List.filter_append, List.map_append]
    exact (List.sublist_append_right _ _).trans (List.sublist_append_right _ _)
  have hwrites : ((c.writeBuffer.filter fun t => t.addr = addr).map Transaction.isWrite).count true =
      (c.writeBuffer.map Transaction.addr).count addr := by
    rw [List.count_eq_length.mpr, List.length_map, List.count_eq_length_filter, List.filter_map,
      List.length_map]
    · rfl
    · intro flag hflag
      obtain ⟨t, ht, rfl⟩ := List.mem_map.mp hflag
      exact (h.writes t (List.mem_of_mem_filter ht)).symm
  rw [← hwrites]
  refine (hsublist.count_le true).trans ?_
  unfold owed
  split <;> split <;> simp

theorem Lineup.writeBuffer_le (h : Lineup cfg c) : c.writeBuffer.length ≤ c.pendingWrQ.length := by
  have hnodup : (c.writeBuffer.map Transaction.addr).Nodup := by
    refine List.nodup_iff_count_le_one.mpr fun addr => (h.writes_le addr).trans ?_
    split <;> omega
  have hsubset : c.writeBuffer.map Transaction.addr ⊆ c.pendingWrQ.map Transaction.addr := by
    intro addr haddr
    have hle := h.writes_le addr
    have hpos := List.count_pos_iff.mpr haddr
    by_contra hnot
    rw [if_neg (fun hpending => hnot (pending_iff.mp hpending))] at hle
    omega
  simpa using (hnodup.subperm hsubset).length_le

theorem lpddr5Ch4_brisk : lpddr5Ch4.Brisk where
  plain := lpddr5Ch4_plain
  counts := lpddr5Ch4_counts
  ranks := lpddr5Ch4_ranksExist
  policy := by decide
  split := rfl
  cmdQueue := by decide
  interval := ⟨800, 51, 17, lpddr5Ch4_delaysWithin, lpddr5Ch4_bounded, lpddr5Ch4_boundedQueues, by decide⟩

end Controller

end Hsim.Dramsim3
