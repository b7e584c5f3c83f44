import Hsim.Dramsim3.Total

/-! How a channel gets stuck.

A write is held back while a read of its address is pending, and draining ends for
this cycle. If the write buffer asks to be drained in the next cycle again, the read
does not get its turn in between. A channel whose command queues are empty stays as
it is forever in that case, and in no other (`stuck_iff`). One read and nine writes
that come within a cycle are enough, if the first of the writes is to the address of
the read. -/
namespace Hsim.Dramsim3

namespace Controller
variable {cfg : Config} {c c' : Controller}

/-- The write at the front waits for a read, and the buffer is long enough to be drained. -/
structure Wedged (cfg : Config) (c : Controller) : Prop where
  many : cfg.transQueueSize ≤ c.writeBuffer.length ∨ 8 < c.writeBuffer.length
  blocked : ∃ t rest, c.writeBuffer = t :: rest ∧ pending c.pendingRdQ t.addr = true

/-- Nothing leaves: neither the queues of transactions nor the pending ones, and no access is
issued. -/
structure Frozen (c c' : Controller) : Prop where
  reads : c.readQueue <+: c'.readQueue
  writes : c.writeBuffer <+: c'.writeBuffer
  pendingRd : c.pendingRdQ <+: c'.pendingRdQ
  pendingWr : c.pendingWrQ <+: c'.pendingWrQ
  trace : ∃ new, c'.cmdTrace = c.cmdTrace ++ new ∧ ∀ e ∈ new, e.2.isReadWrite = false

theorem Frozen.refl (c : Controller) : Frozen c c :=
  ⟨List.prefix_rfl, List.prefix_rfl, List.prefix_rfl, List.prefix_rfl, [], by simp, by simp⟩

theorem Frozen.trans {c₁ c₂ c₃ : Controller} (h : Frozen c₁ c₂) (h' : Frozen c₂ c₃) :
    Frozen c₁ c₃ := by
  obtain ⟨new, htrace, hnew⟩ := h.trace
  obtain ⟨new', htrace', hnew'⟩ := h'.trace
  refine ⟨h.reads.trans h'.reads, h.writes.trans h'.writes, h.pendingRd.trans h'.pendingRd,
    h.pendingWr.trans h'.pendingWr, new ++ new', by rw [htrace', htrace, List.append_assoc], ?_⟩
  intro e he
  exact (List.mem_append.mp he).elim (hnew e) (hnew' e)

/-! ### Draining -/

/-- The writes that are left to drain are in the buffer. -/
structure Draining (c : Controller) : Prop where
  nonneg : 0 ≤ c.writeDraining
  le : c.writeDraining ≤ c.writeBuffer.length

theorem drainTarget_bounds (cfg : Config) (h : Draining c) :
    0 ≤ c.drainTarget cfg ∧ c.drainTarget cfg ≤ c.writeBuffer.length := by
  unfold drainTarget
  split
  · omega
  · exact ⟨h.nonneg, h.le⟩

theorem schedule_writes (h : ∀ t ∈ c.writeBuffer, t.isWrite = true)
    (hsplit : cfg.unifiedQueue = false) (hdrain : 0 < c.drainTarget cfg) :
    c.scheduleTransaction cfg =
      match c.writeBuffer.find? (c.hasRoom cfg) with
      | none => {c with writeDraining := c.drainTarget cfg}
      | some t =>
        if pending c.pendingRdQ t.addr then {c with writeDraining := 0}
        else {c with
          writeDraining := c.drainTarget cfg - 1
          cmdQueue := c.cmdQueue.addCommand cfg (transToCommand cfg t)
          writeBuffer := c.writeBuffer.eraseP (c.hasRoom cfg)} := by
  have hsource : c.source cfg = .writes := by simp [source, hsplit, hdrain]
  unfold scheduleTransaction
  simp only [hsource, queueOf, hsplit, Bool.not_false, Bool.true_and]
  cases hfind : c.writeBuffer.find? (c.hasRoom cfg) with
  | none => rfl
  | some t =>
    have hwrite : t.isWrite = true := h t (List.mem_of_find?_eq_some hfind)
    simp only [transToCommand_isWrite, hwrite, Bool.true_and, if_true, setQueue]

theorem schedule_reads (h : ∀ t ∈ c.readQueue, t.isWrite = false)
    (hsplit : cfg.unifiedQueue = false) (hdrain : ¬ 0 < c.drainTarget cfg) :
    c.scheduleTransaction cfg =
      match c.readQueue.find? (c.hasRoom cfg) with
      | none => {c with writeDraining := c.drainTarget cfg}
      | some t => {c with
          writeDraining := c.drainTarget cfg
          cmdQueue := c.cmdQueue.addCommand cfg (transToCommand cfg t)
          readQueue := c.readQueue.eraseP (c.hasRoom cfg)} := by
  have hsource : c.source cfg = .reads := by simp [source, hsplit, hdrain]
  unfold scheduleTransaction
  simp only [hsource, queueOf, hsplit, Bool.not_false, Bool.true_and]
  cases hfind : c.readQueue.find? (c.hasRoom cfg) with
  | none => rfl
  | some t =>
    have hread : t.isWrite = false := h t (List.mem_of_find?_eq_some hfind)
    simp [hread, setQueue]

theorem Draining.schedule (h : Draining c) (hlineup : Lineup cfg c)
    (hsplit : cfg.unifiedQueue = false) :
    Draining (c.scheduleTransaction cfg) := by
  obtain ⟨hlow, hhigh⟩ := drainTarget_bounds cfg h
  by_cases hdrain : 0 < c.drainTarget cfg
  · rw [schedule_writes hlineup.writes hsplit hdrain]
    cases hfind : c.writeBuffer.find? (c.hasRoom cfg) with
    | none => exact ⟨hlow, hhigh⟩
    | some t =>
      have herase := List.length_eraseP_of_mem (List.mem_of_find?_eq_some hfind) (List.find?_some hfind)
      dsimp only
      split
      · exact ⟨le_rfl, by simp⟩
      · refine ⟨?_, ?_⟩
        · dsimp only
          omega
        · dsimp only
          omega
  · rw [schedule_reads hlineup.reads hsplit hdrain]
    split <;> exact ⟨hlow, hhigh⟩

/-! ### A cycle without commands to issue -/

/-- What scheduling depends on is the same, and no access has been issued. -/
structure Alike (c c' : Controller) : Prop where
  queues : c'.cmdQueue.queues = c.cmdQueue.queues
  readQueue : c'.readQueue = c.readQueue
  writeBuffer : c'.writeBuffer = c.writeBuffer
  writeDraining : c'.writeDraining = c.writeDraining
  pendingRdQ : c'.pendingRdQ = c.pendingRdQ
  pendingWrQ : c'.pendingWrQ = c.pendingWrQ
  trace : ∃ new, c'.cmdTrace = c.cmdTrace ++ new ∧ ∀ e ∈ new, e.2.isReadWrite = false

theorem Alike.refl (c : Controller) : Alike c c :=
  ⟨rfl, rfl, rfl, rfl, rfl, rfl, [], by simp, by simp⟩

theorem Alike.trans {c₁ c₂ c₃ : Controller} (h : Alike c₁ c₂) (h' : Alike c₂ c₃) : Alike c₁ c₃ := by
  obtain ⟨new, htrace, hnew⟩ := h.trace
  obtain ⟨new', htrace', hnew'⟩ := h'.trace
  refine ⟨h'.queues.trans h.queues, h'.readQueue.trans h.readQueue, h'.writeBuffer.trans h.writeBuffer,
    h'.writeDraining.trans h.writeDraining, h'.pendingRdQ.trans h.pendingRdQ,
    h'.pendingWrQ.trans h.pendingWrQ, new ++ new', by rw [htrace', htrace, List.append_assoc], ?_⟩
  intro e he
  exact (List.mem_append.mp he).elim (hnew e) (hnew' e)

theorem Alike.frozen (h : Alike c c') : Frozen c c' := by
  refine ⟨?_, ?_, ?_, ?_, h.trace⟩
  · rw [h.readQueue]
  · rw [h.writeBuffer]
  · rw [h.pendingRdQ]
  · rw [h.pendingWrQ]

theorem Issues.alike {cmd : Command} (h : Issues cfg c cmd c') (haccess : cmd.isReadWrite = false) :
    Alike c c' := by
  have hneither : cmd.isRead = false ∧ cmd.isWrite = false := by simpa [Command.isReadWrite] using haccess
  refine ⟨?_, ?_, ?_, ?_, (h.noRead hneither.1).1, h.noWrite hneither.2, [(c.clk, cmd)],
    ?_, by simpa using haccess⟩ <;>
    rw [h.frame]

/-- Empty queues have nothing to give. -/
theorem round_of_empty {ch : ChannelState} {q q' : CommandQueue} {answer : Option Command}
    (hempty : ∀ i, q.queues i = []) (h : CommandQueue.Round cfg ch q answer q') :
    answer = none ∧ q'.queues = q.queues := by
  cases h with
  | none => exact ⟨rfl, rfl⟩
  | other offers free access =>
    have hmem := Offers_mem offers
    rw [hempty] at hmem
    cases hmem
  | access offers free access erase =>
    have hmem := Offers_mem offers
    rw [hempty] at hmem
    cases hmem

theorem issue_alike {issued : Bool} (hdual : cfg.enableHbmDualCmd = false) (htidy : Tidy cfg c)
    (hempty : ∀ i, c.cmdQueue.queues i = []) (h : c.issue cfg = .ok (c', issued)) : Alike c c' := by
  obtain ⟨⟨answer, q⟩, hanswer, h⟩ := ok_of_bind h
  have hnext : q.queues = c.cmdQueue.queues ∧ ∀ cmd, answer = some cmd → cmd.isReadWrite = false := by
    unfold Controller.nextCommand at hanswer
    split at hanswer
    · obtain ⟨rfl, hqueues⟩ := round_of_empty hempty (CommandQueue.issueFrom_round hanswer)
      exact ⟨hqueues, by simp⟩
    · next ref rest hfront =>
      obtain ⟨⟨first, q₁⟩, hfinish, hanswer⟩ := ok_of_bind hanswer
      obtain ⟨hturned, hready⟩ := finishRefresh_turned hfinish
      cases first with
      | some cmd =>
        cases hanswer
        refine ⟨hturned.queues, ?_⟩
        rintro _ ⟨⟩
        exact isReadWrite_of_answer hready (isReadWrite_of_isRefresh
          (htidy.refreshes ref (by simp [hfront])))
      | none =>
        have hempty₁ : ∀ i, q₁.queues i = [] := by
          rw [hturned.queues]
          exact hempty
        obtain ⟨rfl, hqueues⟩ := round_of_empty hempty₁ (CommandQueue.issueFrom_round hanswer)
        exact ⟨hqueues.trans hturned.queues, by simp⟩
  cases answer with
  | none =>
    cases h
    exact ⟨hnext.1, rfl, rfl, rfl, rfl, rfl, [], by simp, by simp⟩
  | some cmd =>
    obtain ⟨c₁, hissue, h⟩ := ok_of_bind h
    simp only [hdual] at h
    cases h
    have halike := (issueCommand_issues hissue).alike (hnext.2 cmd rfl)
    exact ⟨halike.queues.trans hnext.1, halike.readQueue, halike.writeBuffer, halike.writeDraining,
      halike.pendingRdQ, halike.pendingWrQ, halike.trace⟩

/-- Such a cycle schedules, and else changes nothing that scheduling depends on. -/
theorem clockTick_alike (hplain : cfg.Plain) (htidy : Tidy cfg c)
    (hempty : ∀ i, c.cmdQueue.queues i = []) (h : c.clockTick cfg = .ok c') : ∃ c₁, Alike c c₁ ∧
    Alike (c₁.scheduleTransaction cfg) c' := by
  obtain ⟨⟨r, ch⟩, hrefresh, h⟩ := ok_of_bind h
  obtain ⟨⟨c₂, issued⟩, hissue, h⟩ := ok_of_bind h
  simp only [hplain.selfRefresh, Bool.false_and] at h
  cases h
  have htidy₁ := htidy.move (.refreshTick hrefresh)
  have halike := issue_alike hplain.dual htidy₁ hempty hissue
  refine ⟨c₂.countIdle cfg, ?_, rfl, rfl, rfl, rfl, rfl, rfl, [], (List.append_nil _).symm, by simp⟩
  exact ⟨halike.queues, halike.readQueue, halike.writeBuffer, halike.writeDraining, halike.pendingRdQ,
    halike.pendingWrQ, halike.trace⟩

/-! ### Stuck -/

theorem drainTarget_of_empty (hsplit : cfg.unifiedQueue = false)
    (hempty : ∀ i, c.cmdQueue.queues i = []) :
    c.drainTarget cfg = if c.writeDraining = 0 ∧ (cfg.transQueueSize ≤ c.writeBuffer.length ∨
      8 < c.writeBuffer.length ∨ c.readQueue = []) then
      (c.writeBuffer.length : Int) else c.writeDraining := by
  have hqueueEmpty : c.cmdQueue.queueEmpty cfg = true := by simp [CommandQueue.queueEmpty, hempty]
  simp [drainTarget, hsplit, hqueueEmpty]

theorem hasRoom_of_empty (hroom : 0 < cfg.cmdQueueSize) (hempty : ∀ i, c.cmdQueue.queues i = [])
    (t : Transaction) : c.hasRoom cfg t = true := by
  simpa [hasRoom, CommandQueue.willAcceptCommand, hempty] using hroom

/-- What comes in behind the front does not change that the front is blocked. -/
theorem Wedged.frozen (h : Wedged cfg c) (hfrozen : Frozen c c') : Wedged cfg c' := by
  have hlength := hfrozen.writes.length_le
  refine ⟨h.many.imp (fun hmany => hmany.trans hlength) fun hmany => hmany.trans_le hlength, ?_⟩
  obtain ⟨t, rest, hbuffer, hpending⟩ := h.blocked
  obtain ⟨more, hmore⟩ := hfrozen.writes
  refine ⟨t, rest ++ more, by rw [← hmore, hbuffer, List.cons_append], ?_⟩
  rw [pending_iff] at hpending ⊢
  exact (hfrozen.pendingRd.map Transaction.addr).subset hpending

/-- The cycle of a blocked write ends its draining and schedules nothing. -/
theorem Wedged.schedule (h : Wedged cfg c) (hsplit : cfg.unifiedQueue = false)
    (hroom : 0 < cfg.cmdQueueSize) (hempty : ∀ i, c.cmdQueue.queues i = [])
    (hwrites : ∀ t ∈ c.writeBuffer, t.isWrite = true) (hdraining : Draining c) :
    c.scheduleTransaction cfg = {c with writeDraining := 0} := by
  obtain ⟨t, rest, hbuffer, hpending⟩ := h.blocked
  have hdrain : 0 < c.drainTarget cfg := by
    rw [drainTarget_of_empty hsplit hempty]
    split
    · rw [hbuffer, List.length_cons]
      omega
    · next hnot =>
      have hnonneg := hdraining.nonneg
      by_contra hzero
      exact hnot ⟨by omega, h.many.imp id .inl⟩
  have hfind : c.writeBuffer.find? (c.hasRoom cfg) = some t := by
    rw [hbuffer, List.find?_cons_of_pos (hasRoom_of_empty hroom hempty t)]
  rw [schedule_writes hwrites hsplit hdrain, hfind]
  exact if_pos hpending

/-- Empty command queues, between two cycles. -/
structure Idle (cfg : Config) (c : Controller) : Prop where
  sound : Sound cfg c
  empty : ∀ i, c.cmdQueue.queues i = []
  draining : Draining c

theorem Wedged.tick (h : Wedged cfg c) (hidle : Idle cfg c) (hplain : cfg.Plain)
    (hsplit : cfg.unifiedQueue = false) (hroom : 0 < cfg.cmdQueueSize)
    (htick : c.clockTick cfg = .ok c') :
    Idle cfg c' ∧ Frozen c c' := by
  obtain ⟨c₁, hbefore, hafter⟩ := clockTick_alike hplain hidle.sound.lineup.tidy hidle.empty htick
  have hempty : ∀ i, c₁.cmdQueue.queues i = [] := by
    rw [hbefore.queues]
    exact hidle.empty
  have hwrites : ∀ t ∈ c₁.writeBuffer, t.isWrite = true := by
    rw [hbefore.writeBuffer]
    exact hidle.sound.lineup.writes
  have hdraining : Draining c₁ := by
    refine ⟨?_, ?_⟩
    · rw [hbefore.writeDraining]
      exact hidle.draining.nonneg
    · rw [hbefore.writeDraining, hbefore.writeBuffer]
      exact hidle.draining.le
  rw [(h.frozen hbefore.frozen).schedule hsplit hroom hempty hwrites hdraining] at hafter
  have hsound : Sound cfg c' := hidle.sound.moves hplain (clockTick_moves htick)
  have hpaused : Frozen c₁ {c₁ with writeDraining := 0} :=
    ⟨List.prefix_rfl, List.prefix_rfl, List.prefix_rfl, List.prefix_rfl, [], by simp, by simp⟩
  refine ⟨⟨hsound, ?_, ?_⟩, (hbefore.frozen.trans hpaused).trans hafter.frozen⟩
  · rw [hafter.queues]
    exact hempty
  · refine ⟨?_, ?_⟩
    · rw [hafter.writeDraining]
    · rw [hafter.writeDraining]
      exact Int.natCast_nonneg _

/-- A request joins its queue at the back. -/
theorem addTransaction_frozen (cfg : Config) (c : Controller) (addr : UInt64) (isWrite : Bool) :
    Frozen c (c.addTransaction cfg addr isWrite) ∧
      (c.addTransaction cfg addr isWrite).writeDraining = c.writeDraining := by
  -- A transaction that becomes pending, and is enqueued then.
  have hjoin : ∀ (t : Transaction) (rd wr : List Transaction),
      Frozen c (enqueue cfg {c with
        pendingRdQ := c.pendingRdQ ++ rd
        pendingWrQ := c.pendingWrQ ++ wr} t) ∧
      (enqueue cfg {c with
        pendingRdQ := c.pendingRdQ ++ rd
        pendingWrQ := c.pendingWrQ ++ wr} t).writeDraining = c.writeDraining := by
    intro t rd wr
    have hrd := List.prefix_append c.pendingRdQ rd
    have hwr := List.prefix_append c.pendingWrQ wr
    unfold enqueue
    split
    · exact ⟨⟨List.prefix_rfl, List.prefix_rfl, hrd, hwr, [], by simp, by simp⟩, rfl⟩
    · split
      · exact ⟨⟨List.prefix_rfl, List.prefix_append _ _, hrd, hwr, [], by simp, by simp⟩, rfl⟩
      · exact ⟨⟨List.prefix_append _ _, List.prefix_rfl, hrd, hwr, [], by simp, by simp⟩, rfl⟩
  have hanswer : ∀ (c₁ : Controller) (answers : List Transaction), Frozen c c₁ ∧
      c₁.writeDraining = c.writeDraining → Frozen c {c₁ with returnQueue := answers} ∧
        ({c₁ with returnQueue := answers} : Controller).writeDraining = c.writeDraining := by
    rintro c₁ answers ⟨⟨hreads, hwrites, hrd, hwr, htrace⟩, hdrain⟩
    exact ⟨⟨hreads, hwrites, hrd, hwr, htrace⟩, hdrain⟩
  unfold addTransaction
  dsimp only
  split
  · split
    · exact hanswer c _ ⟨.refl c, rfl⟩
    · refine hanswer _ _ ?_
      simpa using hjoin {addr := addr, addedCycle := c.clk, isWrite := isWrite} []
        [{addr := addr, addedCycle := c.clk, isWrite := isWrite}]
  · split
    · exact hanswer c _ ⟨.refl c, rfl⟩
    · split
      · exact ⟨⟨List.prefix_rfl, List.prefix_rfl, List.prefix_append _ _, List.prefix_rfl,
          [], by simp, by simp⟩, rfl⟩
      · simpa using hjoin {addr := addr, addedCycle := c.clk, isWrite := isWrite}
          [{addr := addr, addedCycle := c.clk, isWrite := isWrite}] []

theorem Wedged.step {e : Event} (h : Wedged cfg c) (hidle : Idle cfg c) (hplain : cfg.Plain)
    (hsplit : cfg.unifiedQueue = false) (hroom : 0 < cfg.cmdQueueSize)
    (hstep : c.step cfg e = .ok c') :
    Idle cfg c' ∧ Frozen c c' := by
  obtain ⟨c₁, hc₁, hsound⟩ := hidle.sound.step (e := e) hplain
  rw [hstep] at hc₁
  obtain rfl := Except.ok.inj hc₁
  cases e with
  | add addr isWrite =>
    cases hstep
    split
    · next haccepts =>
      rw [if_pos haccepts] at hsound
      obtain ⟨hfrozen, hdrain⟩ := addTransaction_frozen cfg c addr isWrite
      refine ⟨⟨hsound, ?_, ?_⟩, hfrozen⟩
      · rw [(addTransaction_beside cfg c addr isWrite).cmdQueue]
        exact hidle.empty
      · have hlength := hfrozen.writes.length_le
        have hle := hidle.draining.le
        rw [← hdrain] at hle
        refine ⟨hdrain ▸ hidle.draining.nonneg, ?_⟩
        omega
    · exact ⟨hidle, .refl c⟩
  | collect clk =>
    cases hstep
    have hsame : Frozen c (c.returnDoneTrans clk).2 ∧ (c.returnDoneTrans clk).2.cmdQueue = c.cmdQueue ∧
        Draining (c.returnDoneTrans clk).2 := by
      unfold returnDoneTrans
      split
      · exact ⟨.refl c, rfl, hidle.draining⟩
      · exact ⟨⟨List.prefix_rfl, List.prefix_rfl, List.prefix_rfl, List.prefix_rfl,
          [], by simp, by simp⟩, rfl, hidle.draining.nonneg, hidle.draining.le⟩
    refine ⟨⟨hsound, ?_, hsame.2.2⟩, hsame.1⟩
    rw [hsame.2.1]
    exact hidle.empty
  | tick => exact h.tick hidle hplain hsplit hroom hstep

/-- Whatever is requested, a blocked channel stays as it is. -/
theorem Wedged.run {events : List Event} (h : Wedged cfg c) (hidle : Idle cfg c) (hplain : cfg.Plain)
    (hsplit : cfg.unifiedQueue = false) (hroom : 0 < cfg.cmdQueueSize)
    (hrun : c.run cfg events = .ok c') :
    Idle cfg c' ∧ Frozen c c' := by
  induction events generalizing c with
  | nil =>
    cases hrun
    exact ⟨hidle, .refl _⟩
  | cons e rest ih =>
    obtain ⟨c₁, hstep, hrest⟩ := ok_of_bind hrun
    obtain ⟨hidle₁, hfrozen⟩ := h.step hidle hplain hsplit hroom hstep
    obtain ⟨hidle', hfrozen'⟩ := ih (h.frozen hfrozen) hidle₁ hrest
    exact ⟨hidle', hfrozen.trans hfrozen'⟩

theorem draining_run (hplain : cfg.Plain) (hsplit : cfg.unifiedQueue = false) {events : List Event}
    (h : run cfg {} events = .ok c) : Draining c := by
  have hboth : Lineup cfg c ∧ Draining c := by
    refine run_invariant (I := fun c => Lineup cfg c ∧ Draining c) ?_ ?_ ?_ h
      ⟨lineup_start cfg, by simp, by simp⟩
    · rintro c c' hmove ⟨hlineup, hdraining⟩
      refine ⟨hlineup.move hplain.dual hmove, ?_⟩
      have hissues : ∀ {c₁ c₂ : Controller} {cmd : Command}, c₁.issueCommand cfg cmd = .ok c₂ →
          Draining c₁ → Draining c₂ := by
        intro c₁ c₂ cmd hissue h₁
        rw [(issueCommand_issues hissue).frame]
        exact ⟨h₁.nonneg, h₁.le⟩
      cases hmove with
      | refreshTick htick => exact ⟨hdraining.nonneg, hdraining.le⟩
      | turn hturned => exact ⟨hdraining.nonneg, hdraining.le⟩
      | refresh front ready hissue => exact hissues hissue hdraining
      | row offers access hissue => exact hissues hissue hdraining
      | access offers access erase hissue => exact hissues hissue ⟨hdraining.nonneg, hdraining.le⟩
      | drop dual offers access erase => exact ⟨hdraining.nonneg, hdraining.le⟩
      | selfRefresh enabled asks ready hissue => exact hissues hissue hdraining
      | idle => exact ⟨hdraining.nonneg, hdraining.le⟩
      | schedule => exact hdraining.schedule hlineup hsplit
      | clock => exact ⟨hdraining.nonneg, hdraining.le⟩
    · rintro c addr isWrite - ⟨hlineup, hdraining⟩
      obtain ⟨hfrozen, hdrain⟩ := addTransaction_frozen cfg c addr isWrite
      have hlength := hfrozen.writes.length_le
      refine ⟨hlineup.add addr isWrite, ?_, ?_⟩
      · rw [hdrain]
        exact hdraining.nonneg
      · have hle := hdraining.le
        rw [hdrain]
        omega
    · rintro c clk ⟨hlineup, hdraining⟩
      refine ⟨hlineup.collect clk, ?_⟩
      unfold returnDoneTrans
      split <;> exact ⟨hdraining.nonneg, hdraining.le⟩
  exact hboth.2

/-! ### Not stuck -/

/-- The transactions that have not been scheduled. -/
def unscheduled (c : Controller) : Nat := c.readQueue.length + c.writeBuffer.length

/-- Scheduling takes the transaction at the front, unless that is a write that is blocked. -/
theorem schedule_takes (hempty : ∀ i, c.cmdQueue.queues i = [])
    (hreads : ∀ t ∈ c.readQueue, t.isWrite = false)
    (hwrites : ∀ t ∈ c.writeBuffer, t.isWrite = true) (hdraining : Draining c)
    (hsplit : cfg.unifiedQueue = false) (hroom : 0 < cfg.cmdQueueSize) (hwork : 0 < c.unscheduled) :
    (c.scheduleTransaction cfg).unscheduled < c.unscheduled ∨
      (∃ t rest, c.writeBuffer = t :: rest ∧ pending c.pendingRdQ t.addr = true) ∧
        0 < c.drainTarget cfg ∧ c.scheduleTransaction cfg = {c with writeDraining := 0} := by
  by_cases hdrain : 0 < c.drainTarget cfg
  · have hschedule := schedule_writes hwrites hsplit hdrain
    have hle := (drainTarget_bounds cfg hdraining).2
    cases hbuffer : c.writeBuffer with
    | nil =>
      rw [hbuffer, List.length_nil] at hle
      omega
    | cons t rest =>
      have hhead := hasRoom_of_empty hroom hempty t
      rw [hbuffer, List.find?_cons_of_pos hhead, List.eraseP_cons_of_pos hhead] at hschedule
      dsimp only at hschedule
      split at hschedule
      · next hpending => exact .inr ⟨⟨t, rest, rfl, hpending⟩, hdrain, hschedule⟩
      · rw [hschedule]
        simp [unscheduled, hbuffer]
  · have hschedule := schedule_reads hreads hsplit hdrain
    cases hqueue : c.readQueue with
    | nil =>
      -- With nothing to read, the writes are drained.
      have hnonneg := hdraining.nonneg
      rw [unscheduled, hqueue, List.length_nil] at hwork
      rw [drainTarget_of_empty hsplit hempty, hqueue] at hdrain
      split at hdrain
      · omega
      · next hnot => exact absurd ⟨by omega, .inr (.inr rfl)⟩ hnot
    | cons t rest =>
      have hhead := hasRoom_of_empty hroom hempty t
      rw [hqueue, List.find?_cons_of_pos hhead, List.eraseP_cons_of_pos hhead] at hschedule
      rw [hschedule]
      simp [unscheduled, hqueue]

theorem Frozen.unscheduled_le (h : Frozen c c') : c.unscheduled ≤ c'.unscheduled :=
  Nat.add_le_add h.reads.length_le h.writes.length_le

theorem Alike.unscheduled_eq (h : Alike c c') : c'.unscheduled = c.unscheduled := by
  rw [unscheduled, h.readQueue, h.writeBuffer, unscheduled]

/-- What a cycle of an idle controller does, if it takes nothing. -/
theorem Idle.tick (h : Idle cfg c) (hplain : cfg.Plain) (hsplit : cfg.unifiedQueue = false)
    (hroom : 0 < cfg.cmdQueueSize) (hwork : 0 < c.unscheduled) (htick : c.clockTick cfg = .ok c')
    (hnone : c.unscheduled ≤ c'.unscheduled) :
    (∃ t rest, c.writeBuffer = t :: rest ∧ pending c.pendingRdQ t.addr = true) ∧
      0 < c.drainTarget cfg ∧ Idle cfg c' ∧ c'.writeDraining = 0 ∧ c'.writeBuffer = c.writeBuffer ∧
      c'.readQueue = c.readQueue ∧ c'.pendingRdQ = c.pendingRdQ := by
  obtain ⟨c₁, hbefore, hafter⟩ := clockTick_alike hplain h.sound.lineup.tidy h.empty htick
  have hempty : ∀ i, c₁.cmdQueue.queues i = [] := by
    rw [hbefore.queues]
    exact h.empty
  have htarget : c₁.drainTarget cfg = c.drainTarget cfg := by
    rw [drainTarget_of_empty hsplit hempty, drainTarget_of_empty hsplit h.empty, hbefore.writeDraining,
      hbefore.writeBuffer, hbefore.readQueue]
  have hreads : ∀ t ∈ c₁.readQueue, t.isWrite = false := hbefore.readQueue ▸ h.sound.lineup.reads
  have hwrites : ∀ t ∈ c₁.writeBuffer, t.isWrite = true := hbefore.writeBuffer ▸ h.sound.lineup.writes
  have hdraining : Draining c₁ := by
    refine ⟨?_, ?_⟩
    · rw [hbefore.writeDraining]
      exact h.draining.nonneg
    · rw [hbefore.writeDraining, hbefore.writeBuffer]
      exact h.draining.le
  rcases schedule_takes hempty hreads hwrites hdraining hsplit hroom (hbefore.unscheduled_eq ▸ hwork) with
    hless | ⟨hblocked, hdrain, hschedule⟩
  · rw [← hafter.unscheduled_eq, hbefore.unscheduled_eq] at hless
    omega
  · rw [hbefore.writeBuffer, hbefore.pendingRdQ] at hblocked
    rw [htarget] at hdrain
    rw [hschedule] at hafter
    have hzero : c'.writeDraining = 0 := hafter.writeDraining
    refine ⟨hblocked, hdrain, ⟨h.sound.moves hplain (clockTick_moves htick), ?_, ?_, ?_⟩,
      hzero, ?_, ?_, ?_⟩
    · rw [hafter.queues]
      exact hempty
    · rw [hzero]
    · rw [hzero]
      exact Int.natCast_nonneg _
    · rw [hafter.writeBuffer, hbefore.writeBuffer]
    · rw [hafter.readQueue, hbefore.readQueue]
    · rw [hafter.pendingRdQ, hbefore.pendingRdQ]

/-- A read that is pending and has no command waits in its queue. -/
theorem Idle.read_of_pending (h : Idle cfg c) (hsplit : cfg.unifiedQueue = false) {addr : UInt64}
    (hpending : pending c.pendingRdQ addr = true) : c.readQueue ≠ [] := by
  have hwaiting := h.sound.lineup.waiting addr
  have hused := h.sound.lineup.used
  rw [if_neg (by simp [hsplit])] at hused
  rintro hnone
  have hread : false ∈ c.waiting cfg addr := by
    rw [hwaiting, owed, hpending]
    simp
  simp only [Controller.waiting, h.empty, queued, hused, hnone, List.filter_nil, List.map_nil,
    List.nil_append, List.mem_map, List.mem_filter] at hread
  obtain ⟨t, ⟨ht, -⟩, hkind⟩ := hread
  rw [h.sound.lineup.writes t ht] at hkind
  cases hkind

/-- Where the last cycle drained nothing and this one takes nothing either, nothing will be taken. -/
theorem Idle.wedged (h : Idle cfg c) (hplain : cfg.Plain) (hsplit : cfg.unifiedQueue = false)
    (hroom : 0 < cfg.cmdQueueSize) (hzero : c.writeDraining = 0) (hwork : 0 < c.unscheduled)
    (htick : c.clockTick cfg = .ok c') (hnone : c.unscheduled ≤ c'.unscheduled) : Wedged cfg c := by
  obtain ⟨hblocked, hdrain, -⟩ := h.tick hplain hsplit hroom hwork htick hnone
  refine ⟨?_, hblocked⟩
  obtain ⟨t, rest, -, hread⟩ := hblocked
  have hreads : c.readQueue ≠ [] := h.read_of_pending hsplit hread
  rw [drainTarget_of_empty hsplit h.empty] at hdrain
  split at hdrain
  · next hagain =>
    obtain ⟨-, hmany | hmany | hnone⟩ := hagain
    · exact .inl hmany
    · exact .inr hmany
    · exact absurd hnone hreads
  · omega

/-- **When a channel is stuck**: with empty command queues, nothing that is waiting ever moves
again, whatever is requested, exactly if a long write buffer has a write at its front whose
address has a read pending. -/
theorem stuck_iff (hplain : cfg.Plain) (hsplit : cfg.unifiedQueue = false)
    (hroom : 0 < cfg.cmdQueueSize) {before : List Event} (h : run cfg {} before = .ok c)
    (hempty : ∀ i, c.cmdQueue.queues i = []) (hwork : 0 < c.unscheduled) :
    (∀ after c', c.run cfg after = .ok c' → Frozen c c') ↔ Wedged cfg c := by
  have hidle : Idle cfg c := ⟨sound_run hplain h, hempty, draining_run hplain hsplit h⟩
  refine ⟨?_, fun hwedged after c' hrun => (hwedged.run hidle hplain hsplit hroom hrun).2⟩
  intro hfrozen
  obtain ⟨c₁, hfirst, -⟩ := hidle.sound.clockTick hplain
  have hrun₁ : c.run cfg [.tick] = .ok c₁ := by
    show c.clockTick cfg >>= _ = _
    rw [hfirst]
    rfl
  obtain ⟨hblocked, -, hidle₁, hzero, hbuffer, hqueue, -⟩ := hidle.tick hplain hsplit hroom hwork hfirst
    (hfrozen _ _ hrun₁).unscheduled_le
  -- The second cycle turns to the reads, since the first has ended the draining.
  obtain ⟨c₂, hsecond, -⟩ := hidle₁.sound.clockTick hplain
  have hrun₂ : c.run cfg [.tick, .tick] = .ok c₂ := by
    show c.clockTick cfg >>= _ = _
    rw [hfirst]
    show c₁.clockTick cfg >>= _ = _
    rw [hsecond]
    rfl
  have hsame : c₁.unscheduled = c.unscheduled := by rw [unscheduled, hbuffer, hqueue, unscheduled]
  have hwedged := hidle₁.wedged hplain hsplit hroom hzero (hsame ▸ hwork) hsecond
    (hsame ▸ (hfrozen _ _ hrun₂).unscheduled_le)
  exact ⟨hbuffer ▸ hwedged.many, hblocked⟩

/-- A read, a write to its address, and eight writes more. -/
def readThenWrites : List Event :=
  .add 0 false :: (List.range 9).map fun i => .add (UInt64.ofNat (0x200 * i)) true

theorem stuck_iff_lpddr5 : ∃ c, run lpddr5Ch4 {} readThenWrites = .ok c ∧
    ∀ after c', c.run lpddr5Ch4 after = .ok c' → Frozen c c' := by
  obtain ⟨c, hrun, hempty, hwork, hwedged⟩ : ∃ c, run lpddr5Ch4 {} readThenWrites = .ok c ∧
      (∀ i, c.cmdQueue.queues i = []) ∧ 0 < c.unscheduled ∧ Wedged lpddr5Ch4 c :=
    ⟨_, rfl, fun _ => rfl, by decide, .inr (by decide), _, _, rfl, by decide⟩
  exact ⟨c, hrun, (stuck_iff lpddr5Ch4_plain rfl (by decide) hrun hempty hwork).mpr hwedged⟩

end Controller

end Hsim.Dramsim3
