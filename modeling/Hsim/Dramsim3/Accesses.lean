import Hsim.Dramsim3.RowWork
import Hsim.Dramsim3.Wedge

/-! Reads and writes are issued.

Between two refreshes every command that is issued is an access, or takes from what the
rows still cost, and of that an access adds little. Since a command is issued whenever
all times are past, accesses come at a rate that depends on the tables alone
(`accesses_within`). -/
namespace Hsim.Dramsim3

namespace Controller
variable {cfg : Config} {c c' : Controller} {bound gap limit : Nat}

/-- What the queues ask for. -/
def OfQueues (cfg : Config) (cmd : Command) : Prop :=
  (∃ t, cmd = transToCommand cfg t) ∨ cmd.cmdType = .activate ∨ cmd.cmdType = .precharge

/-- The reads and writes that have been issued. -/
def accesses (trace : List (Nat × Command)) : Nat := trace.countP fun e => e.2.isReadWrite

theorem accesses_snoc (trace : List (Nat × Command)) (clk : Nat) (cmd : Command) :
    accesses (trace ++ [(clk, cmd)]) = accesses trace + if cmd.isReadWrite then 1 else 0 := by
  rw [accesses, List.countP_append, List.countP_singleton]
  rfl

/-- A command waits all the time. -/
def AlwaysWaiting (cfg : Config) (c : Controller) (events : List Event) : Prop :=
  ∀ first rest c₁, events = first ++ rest → c.run cfg first = .ok c₁ → ∃ i, c₁.cmdQueue.queues i ≠ []

/-! ### A cycle without refreshes -/

/-- What a cycle does that issues a command for the queues. -/
structure Spends (cfg : Config) (limit gap : Nat) (c c' : Controller) : Prop where
  limits : c'.channelState.Limits cfg (limit + (gap + 1))
  refreshes : (refreshes c.cmdTrace).length ≤ (refreshes c'.cmdTrace).length
  work : rowWork cfg c'.channelState c'.cmdQueue + 3 * accesses c.cmdTrace + 1 ≤
    rowWork cfg c.channelState c.cmdQueue + 3 * accesses c'.cmdTrace

/-- A command of the queues spends something. -/
theorem round_spends (hplaces : cfg.Places) (hranks : cfg.RanksExist) (htidy : Tidy cfg c)
    (hawake : ∀ b, (c.channelState.bankStates b).state ≠ .sref)
    (hbounded : cfg.Bounded (OfQueues cfg) gap) (hlimits : c.channelState.Limits cfg limit)
    (hle : c.clk ≤ limit) {q : CommandQueue} {cmd : Command}
    (hround : CommandQueue.Round cfg c.channelState c.cmdQueue (some cmd) q)
    (hissues : Issues cfg {c with cmdQueue := q} cmd c') : Spends cfg limit gap c c' := by
  have htrace : c'.cmdTrace = c.cmdTrace ++ [(c.clk, cmd)] := by rw [hissues.frame]
  have hqueue : c'.cmdQueue = q := by rw [hissues.frame]
  have hissued : ChannelState.Issued cfg c.channelState cmd c.cmdQueue.clk c'.channelState := by
    rw [htidy.clk]
    exact hissues.channel
  have hplace : ∀ {i : Int} {e : Command}, e ∈ c.cmdQueue.queues i →
      cfg.queueIndex e.place = i ∧ e.place ∈ cfg.allBanks := by
    intro i e he
    obtain ⟨t, rfl, rfl⟩ := htidy.entries i e he
    exact ⟨rfl, Config.mem_allBanks hplaces hranks t.addr⟩
  have hwork : OfQueues cfg cmd ∧ rowWork cfg c'.channelState q + 3 * accesses c.cmdTrace + 1 ≤
      rowWork cfg c.channelState c.cmdQueue + 3 * accesses c'.cmdTrace := by
    rw [htrace, accesses_snoc]
    cases hround with
    | @other i _ entry offers free access =>
      obtain ⟨hi, hmem⟩ := hplace (Offers_mem offers)
      obtain ⟨hcmd, hless⟩ := row_command hawake offers (fun e he => htidy.entry_isReadWrite he)
        hi hmem access
        hissued
      rw [if_neg (by simp [access])]
      refine ⟨.inr hcmd, ?_⟩
      change rowWork cfg c'.channelState c.cmdQueue + _ + 1 ≤ _
      omega
    | @access i _ entry _ offers free access erase =>
      obtain rfl := Offers_entry offers access
      obtain ⟨t, rfl, -⟩ := htidy.entries i cmd (Offers_mem offers)
      have hbank := Command.isRankCmd_of_isReadWrite access
      have hsame : ∀ e ∈ c.cmdQueue.queues (cfg.queueIndex (transToCommand cfg t).place),
          e.hexAddr = (transToCommand cfg t).hexAddr → e.place = (transToCommand cfg t).place := by
        intro e he haddr
        obtain ⟨s, rfl, -⟩ := htidy.entries _ e he
        rw [transToCommand_hexAddr, transToCommand_hexAddr] at haddr
        rw [Command.place, Command.place, transToCommand_addr, transToCommand_addr, haddr]
      have hle := rowWork_access hissued hbank erase hsame
      rw [if_pos access]
      refine ⟨.inl ⟨t, rfl⟩, ?_⟩
      change _ ≤ rowWork cfg c.channelState c.cmdQueue + 2 at hle
      omega
  refine ⟨?_, ?_, ?_⟩
  · exact (hlimits.mono (by omega)).issued hbounded hwork.1 (show c.clk + gap ≤ _ by omega)
      hissues.channel
  · rw [htrace, refreshes_snoc]
    split
    · rw [List.length_append]
      omega
    · exact le_rfl
  · rw [hqueue]
    exact hwork.2

/-- A cycle in which no refresh waits spends something, or lets time pass before the limit. -/
theorem Steady.free_tick (h : Steady cfg c) (hplain : cfg.Plain) (hcounts : cfg.Counts)
    (hranks : cfg.RanksExist) (hbounded : cfg.Bounded (OfQueues cfg) gap)
    (hlimits : c.channelState.Limits cfg limit) (hle : c.clk ≤ limit)
    (hwaiting : ∃ i, c.cmdQueue.queues i ≠ [])
    (hdone : cfg.dueBy c'.refresh.clk ≤ (refreshes c.cmdTrace).length)
    (htick : c.clockTick cfg = .ok c') :
    Spends cfg limit gap c c' ∨ Waits c c' ∧ c.clk < limit := by
  obtain ⟨r, ch, c₂, hrefresh, hturn, hended⟩ := clockTick_turn hplain htick
  have htidy := h.sound.lineup.tidy.move (.refreshTick hrefresh)
  have hschedule := h.schedule.move hcounts hplain.selfRefresh (.refreshTick hrefresh)
  have hclk : c'.refresh.clk = r.clk := by
    rw [refresh_clockTick_clk hrefresh, (clockTick_clk htick hplain.selfRefresh).2]
  have hempty : ch.refreshQ = [] := by
    have hlength := hschedule.length_order
    rw [hclk] at hdone
    exact List.eq_nil_of_length_eq_zero (by dsimp only at hlength; omega)
  obtain ⟨new, rfl, -⟩ := Refresh.clockTick_refreshQ hrefresh
  have hnext : ∀ {answer : Option Command} {q : CommandQueue}, Controller.nextCommand cfg {c with
      refresh := r
      channelState := {c.channelState with refreshQ := c.channelState.refreshQ ++ new}} =
        .ok (answer, q) →
      CommandQueue.Round cfg {c.channelState with refreshQ := c.channelState.refreshQ ++ new}
      c.cmdQueue answer q := by
    intro answer q hanswer
    unfold Controller.nextCommand at hanswer
    dsimp only at hanswer hempty
    rw [hempty] at hanswer
    rw [hempty]
    exact CommandQueue.issueFrom_round hanswer
  cases hturn with
  | nothing hanswer =>
    have hnone : ¬ c.cmdTrace.length < c'.cmdTrace.length := by
      rw [hended.cmdTrace]
      exact lt_irrefl _
    refine .inr ⟨(Moves.issues_or_waits hplain.dual (clockTick_moves htick)).resolve_left hnone, ?_⟩
    by_contra hpast
    exact hnone (h.issues hplain hcounts hranks hlimits (not_lt.mp hpast) (.inr hwaiting) htick)
  | @command q cmd _ hanswer issues =>
    left
    have hlimits' : ChannelState.Limits cfg
        {c.channelState with refreshQ := c.channelState.refreshQ ++ new} limit :=
      ⟨hlimits.due, hlimits.fourAw, hlimits.thirtyTwoAw⟩
    have hspends := round_spends hplain.places hranks htidy h.sound.awake hbounded hlimits' hle
      (hnext hanswer) issues
    refine ⟨?_, ?_, ?_⟩
    · refine ⟨?_, ?_, ?_⟩
      · rw [hended.bankStates]
        exact hspends.limits.due
      · rw [hended.fourAw]
        exact hspends.limits.fourAw
      · rw [hended.thirtyTwoAw]
        exact hspends.limits.thirtyTwoAw
    · rw [hended.cmdTrace]
      exact hspends.refreshes
    · rw [hended.cmdTrace]
      have hprefix : rowWork cfg c'.channelState c'.cmdQueue ≤ rowWork cfg c₂.channelState c₂.cmdQueue :=
        rowWork_prefix hended.bankStates hended.queues
      exact (Nat.add_le_add_right (Nat.add_le_add_right hprefix _) 1).trans hspends.work

/-! ### A run without refreshes -/

/-- What has been issued stays. -/
theorem run_trace {events : List Event} (h : c.run cfg events = .ok c') :
    c.cmdTrace <+: c'.cmdTrace := by
  have hissued : ∀ {c₀ c₁ c₂ : Controller} {cmd : Command}, c₁.cmdTrace = c₀.cmdTrace →
      c₁.issueCommand cfg cmd = .ok c₂ → c.cmdTrace <+: c₀.cmdTrace → c.cmdTrace <+: c₂.cmdTrace := by
    intro c₀ c₁ c₂ cmd htrace hissue hprefix
    rw [(issueCommand_issues hissue).frame]
    exact (htrace ▸ hprefix).trans (List.prefix_append _ _)
  refine run_invariant (I := fun c₁ => c.cmdTrace <+: c₁.cmdTrace) ?_ ?_ ?_ h List.prefix_rfl
  · intro c₁ c₂ hmove hprefix
    cases hmove with
    | refresh front ready hissue => exact hissued rfl hissue hprefix
    | row offers access hissue => exact hissued rfl hissue hprefix
    | @access i cmd entry q _ offers access erase hissue =>
      have htrace : ({c₁ with cmdQueue := q} : Controller).cmdTrace = c₁.cmdTrace := rfl
      exact hissued htrace hissue hprefix
    | selfRefresh enabled asks ready hissue => exact hissued rfl hissue hprefix
    | schedule => exact (scheduleTransaction_scheduled cfg c₁).frame.cmdTrace ▸ hprefix
    | refreshTick | turn | drop | idle | clock => exact hprefix
  · intro c₁ addr isWrite _ hprefix
    exact (addTransaction_beside cfg c₁ addr isWrite).cmdTrace ▸ hprefix
  · intro c₁ clk hprefix
    exact (returnDoneTrans_beside c₁ clk).cmdTrace ▸ hprefix

theorem accesses_le {events : List Event} (h : c.run cfg events = .ok c') :
    accesses c.cmdTrace ≤ accesses c'.cmdTrace :=
  (run_trace h).sublist.countP_le

theorem AlwaysWaiting.rest {first rest : List Event} {c₁ : Controller}
    (h : AlwaysWaiting cfg c (first ++ rest)) (hfirst : c.run cfg first = .ok c₁) :
    AlwaysWaiting cfg c₁ rest := by
  intro part later c₂ hsplit hpart
  exact h (first ++ part) later c₂ (by rw [hsplit, List.append_assoc])
    (run_append.mpr ⟨c₁, hfirst, hpart⟩)

theorem AlwaysWaiting.left {first rest : List Event} (h : AlwaysWaiting cfg c (first ++ rest)) :
    AlwaysWaiting cfg c first := by
  intro part later c₁ hsplit hpart
  exact h part (later ++ rest) c₁ (by rw [hsplit, List.append_assoc]) hpart

/-- Time without accesses is paid for by the rows. -/
theorem Steady.run_accesses (h : Steady cfg c) (hplain : cfg.Plain) (hcounts : cfg.Counts)
    (hranks : cfg.RanksExist) (hbounded : cfg.Bounded (OfQueues cfg) gap)
    (hlimits : c.channelState.Limits cfg limit) (hle : c.clk ≤ limit) {events : List Event}
    (hwaiting : AlwaysWaiting cfg c events) (hrun : c.run cfg events = .ok c')
    (hdone : cfg.dueBy c'.refresh.clk ≤ (refreshes c.cmdTrace).length) :
    c'.clk + 3 * accesses c.cmdTrace * (gap + 1) < limit +
      (rowWork cfg c.channelState c.cmdQueue + 3 * accesses c'.cmdTrace + 1) * (gap + 1) := by
  induction events generalizing c limit with
  | nil =>
    cases hrun
    simp only [Nat.add_mul]
    omega
  | cons e rest ih =>
    obtain ⟨c₁, hstep, hrest⟩ := ok_of_bind hrun
    have hsteady := (h.step hplain hcounts hstep).1
    have hwaiting' : AlwaysWaiting cfg c₁ rest := hwaiting.rest (run_singleton.mpr hstep)
    have hwaits : Waits c c₁ → c₁.clk ≤ limit → c'.clk + 3 * accesses c.cmdTrace * (gap + 1) < limit +
        (rowWork cfg c.channelState c.cmdQueue + 3 * accesses c'.cmdTrace + 1) * (gap + 1) := by
      intro hwaits hclk
      have hlater := ih hsteady (hwaits.limits hlimits) hclk hwaiting' hrest (hwaits.cmdTrace ▸ hdone)
      rw [hwaits.cmdTrace] at hlater
      have hwork : rowWork cfg c₁.channelState c₁.cmdQueue ≤ rowWork cfg c.channelState c.cmdQueue :=
        rowWork_prefix hwaits.bankStates hwaits.queues
      exact hlater.trans_le (Nat.add_le_add_left (Nat.mul_le_mul_right _ (by omega)) _)
    by_cases htick : e = .tick
    · subst htick
      have hticks := (run_ticks hplain.selfRefresh hrest).2
      have hdone₁ : cfg.dueBy c₁.refresh.clk ≤ (refreshes c.cmdTrace).length :=
        (Nat.div_le_div_right (by omega)).trans hdone
      have hclk := (step_clk hplain.selfRefresh hstep).1
      rcases h.free_tick hplain hcounts hranks hbounded hlimits hle (hwaiting [] _ c rfl rfl)
        hdone₁ hstep with
        hspends | ⟨hsame, hless⟩
      · have hlater := ih hsteady hspends.limits (hclk.le.trans (by simp; omega)) hwaiting' hrest
          (hdone.trans hspends.refreshes)
        have hwork := Nat.mul_le_mul_right (gap + 1) hspends.work
        simp only [Nat.add_mul, Nat.one_mul] at hlater hwork ⊢
        omega
      · exact hwaits hsame (hclk.le.trans (by simp; omega))
    · have hbeside := step_beside htick hstep
      exact hwaits hbeside.waits (hbeside.clk ▸ hle)

/-! ### A stream of reads -/

theorem AlwaysWaiting.cons {e : Event} {rest : List Event} (hwaits : ∃ i, c.cmdQueue.queues i ≠ [])
    (h : ∀ c₁, c.step cfg e = .ok c₁ → AlwaysWaiting cfg c₁ rest) :
    AlwaysWaiting cfg c (e :: rest) := by
  intro first later c₂ hsplit hrun
  cases first with
  | nil =>
    cases hrun
    exact hwaits
  | cons e' first =>
    rw [List.cons_append] at hsplit
    obtain ⟨rfl, hrest⟩ := List.cons.inj hsplit
    obtain ⟨c₁, hstep, hfirst⟩ := ok_of_bind hrun
    exact h c₁ hstep first later c₂ hrest hfirst

/-- A read is offered before every cycle. -/
def readStream (addrs : List UInt64) : List Event := addrs.flatMap fun addr => [.add addr false, .tick]

theorem count_readStream (addrs : List UInt64) : (readStream addrs).count .tick = addrs.length := by
  induction addrs with
  | nil => rfl
  | cons addr rest ih =>
    rw [readStream, List.flatMap_cons, List.count_append, List.length_cons, Nat.add_comm]
    exact congrArg (· + 1) ih

/-- Nothing is to be written. -/
structure Unwritten (c : Controller) : Prop where
  writeBuffer : c.writeBuffer = []
  writeDraining : c.writeDraining = 0
  pendingWrQ : c.pendingWrQ = []

/-- A new read joins the queue, or finds it full. -/
theorem Unwritten.add (h : Unwritten c) (hsplit : cfg.unifiedQueue = false)
    (hroom : 0 < cfg.transQueueSize) {addr : UInt64} (hnew : pending c.pendingRdQ addr = false)
    (hstep : c.step cfg (.add addr false) = .ok c') :
    Unwritten c' ∧ c'.readQueue ≠ [] ∧ ∀ t ∈ c'.pendingRdQ, t ∈ c.pendingRdQ ∨ t.addr = addr := by
  cases hstep
  split
  · have hwrites : pending c.pendingWrQ addr = false := by rw [h.pendingWrQ]; rfl
    unfold addTransaction enqueue
    simp only [Bool.false_eq_true, if_false, hwrites, hnew, hsplit]
    refine ⟨⟨h.writeBuffer, h.writeDraining, h.pendingWrQ⟩, by simp, ?_⟩
    intro t ht
    exact (List.mem_append.mp ht).imp id fun ht => congrArg Transaction.addr (List.mem_singleton.mp ht)
  · next hfull =>
    refine ⟨h, ?_, fun t ht => .inl ht⟩
    intro hnone
    rw [willAcceptTransaction, hsplit, hnone] at hfull
    exact hfull (by simpa using hroom)

theorem Turn.leaves (h : Turn cfg c c') : c'.readQueue = c.readQueue ∧
    c'.writeBuffer = c.writeBuffer ∧ c'.writeDraining = c.writeDraining ∧
    c'.pendingRdQ ⊆ c.pendingRdQ ∧ c'.pendingWrQ ⊆ c.pendingWrQ := by
  cases h with
  | nothing => exact ⟨rfl, rfl, rfl, fun _ => id, fun _ => id⟩
  | @command q cmd _ _ issues =>
    refine ⟨by rw [issues.frame], by rw [issues.frame], by rw [issues.frame], ?_, ?_⟩
    · cases hread : cmd.isRead with
      | true =>
        rw [(issues.read hread).2.1]
        exact fun _ => List.mem_of_mem_filter
      | false =>
        rw [(issues.noRead hread).1]
        exact fun _ => id
    · cases hwrite : cmd.isWrite with
      | true =>
        rw [(issues.write hwrite).2]
        exact List.eraseP_subset
      | false =>
        rw [issues.noWrite hwrite]
        exact fun _ => id

/-- With reads in their queue and nothing to write, scheduling leaves a command. -/
theorem Unwritten.schedule (h : Unwritten c) (hsplit : cfg.unifiedQueue = false)
    (hroom : 0 < cfg.cmdQueueSize) (hreads : ∀ t ∈ c.readQueue, t.isWrite = false)
    (hqueue : c.readQueue ≠ []) :
    Unwritten (c.scheduleTransaction cfg) ∧
      ∃ i, (c.scheduleTransaction cfg).cmdQueue.queues i ≠ [] := by
  have hdrain : c.drainTarget cfg = 0 := by
    unfold drainTarget
    rw [h.writeBuffer, h.writeDraining]
    split <;> rfl
  rw [schedule_reads hreads hsplit (by rw [hdrain]; exact lt_irrefl _)]
  cases hfind : c.readQueue.find? (c.hasRoom cfg) with
  | none =>
    refine ⟨⟨h.writeBuffer, hdrain, h.pendingWrQ⟩, ?_⟩
    obtain ⟨t, rest, ht⟩ := List.exists_cons_of_ne_nil hqueue
    have hfull := List.find?_eq_none.mp hfind t (by simp [ht])
    refine ⟨cfg.queueIndex (transToCommand cfg t).place, ?_⟩
    intro hnone
    refine hfull ?_
    rw [hasRoom, CommandQueue.willAcceptCommand, show c.cmdQueue.queues _ = [] from hnone]
    exact decide_eq_true hroom
  | some t =>
    have hfree : c.hasRoom cfg t = true := List.find?_some hfind
    refine ⟨⟨h.writeBuffer, hdrain, h.pendingWrQ⟩, cfg.queueIndex (transToCommand cfg t).place, ?_⟩
    unfold hasRoom CommandQueue.willAcceptCommand at hfree
    simp [CommandQueue.addCommand, of_decide_eq_true hfree]

theorem Unwritten.tick (h : Unwritten c) (hplain : cfg.Plain) (hsplit : cfg.unifiedQueue = false)
    (hroom : 0 < cfg.cmdQueueSize) (hreads : ∀ t ∈ c.readQueue, t.isWrite = false)
    (hqueue : c.readQueue ≠ []) (htick : c.clockTick cfg = .ok c') :
    Unwritten c' ∧ c'.pendingRdQ ⊆ c.pendingRdQ ∧ ∃ i, c'.cmdQueue.queues i ≠ [] := by
  obtain ⟨r, ch, c₂, -, hturn, rfl⟩ := clockTick_ends hplain htick
  obtain ⟨hreadQueue, hwriteBuffer, hdraining, hpendingRd, hpendingWr⟩ := hturn.leaves
  have hunwritten : Unwritten (c₂.countIdle cfg) :=
    ⟨hwriteBuffer.trans h.writeBuffer, hdraining.trans h.writeDraining,
      List.subset_nil.mp (h.pendingWrQ ▸ hpendingWr)⟩
  obtain ⟨hafter, hwaits⟩ := hunwritten.schedule hsplit hroom (c := c₂.countIdle cfg)
    (by rw [countIdle, hreadQueue]; exact hreads) (by rw [countIdle, hreadQueue]; exact hqueue)
  refine ⟨⟨hafter.writeBuffer, hafter.writeDraining, hafter.pendingWrQ⟩, ?_, hwaits⟩
  show (scheduleTransaction cfg (c₂.countIdle cfg)).pendingRdQ ⊆ c.pendingRdQ
  rw [(scheduleTransaction_scheduled cfg (c₂.countIdle cfg)).frame.pendingRdQ]
  exact hpendingRd

/-- While a new read is offered before every cycle, commands wait. -/
theorem Unwritten.waiting (h : Unwritten c) (hsound : Sound cfg c) (hplain : cfg.Plain)
    (hsplit : cfg.unifiedQueue = false) (hcmds : 0 < cfg.cmdQueueSize)
    (htrans : 0 < cfg.transQueueSize) (hwaits : ∃ i, c.cmdQueue.queues i ≠ []) {addrs : List UInt64}
    (hnodup : addrs.Nodup) (hnew : ∀ addr ∈ addrs, pending c.pendingRdQ addr = false) :
    AlwaysWaiting cfg c (readStream addrs) := by
  induction addrs generalizing c with
  | nil =>
    intro first rest c₁ hsplit hrun
    rw [(List.append_eq_nil_iff.mp hsplit.symm).1] at hrun
    cases hrun
    exact hwaits
  | cons addr rest ih =>
    obtain ⟨hfresh, hnodup⟩ := List.nodup_cons.mp hnodup
    refine .cons hwaits fun c₁ hadd => .cons ?_ fun c₂ htick => ?_
    · rw [(step_beside (by simp) hadd).cmdQueue]
      exact hwaits
    obtain ⟨_, hadd', hsound₁⟩ := hsound.step (e := .add addr false) hplain
    cases hadd.symm.trans hadd'
    obtain ⟨hunwritten₁, hqueue, hpending₁⟩ := h.add hsplit htrans (hnew addr List.mem_cons_self) hadd
    obtain ⟨_, htick', hsound₂⟩ := hsound₁.clockTick hplain
    cases Eq.trans (Eq.symm htick) htick'
    obtain ⟨hunwritten₂, hpending₂, hwaits₂⟩ :=
      hunwritten₁.tick hplain hsplit hcmds hsound₁.lineup.reads hqueue htick
    refine ih hunwritten₂ hsound₂ hwaits₂ hnodup ?_
    intro other hother
    rw [Bool.eq_false_iff]
    intro hpending
    obtain ⟨t, ht, rfl⟩ := List.mem_map.mp (pending_iff.mp hpending)
    rcases hpending₁ t (hpending₂ ht) with hold | hadded
    · have hnone := hnew t.addr (List.mem_cons_of_mem _ hother)
      rw [pending_iff.mpr (List.mem_map_of_mem hold)] at hnone
      cases hnone
    · exact hfresh (hadded ▸ hother)

/-! ### From one refresh to the next -/

/-- A refresh leaves the rows of its rank closed. -/
theorem Steady.refreshed (h : Steady cfg c) (hplain : cfg.Plain) (hcounts : cfg.Counts)
    (hpolicy : cfg.refreshPolicy ≠ .bankLevelStaggered) (htick : c.clockTick cfg = .ok c')
    (hmore : (refreshes c.cmdTrace).length < (refreshes c'.cmdTrace).length) :
    rowWork cfg c'.channelState c'.cmdQueue + cfg.banks.toNat ≤ 2 * cfg.allBanks.card := by
  obtain ⟨r, ch, c₂, hrefresh, hturn, hended⟩ := clockTick_turn hplain htick
  have htidy := h.sound.lineup.tidy.move (.refreshTick hrefresh)
  have hschedule := h.schedule.move hcounts hplain.selfRefresh (.refreshTick hrefresh)
  have hmarked : Marked cfg {c with
      refresh := r
      channelState := ch} := by
    intro hin
    obtain ⟨new, hch, -⟩ := Refresh.clockTick_refreshQ hrefresh
    obtain ⟨first, later, hfront, hmem⟩ := h.marked hin
    exact ⟨first, later ++ new, by rw [hch, hfront]; rfl, hmem⟩
  rw [hended.cmdTrace] at hmore
  cases hqueue : ch.refreshQ with
  | nil =>
    rw [(Turn.empty htidy hqueue hturn).1] at hmore
    exact absurd hmore (lt_irrefl _)
  | cons ref rest =>
    have href := htidy.refreshes ref (by simp [hqueue])
    obtain ⟨hfront, -⟩ := Turn.front htidy hmarked hqueue hturn
    cases hfront with
    | refreshed issues channel clk trace marks =>
      have hmem : ref ∈ (List.range (cfg.dueBy r.clk)).map cfg.refreshAt := by
        rw [← hschedule.order]
        exact List.mem_append_right _ (by simp [hqueue])
      obtain ⟨k, -, rfl⟩ := List.mem_map.mp hmem
      obtain ⟨hcmd, hlow, hhigh⟩ := Config.refreshAt_rank hcounts hpolicy k
      refine rowWork_refreshed hcounts hlow hhigh ?_ c'.cmdQueue
      intro b hb
      have htarget : b ∈ cfg.targets (cfg.refreshAt k) := by
        rwa [Config.targets, if_pos (by simp [Command.isRankCmd, hcmd])]
      obtain ⟨s, hs, hstate⟩ := issues.channel.target b htarget
      rw [hended.bankStates, hstate, BankState.updateTimings_state]
      unfold BankState.updateState at hs
      rw [hcmd] at hs
      split at hs <;> simp_all
    | precharged issues channel clk trace ready pre =>
      rw [(other_frame issues trace channel (by simp [Command.isRefresh, pre])).1] at hmore
      exact absurd hmore (lt_irrefl _)
    | waits ready channel trace =>
      rw [trace] at hmore
      exact absurd hmore (lt_irrefl _)
    | passed issues channel clk trace ready mem answer free =>
      have hcmd := isRefresh_of_entry (htidy.entry_isReadWrite mem) answer
      rw [(other_frame issues trace channel hcmd).1] at hmore
      exact absurd hmore (lt_irrefl _)

/-- Where a run first has a property that it ends with. -/
theorem run_crosses {P : Controller → Prop} {events : List Event} (h : c.run cfg events = .ok c')
    (hstart : ¬ P c) (hend : P c') : ∃ first e rest c₁ c₂, events = first ++ e :: rest ∧
      c.run cfg first = .ok c₁ ∧ c₁.step cfg e = .ok c₂ ∧ c₂.run cfg rest = .ok c' ∧
      ¬ P c₁ ∧ P c₂ := by
  induction events generalizing c with
  | nil =>
    cases h
    exact absurd hend hstart
  | cons e rest ih =>
    obtain ⟨c₁, hstep, hrest⟩ := ok_of_bind h
    by_cases hc₁ : P c₁
    · exact ⟨[], e, rest, c, c₁, rfl, rfl, hstep, hrest, hstart, hc₁⟩
    · obtain ⟨first, e', rest', c₂, c₃, hsplit, hfirst, hstep', hrest', hc₂, hc₃⟩ := ih hrest hc₁
      refine ⟨e :: first, e', rest', c₂, c₃, by rw [hsplit]; rfl, ?_, hstep', hrest', hc₂, hc₃⟩
      rw [run, hstep]
      exact hfirst

/-- The part of a run with so many cycles. -/
theorem split_ticks {events : List Event} {n : Nat} (h : n ≤ events.count .tick) :
    ∃ first rest, events = first ++ rest ∧ first.count .tick = n := by
  induction events generalizing n with
  | nil => exact ⟨[], [], rfl, (Nat.le_zero.mp h).symm⟩
  | cons e rest ih =>
    cases n with
    | zero => exact ⟨[], e :: rest, rfl, rfl⟩
    | succ n =>
      rw [List.count_cons] at h
      by_cases htick : e = .tick
      · rw [if_pos (by simp [htick])] at h
        obtain ⟨first, later, hsplit, hcount⟩ := ih (Nat.le_of_succ_le_succ h)
        exact ⟨e :: first, later, by rw [hsplit]; rfl, by rw [htick, List.count_cons_self, hcount]⟩
      · rw [if_neg (by simp [htick])] at h
        obtain ⟨first, later, hsplit, hcount⟩ := ih h
        exact ⟨e :: first, later, by rw [hsplit]; rfl, by rw [List.count_cons_of_ne htick, hcount]⟩

/-- While commands wait, more than `n` accesses are issued in two refresh intervals, if an
interval leaves room for the refresh, for what the rows cost, and for `n` of them. -/
theorem run_rate {pre n : Nat} (hplain : cfg.Plain) (hcounts : cfg.Counts) (hranks : cfg.RanksExist)
    (hpolicy : cfg.refreshPolicy ≠ .bankLevelStaggered) (hdelays : cfg.DelaysWithin bound pre)
    (hany : cfg.Bounded (fun _ => True) bound) (hbounded : cfg.Bounded (OfQueues cfg) gap)
    (hinterval : cfg.refreshDelay bound pre + 1 + bound +
      (2 * cfg.allBanks.card - cfg.banks.toNat + 3 * n + 1) * (gap + 1) ≤ cfg.refreshInterval)
    {before events : List Event} (h : run cfg {} before = .ok c)
    (hwaiting : AlwaysWaiting cfg c events) (hrun : c.run cfg events = .ok c')
    (hticks : 2 * cfg.refreshInterval ≤ events.count .tick) :
    accesses c.cmdTrace + n < accesses c'.cmdTrace := by
  have hsteady := ((steady_start hcounts).run hplain hcounts h).1
  have hself := hplain.selfRefresh
  have hshort : cfg.refreshDelay bound pre < cfg.refreshInterval := by omega
  have hissued : ∀ {events : List Event} {c₁ : Controller}, run cfg {} events = .ok c₁ → ∀ k,
      (k + 1) * cfg.refreshInterval + cfg.refreshDelay bound pre < c₁.clk →
      k < (refreshes c₁.cmdTrace).length :=
    fun h₁ _ => issued_of_late hplain hcounts hpolicy hdelays hshort h₁
  -- The number of the next refresh that comes due, and the run up to the one after it.
  obtain ⟨k, hk⟩ : ∃ k, k = (c.clk - 1) / cfg.refreshInterval := ⟨_, rfl⟩
  have hlow := Nat.div_mul_le_self (c.clk - 1) cfg.refreshInterval
  have hhigh := Nat.lt_div_mul_add (a := c.clk - 1) (show 0 < cfg.refreshInterval by omega)
  rw [← hk] at hlow hhigh
  have hmul : (k + 1) * cfg.refreshInterval = k * cfg.refreshInterval + cfg.refreshInterval ∧
      (k + 2) * cfg.refreshInterval = k * cfg.refreshInterval + 2 * cfg.refreshInterval :=
    ⟨by rw [Nat.add_mul, Nat.one_mul], by rw [Nat.add_mul]⟩
  obtain ⟨first, rest, rfl, hcount⟩ := split_ticks
    (show (k + 2) * cfg.refreshInterval - c.clk ≤ events.count .tick by omega)
  obtain ⟨c₁, hfirst, hrest⟩ := run_append.mp hrun
  have hclk₁ := (run_ticks hself hfirst).1
  have hrefresh₁ := run_clk hself (run_append.mpr ⟨c, h, hfirst⟩)
  rw [hcount] at hclk₁
  have hbefore : ¬ k < (refreshes c.cmdTrace).length := by
    have hlength := hsteady.schedule.length_order
    rw [run_clk hself h, Config.dueBy, ← hk] at hlength
    omega
  obtain ⟨part, e, later, c₂, c₃, rfl, hpart, hstep, hlater, hnot, hmore⟩ := run_crosses
    (P := fun c => k < (refreshes c.cmdTrace).length) hfirst hbefore
      (hissued (run_append.mpr ⟨c, h, hfirst⟩) k (by omega))
  have htick : e = .tick := by
    by_contra hne
    exact hnot ((step_beside hne hstep).cmdTrace ▸ hmore)
  subst htick
  have hclk₂ : c₂.clk ≤ (k + 1) * cfg.refreshInterval + cfg.refreshDelay bound pre := by
    by_contra hlate
    exact hnot (hissued (run_append.mpr ⟨c, h, hpart⟩) k (not_le.mp hlate))
  have hclk₃ := (step_clk hself hstep).1
  have hsteady₂ := (hsteady.run hplain hcounts hpart).1
  have hsteady₃ := (hsteady₂.step hplain hcounts hstep).1
  have hwork := hsteady₂.refreshed hplain hcounts hpolicy hstep (by omega)
  have hrun₃ : c.run cfg (part ++ [.tick]) = .ok c₃ := run_append.mpr ⟨c₂, hpart, run_singleton.mpr hstep⟩
  have hlimits := limits_run hplain.places hany (run_append.mpr ⟨c, h, hrun₃⟩)
  have hwaiting₃ : AlwaysWaiting cfg c₃ later := by
    rw [← List.singleton_append, ← List.append_assoc] at hwaiting
    exact hwaiting.left.rest hrun₃
  have hdone : cfg.dueBy c₁.refresh.clk ≤ (refreshes c₃.cmdTrace).length := by
    have hdue : cfg.dueBy c₁.refresh.clk < k + 2 := (Nat.div_lt_iff_lt_mul (by omega)).mpr (by omega)
    omega
  have hrate := hsteady₃.run_accesses hplain hcounts hranks hbounded hlimits (Nat.le_add_right _ _)
    hwaiting₃ hlater hdone
  have hfew := accesses_le hrun₃
  have hend := accesses_le hrest
  by_contra hslow
  have hmany := Nat.mul_le_mul_right (gap + 1) (show
    rowWork cfg c₃.channelState c₃.cmdQueue + 3 * accesses c₁.cmdTrace + 1 ≤
      (2 * cfg.allBanks.card - cfg.banks.toNat + 3 * n + 1) + 3 * accesses c₃.cmdTrace by omega)
  rw [Nat.add_mul (2 * cfg.allBanks.card - cfg.banks.toNat + 3 * n + 1)] at hmany
  simp only [List.count_singleton, beq_self_eq_true, if_true] at hclk₃
  omega

/-- **Reads and writes are issued at a rate**: in any two refresh intervals more than `n`, or
there is a moment at which no command waits. -/
theorem accesses_within {pre n : Nat} (hplain : cfg.Plain) (hcounts : cfg.Counts)
    (hranks : cfg.RanksExist) (hpolicy : cfg.refreshPolicy ≠ .bankLevelStaggered)
    (hdelays : cfg.DelaysWithin bound pre) (hany : cfg.Bounded (fun _ => True) bound)
    (hbounded : cfg.Bounded (OfQueues cfg) gap) (hinterval : cfg.refreshDelay bound pre + 1 + bound +
      (2 * cfg.allBanks.card - cfg.banks.toNat + 3 * n + 1) * (gap + 1) ≤ cfg.refreshInterval)
    {before events : List Event} (h : run cfg {} before = .ok c) (hrun : c.run cfg events = .ok c')
    (hticks : 2 * cfg.refreshInterval ≤ events.count .tick) :
      accesses c.cmdTrace + n < accesses c'.cmdTrace ∨ ∃ first rest c₁, events = first ++ rest ∧
      c.run cfg first = .ok c₁ ∧ ∀ i, c₁.cmdQueue.queues i = [] := by
  by_cases hwaiting : AlwaysWaiting cfg c events
  · exact .inl (run_rate hplain hcounts hranks hpolicy hdelays hany hbounded hinterval h hwaiting
      hrun hticks)
  · right
    unfold AlwaysWaiting at hwaiting
    push Not at hwaiting
    exact hwaiting

theorem lpddr5Ch4_boundedQueues : lpddr5Ch4.Bounded (OfQueues lpddr5Ch4) 51 := by
  have htables : ∀ t : CommandType, t = .read ∨ t = .write ∨ t = .activate ∨ t = .precharge →
      ∀ e ∈ lpddr5Ch4.tables t, e.1 ≠ .refreshBank → 0 ≤ e.2 ∧ e.2 ≤ 51 := by
    rintro t (rfl | rfl | rfl | rfl) <;> decide
  refine ⟨?_, by decide, by decide⟩
  intro cmd b t d hcmd huses hd
  refine htables cmd.cmdType ?_ (t, d) (Config.delays_subset cmd b hd) ?_
  · rcases hcmd with ⟨t, rfl⟩ | hact | hpre
    · cases hkind : t.isWrite with
      | false => exact .inl (by simp [transToCommand, lpddr5Ch4, hkind])
      | true => exact .inr (.inl (by simp [transToCommand, lpddr5Ch4, hkind]))
    · exact .inr (.inr (.inl hact))
    · exact .inr (.inr (.inr hpre))
  · rintro rfl
    exact absurd (huses rfl) (by decide)

/-- Reads of one line after another. -/
def lineReads : List UInt64 := (List.range 7800).map fun i => .ofNat (128 * (i + 1))

theorem toNat_line {i : Nat} (hi : i ∈ List.range 7800) :
    (UInt64.ofNat (128 * (i + 1))).toNat = 128 * (i + 1) := by
  have hlt := List.mem_range.mp hi
  rw [UInt64.toNat_ofNat']
  omega

theorem nodup_lineReads : lineReads.Nodup := by
  refine List.nodup_range.map_on ?_
  intro i hi j hj heq
  have hlines := congrArg UInt64.toNat heq
  rw [toNat_line hi, toNat_line hj] at hlines
  omega

/-- Of the shipped memory more than seven accesses in two refresh intervals, while a read is
offered in every cycle. -/
theorem accesses_within_lpddr5 : ∃ c c', run lpddr5Ch4 {} [.add 0 false, .tick] = .ok c ∧
    c.run lpddr5Ch4 (readStream lineReads) = .ok c' ∧
    accesses c.cmdTrace + 7 < accesses c'.cmdTrace := by
  obtain ⟨c, hrun, hunwritten, hwaits, hnew⟩ : ∃ c, run lpddr5Ch4 {} [.add 0 false, .tick] = .ok c ∧
      Unwritten c ∧ (∃ i, c.cmdQueue.queues i ≠ []) ∧ c.pendingRdQ.map Transaction.addr = [0] :=
    ⟨_, rfl, ⟨rfl, rfl, rfl⟩, ⟨0, by decide⟩, rfl⟩
  have hsound := sound_run lpddr5Ch4_plain hrun
  obtain ⟨c', hrun', -⟩ := hsound.run lpddr5Ch4_plain (readStream lineReads)
  refine ⟨c, c', hrun, hrun', ?_⟩
  rcases accesses_within (n := 7) lpddr5Ch4_plain lpddr5Ch4_counts lpddr5Ch4_ranksExist (by decide)
    lpddr5Ch4_delaysWithin lpddr5Ch4_bounded lpddr5Ch4_boundedQueues (by decide) hrun hrun'
    (by rw [count_readStream, lineReads, List.length_map, List.length_range]; decide) with
    hrate | ⟨first, rest, c₁, hsplit, hfirst, hnone⟩
  · exact hrate
  · have hfresh : ∀ addr ∈ lineReads, pending c.pendingRdQ addr = false := by
      intro addr haddr
      obtain ⟨i, hi, rfl⟩ := List.mem_map.mp haddr
      rw [Bool.eq_false_iff]
      intro hpending
      rw [pending_iff, hnew, List.mem_singleton] at hpending
      have hline := toNat_line hi
      rw [hpending] at hline
      cases hline
    obtain ⟨i, hsome⟩ := hunwritten.waiting hsound lpddr5Ch4_plain rfl (by decide) (by decide) hwaits
      nodup_lineReads hfresh first rest c₁ hsplit hfirst
    exact absurd (hnone i) hsome

end Controller

end Hsim.Dramsim3
