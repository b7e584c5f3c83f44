import Hsim.Dramsim3.AddressFields
import Hsim.Dramsim3.Sends
import Hsim.Dramsim3.Lineup

/-! A controller never ends the process.

Every query of a bank has an answer, every command that is issued is one the banks
take, and every access that is issued is pending. This is so for one command a cycle
and ranks that do not refresh themselves: waking a rank asks its banks a question that
none of them answers. -/
namespace Hsim.Dramsim3

/-- A configuration without the two features that do not work. -/
structure Config.Plain (cfg : Config) : Prop where
  places : cfg.Places
  selfRefresh : cfg.enableSelfRefresh = false
  dual : cfg.enableHbmDualCmd = false
  interval : cfg.refreshInterval ≠ 0

theorem lpddr5Ch4_plain : lpddr5Ch4.Plain := ⟨lpddr5Ch4_places, rfl, rfl, by decide⟩

namespace Controller
variable {cfg : Config} {c c' : Controller}

/-- A controller all of whose ranks are awake. -/
structure Sound (cfg : Config) (c : Controller) : Prop where
  lineup : Lineup cfg c
  together : ChannelState.Together cfg c.channelState
  awake : ∀ b, (c.channelState.bankStates b).state ≠ .sref

theorem sound_start (cfg : Config) : Sound cfg {} := ⟨lineup_start cfg, ⟨by simp, by simp⟩, by simp⟩

/-- A command that may be issued: it is ready, and an access is pending. -/
structure Issuable (cfg : Config) (c : Controller) (cmd : Command) : Prop where
  ready : ChannelState.Ready cfg c.channelState cmd c.clk
  read : cmd.isRead = true → pending c.pendingRdQ cmd.hexAddr = true
  write : cmd.isWrite = true → pending c.pendingWrQ cmd.hexAddr = true

theorem Issuable.of_not_access {cmd : Command}
    (hready : ChannelState.Ready cfg c.channelState cmd c.clk) (haccess : cmd.isReadWrite = false) :
    Issuable cfg c cmd := by
  have hneither : cmd.isRead = false ∧ cmd.isWrite = false := by simpa [Command.isReadWrite] using haccess
  exact ⟨hready, by simp [hneither.1], by simp [hneither.2]⟩

/-- A command of a queue may be issued. -/
theorem Sound.issuable (h : Sound cfg c) (hplaces : cfg.Places) {i : Int} {cmd entry : Command}
    (hoffers : CommandQueue.Offers cfg c.channelState c.cmdQueue.clk (c.cmdQueue.queues i)
    cmd entry) :
    Issuable cfg c cmd := by
  have hentry := Offers_mem hoffers
  have hclk := h.lineup.tidy.clk
  have hready := ChannelState.getReadyCommand_ready h.together
    (fun _ => place_of_entry hplaces h.lineup.tidy hentry) hoffers.ready
  rw [hclk] at hready
  cases haccess : cmd.isReadWrite with
  | false => exact .of_not_access hready haccess
  | true =>
    obtain ⟨t, before, after, rfl, hfirst⟩ := h.lineup.first hoffers haccess
    obtain ⟨hread, hwrite⟩ := owed_head hfirst.owed.symm
    exact ⟨hready, fun hr => (hread (by simpa using hr)).1, fun hw => (hwrite (by simpa using hw)).2.1⟩

/-- The refresh at the front may be issued once it is ready. -/
theorem Sound.issuable_refresh (h : Sound cfg c) {ref cmd : Command}
    (href : ref ∈ c.channelState.refreshQ)
    (hready : c.channelState.getReadyCommand cfg ref c.cmdQueue.clk = .ok (some cmd)) :
    Issuable cfg c cmd := by
  have hrefresh := h.lineup.tidy.refreshes ref href
  have haccess := isReadWrite_of_isRefresh hrefresh
  rw [h.lineup.tidy.clk] at hready
  exact .of_not_access (ChannelState.getReadyCommand_ready h.together (by simp [haccess]) hready)
    (isReadWrite_of_answer hready haccess)

theorem Issuable.issues {cmd : Command} (h : Issuable cfg c cmd) :
    ∃ c', c.issueCommand cfg cmd = .ok c' := by
  have hsettle : ∃ c₁, {c with cmdTrace := c.cmdTrace ++ [(c.clk, cmd)]}.settle cfg cmd = .ok c₁ ∧
      c₁.channelState = c.channelState ∧ c₁.clk = c.clk := by
    unfold settle
    split
    · next hread => exact ⟨_, if_pos (h.read hread), rfl, rfl⟩
    · split
      · next hwrite => exact ⟨_, if_pos (h.write hwrite), rfl, rfl⟩
      · exact ⟨_, rfl, rfl, rfl⟩
  obtain ⟨c₁, hc₁, hchannel, hclk⟩ := hsettle
  obtain ⟨ch, hch⟩ := ChannelState.updateTimingAndStates_ok h.ready
  rw [← hchannel, ← hclk] at hch
  exact exists_ok_bind hc₁ (exists_ok_bind hch ⟨_, rfl⟩)

/-! ### The queues -/

theorem getFirstReady_ok {ch : ChannelState} {clk : Nat}
    (hawake : ∀ b, (ch.bankStates b).state ≠ .sref) {l : List Command}
    (hl : ∀ e ∈ l, e.isReadWrite = true) (before : List Command) :
    ∃ answer, CommandQueue.getFirstReady cfg ch clk before l = .ok answer := by
  induction l generalizing before with
  | nil => exact ⟨none, rfl⟩
  | cons e rest ih =>
    have hready : ∃ answer, ch.getReadyCommand cfg e clk = .ok answer :=
      ChannelState.getReadyCommand_ok hawake (.inl (hl e List.mem_cons_self))
    obtain ⟨answer, hanswer⟩ := hready
    have hrest := ih (fun e' he' => hl e' (List.mem_cons_of_mem e he')) (before ++ [e])
    refine exists_ok_bind hanswer ?_
    cases answer with
    | none => exact hrest
    | some r =>
      dsimp only
      split
      · exact hrest
      · split
        · exact hrest
        · exact ⟨some r, rfl⟩

/-- An access that is in its queue is found there. -/
theorem eraseRWCommand_ok {q : CommandQueue} {t : Transaction}
    (h : transToCommand cfg t ∈ q.queues (home cfg t.addr)) :
    ∃ q', q.eraseRWCommand cfg (transToCommand cfg t) = .ok q' := by
  have hfound : (q.queues (cfg.queueIndex (transToCommand cfg t).place)).any
      (fun e => (transToCommand cfg t).hexAddr == e.hexAddr &&
        (transToCommand cfg t).cmdType == e.cmdType) = true :=
    List.any_eq_true.mpr ⟨transToCommand cfg t, h, by simp⟩
  exact ⟨_, if_pos hfound⟩

/-- A round of the queues ends with a command or without one. -/
theorem issueFrom_ok {ch : ChannelState} (hawake : ∀ b, (ch.bankStates b).state ≠ .sref)
    {q : CommandQueue}
    (hentries : ∀ i, ∀ e ∈ q.queues i, ∃ t, e = transToCommand cfg t ∧ home cfg t.addr = i)
    (turns : Nat) :
    ∃ answer, CommandQueue.issueFrom cfg ch turns q = .ok answer := by
  induction turns generalizing q with
  | zero => exact ⟨_, rfl⟩
  | succ turns ih =>
    have hlater : ∃ answer, CommandQueue.issueFrom cfg ch turns (q.nextQueue cfg) = .ok answer :=
      ih hentries
    rw [CommandQueue.issueFrom]
    split
    · exact hlater
    · have haccesses : ∀ e ∈ (q.nextQueue cfg).queues (q.nextQueue cfg).queueIdx,
          e.isReadWrite = true := by
        intro e he
        obtain ⟨t, rfl, -⟩ := hentries _ e he
        exact transToCommand_isReadWrite cfg t
      have hscan : ∃ first, CommandQueue.getFirstReady cfg ch (q.nextQueue cfg).clk []
          ((q.nextQueue cfg).queues (q.nextQueue cfg).queueIdx) = .ok first :=
            getFirstReady_ok hawake haccesses []
      obtain ⟨first, hfirst⟩ := hscan
      refine exists_ok_bind hfirst ?_
      cases first with
      | none => exact hlater
      | some cmd =>
        dsimp only
        split
        · next haccess =>
          -- What is ready is an entry of this queue, where it is looked for.
          obtain ⟨entry, hoffers, hentry⟩ := CommandQueue.getFirstReady_offers (by simp) hfirst
          obtain rfl := Offers_entry hoffers haccess
          obtain ⟨t, rfl, hhome⟩ := hentries _ cmd hentry
          have herase : ∃ q', (q.nextQueue cfg).eraseRWCommand cfg (transToCommand cfg t) = .ok q' :=
            eraseRWCommand_ok (hhome ▸ hentry)
          obtain ⟨q', herase⟩ := herase
          exact exists_ok_bind herase ⟨_, rfl⟩
        · exact ⟨_, rfl⟩

/-! ### A cycle -/

theorem Sound.move (h : Sound cfg c) (hplain : cfg.Plain) (hmove : Move cfg c c') : Sound cfg c' := by
  have hlineup := h.lineup.move hplain.dual hmove
  rcases quiet_or_sends hplain.places h.lineup.tidy h.together hmove with hq | ⟨cmd, hs⟩
  · refine ⟨hlineup, ⟨?_, ?_⟩, ?_⟩
    · rw [hq.bankStates]
      exact h.together.sref
    · rw [hq.bankStates]
      exact h.together.exit
    · rw [hq.bankStates]
      exact h.awake
  · refine ⟨hlineup, h.together.issued hs.ready hs.channel, ?_⟩
    intro b
    by_cases hb : b ∈ cfg.targets cmd
    · intro hstate
      have henabled := hs.sleep ((hs.channel.state_of_mem hb).mp hstate)
      rw [hplain.selfRefresh] at henabled
      cases henabled
    · rw [hs.channel.state_of_not_mem hb]
      exact h.awake b

theorem Sound.moves (h : Sound cfg c) (hplain : cfg.Plain) (hmoves : Moves cfg c c') :
    Sound cfg c' := by
  induction hmoves with
  | refl => exact h
  | tail _ hlast ih => exact ih.move hplain hlast

theorem Sound.getCommandToIssue (h : Sound cfg c) (hplaces : cfg.Places) :
    ∃ answer q, c.cmdQueue.getCommandToIssue cfg c.channelState = .ok (answer, q) ∧
      ∀ cmd, answer = some cmd → Issuable cfg c cmd := by
  obtain ⟨⟨answer, q⟩, hanswer⟩ := issueFrom_ok h.awake h.lineup.tidy.entries cfg.numQueues
  refine ⟨answer, q, hanswer, ?_⟩
  rintro cmd rfl
  cases CommandQueue.issueFrom_round hanswer with
  | other offers => exact h.issuable hplaces offers
  | access offers => exact h.issuable hplaces offers

/-- The command of a cycle is found, and may be issued. -/
theorem Sound.nextCommand (h : Sound cfg c) (hplain : cfg.Plain) :
    ∃ answer q, c.nextCommand cfg = .ok (answer, q) ∧ ∀ cmd, answer = some cmd →
    Issuable cfg c cmd := by
  unfold Controller.nextCommand
  split
  · exact h.getCommandToIssue hplain.places
  · next ref rest hfront =>
    have href : ref ∈ c.channelState.refreshQ := by simp [hfront]
    have hok : ∃ answer, c.channelState.getReadyCommand cfg ref c.cmdQueue.clk = .ok answer :=
      ChannelState.getReadyCommand_ok h.awake (.inr (h.lineup.tidy.refreshes ref href))
    obtain ⟨answer, hready⟩ := hok
    have hfinish : ∃ finished, c.cmdQueue.finishRefresh cfg c.channelState ref = .ok finished := by
      refine exists_ok_bind (a := answer) ?_ ⟨_, rfl⟩
      split <;> exact hready
    obtain ⟨⟨first, q⟩, hfinish⟩ := hfinish
    obtain ⟨hturned, hfirst⟩ := finishRefresh_turned hfinish
    rw [hfinish]
    cases first with
    | some cmd =>
      refine ⟨some cmd, q, rfl, ?_⟩
      rintro _ ⟨⟩
      exact h.issuable_refresh href hfirst
    | none =>
      have hturn : Sound cfg {c with cmdQueue := q} := h.move hplain (.turn hturned)
      obtain ⟨answer, q', hanswer, hissuable⟩ := hturn.getCommandToIssue hplain.places
      refine ⟨answer, q', hanswer, ?_⟩
      intro cmd hcmd
      exact ⟨(hissuable cmd hcmd).ready, (hissuable cmd hcmd).read, (hissuable cmd hcmd).write⟩

theorem Sound.clockTick (h : Sound cfg c) (hplain : cfg.Plain) :
    ∃ c', c.clockTick cfg = .ok c' ∧ Sound cfg c' := by
  have htick : ∃ c', c.clockTick cfg = .ok c' := by
    have hrefresh : ∃ ticked, c.refresh.clockTick cfg c.channelState = .ok ticked :=
      ⟨_, if_neg hplain.interval⟩
    obtain ⟨⟨r, ch⟩, hrefresh⟩ := hrefresh
    refine exists_ok_bind hrefresh ?_
    have h₁ := h.move hplain (.refreshTick hrefresh)
    have hissue : ∃ finished, Controller.issue cfg {c with
        refresh := r
        channelState := ch} = .ok finished := by
      obtain ⟨answer, q, hanswer, hissuable⟩ := h₁.nextCommand hplain
      refine exists_ok_bind hanswer ?_
      cases answer with
      | none => exact ⟨_, rfl⟩
      | some cmd =>
        have hcmd := hissuable cmd rfl
        have hissuable' : Issuable cfg {c with
            refresh := r
            channelState := ch
            cmdQueue := q} cmd := ⟨hcmd.ready, hcmd.read, hcmd.write⟩
        obtain ⟨c₂, hc₂⟩ := hissuable'.issues
        refine exists_ok_bind hc₂ ?_
        simp only [hplain.dual]
        exact ⟨_, rfl⟩
    obtain ⟨⟨c₂, issued⟩, hissue⟩ := hissue
    refine exists_ok_bind hissue ?_
    simp only [hplain.selfRefresh, Bool.false_and]
    exact ⟨_, rfl⟩
  obtain ⟨c', hc'⟩ := htick
  exact ⟨c', hc', h.moves hplain (clockTick_moves hc')⟩

theorem Sound.step {e : Event} (h : Sound cfg c) (hplain : cfg.Plain) :
    ∃ c', c.step cfg e = .ok c' ∧ Sound cfg c' := by
  cases e with
  | add addr isWrite =>
    refine ⟨_, rfl, ?_⟩
    split
    · have hbeside := addTransaction_beside cfg c addr isWrite
      refine ⟨h.lineup.add addr isWrite, ?_, ?_⟩
      · rw [hbeside.channelState]
        exact h.together
      · rw [hbeside.channelState]
        exact h.awake
    · exact h
  | collect clk =>
    have hbeside := returnDoneTrans_beside c clk
    refine ⟨_, rfl, h.lineup.collect clk, ?_, ?_⟩
    · rw [hbeside.channelState]
      exact h.together
    · rw [hbeside.channelState]
      exact h.awake
  | tick => exact h.clockTick hplain

theorem Sound.run (h : Sound cfg c) (hplain : cfg.Plain) (events : List Event) :
    ∃ c', c.run cfg events = .ok c' ∧ Sound cfg c' := by
  induction events generalizing c with
  | nil => exact ⟨c, rfl, h⟩
  | cons e rest ih =>
    obtain ⟨c₁, hstep, hsound⟩ := h.step (e := e) hplain
    obtain ⟨c', hrun, hsound'⟩ := ih hsound
    exact ⟨c', by rw [Controller.run, hstep]; exact hrun, hsound'⟩

theorem sound_run (hplain : cfg.Plain) {events : List Event} (h : run cfg {} events = .ok c) :
    Sound cfg c := by
  obtain ⟨c', hrun, hsound⟩ := (sound_start cfg).run hplain events
  rw [h] at hrun
  exact Except.ok.inj hrun ▸ hsound

/-- **No run aborts.** -/
theorem run_ok (hplain : cfg.Plain) (events : List Event) : ∃ c, run cfg {} events = .ok c := by
  obtain ⟨c, hrun, -⟩ := (sound_start cfg).run hplain events
  exact ⟨c, hrun⟩

end Controller

end Hsim.Dramsim3
