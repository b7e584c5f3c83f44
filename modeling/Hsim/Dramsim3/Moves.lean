import Hsim.Dramsim3.Controller
import Hsim.Dramsim3.Ready
import Mathlib.Logic.Relation

/-! What a cycle of a controller is made of.

A cycle is a chain of moves (`clockTick_moves`), and each says where the command it
issues comes from: the refresh at the front, a command of a queue that nothing
forbids, or a rank that changes over to refreshing itself or back. Every invariant of
a run is kept move by move (`run_invariant`). -/
namespace Hsim.Dramsim3

namespace ChannelState

/-- What issuing a command does to the banks and to the windows. -/
structure Issued (cfg : Config) (ch : ChannelState) (cmd : Command) (clk : Nat) (ch' : ChannelState) :
    Prop where
  target : ∀ b ∈ cfg.targets cmd, ∃ s, (ch.bankStates b).updateState cmd = .ok s ∧
    ch'.bankStates b = s.updateTimings (cfg.delays cmd b) clk
  other : ∀ b, b ∉ cfg.targets cmd →
    ch'.bankStates b = (ch.bankStates b).updateTimings (cfg.delays cmd b) clk
  fourAw : ch'.fourAw = if cmd.cmdType = .activate then
    Function.update ch.fourAw cmd.addr.rank
      (Lib.slide (ch.fourAw cmd.addr.rank) clk (later clk cfg.tFAW)) else ch.fourAw
  thirtyTwoAw : ch'.thirtyTwoAw = if cmd.cmdType = .activate ∧ cfg.protocol.isGddr = true then
    Function.update ch.thirtyTwoAw cmd.addr.rank
      (Lib.slide (ch.thirtyTwoAw cmd.addr.rank) clk (later clk cfg.t32AW))
    else ch.thirtyTwoAw
  refreshQ : ch'.refreshQ =
    if cmd.cmdType = .refresh then ch.refreshQ.eraseP fun c => c.addr.rank == cmd.addr.rank
    else if cmd.cmdType = .refreshBank then ch.refreshQ.eraseP fun c => c.place == cmd.place
    else ch.refreshQ
  rankIsSref : ch'.rankIsSref =
    if cmd.cmdType = .srefEnter then Function.update ch.rankIsSref cmd.addr.rank true
    else if cmd.cmdType = .srefExit then Function.update ch.rankIsSref cmd.addr.rank false
    else ch.rankIsSref

variable {cfg : Config} {ch ch' : ChannelState} {cmd : Command} {clk : Nat}

/-- The tables leave everything but the times alone. -/
theorem updateTiming_frame (cfg : Config) (ch : ChannelState) (cmd : Command) (clk : Nat) :
    (ch.updateTiming cfg cmd clk).refreshQ = ch.refreshQ ∧
    (ch.updateTiming cfg cmd clk).rankIsSref = ch.rankIsSref ∧
    (ch.updateTiming cfg cmd clk).fourAw = (if cmd.cmdType = .activate then
      Function.update ch.fourAw cmd.addr.rank
        (Lib.slide (ch.fourAw cmd.addr.rank) clk (later clk cfg.tFAW))
      else ch.fourAw) ∧
    (ch.updateTiming cfg cmd clk).thirtyTwoAw =
      (if cmd.cmdType = .activate ∧ cfg.protocol.isGddr = true then
      Function.update ch.thirtyTwoAw cmd.addr.rank
      (Lib.slide (ch.thirtyTwoAw cmd.addr.rank) clk (later clk cfg.t32AW))
      else ch.thirtyTwoAw) := by
  unfold updateTiming
  split
  · next hrank =>
    have hact : cmd.cmdType ≠ .activate := by
      intro hact
      simp [Command.isRankCmd, hact] at hrank
    simp [pushBack, hact]
  · by_cases hact : cmd.cmdType = .activate
    · cases hg : cfg.protocol.isGddr <;> simp [pushBack, hact, updateActivationTimes, hg]
    · simp [pushBack, hact]

theorem updateState_bank {b : Bank} (h : ch.updateState cfg cmd = .ok ch') :
    (b ∈ cfg.targets cmd → (ch.bankStates b).updateState cmd = .ok (ch'.bankStates b)) ∧
      (b ∉ cfg.targets cmd → ch'.bankStates b = ch.bankStates b) := by
  unfold updateState at h
  unfold Config.targets
  split at h
  · next hrank =>
    obtain ⟨banks, hbanks, h⟩ := ok_of_bind h
    have hall := (Lib.forEachM_eq_ok (cfg.nodup_banksOf _)).mp hbanks
    have hch : ch'.bankStates = banks := by
      cases h
      split
      · rfl
      · split <;> rfl
    rw [if_pos hrank, hch]
    exact ⟨hall.1 b, hall.2 b⟩
  · next hrank =>
    obtain ⟨s, hs, h⟩ := ok_of_bind h
    have hch : ch'.bankStates = Function.update ch.bankStates cmd.place s := by
      cases h
      split <;> rfl
    rw [if_neg hrank, hch, List.mem_singleton]
    refine ⟨?_, ?_⟩
    · rintro rfl
      rw [Function.update_self]
      exact hs
    · intro hb
      exact Function.update_of_ne hb _ _

/-- The queue of refreshes and the flags, from a change of state. -/
theorem updateState_frame (h : ch.updateState cfg cmd = .ok ch') :
    ch'.fourAw = ch.fourAw ∧ ch'.thirtyTwoAw = ch.thirtyTwoAw ∧
    ch'.refreshQ = (
      if cmd.cmdType = .refresh then ch.refreshQ.eraseP fun c => c.addr.rank == cmd.addr.rank
      else if cmd.cmdType = .refreshBank then ch.refreshQ.eraseP fun c => c.place == cmd.place
      else ch.refreshQ) ∧
    ch'.rankIsSref = (
      if cmd.cmdType = .srefEnter then Function.update ch.rankIsSref cmd.addr.rank true
      else if cmd.cmdType = .srefExit then Function.update ch.rankIsSref cmd.addr.rank false
      else ch.rankIsSref) := by
  unfold updateState at h
  split at h
  · next hrank =>
    obtain ⟨banks, -, h⟩ := ok_of_bind h
    cases h
    cases hc : cmd.cmdType <;>
      simp_all [Command.isRankCmd, Command.isRefresh, rankNeedRefresh]
  · next hrank =>
    obtain ⟨s, -, h⟩ := ok_of_bind h
    cases h
    cases hc : cmd.cmdType <;>
      simp_all [Command.isRankCmd, Command.isRefresh, bankNeedRefresh, Command.place, Address.place]

theorem updateTimingAndStates_issued (h : ch.updateTimingAndStates cfg cmd clk = .ok ch') :
    Issued cfg ch cmd clk ch' := by
  obtain ⟨mid, hmid, h⟩ := ok_of_bind h
  cases h
  obtain ⟨hfour, hthirty, hrefresh, hsref⟩ := updateState_frame hmid
  obtain ⟨trefresh, tsref, tfour, tthirty⟩ := updateTiming_frame cfg mid cmd clk
  refine ⟨?_, ?_, ?_, ?_, ?_, ?_⟩
  · intro b hb
    exact ⟨mid.bankStates b, (updateState_bank hmid).1 hb, updateTiming_apply cfg mid cmd clk b⟩
  · intro b hb
    rw [updateTiming_apply, (updateState_bank hmid).2 hb]
  · rw [tfour, hfour]
  · rw [tthirty, hthirty]
  · rw [trefresh, hrefresh]
  · rw [tsref, hsref]

section
variable (h : Issued cfg ch cmd clk ch')
include h

/-- A bank after the command, from a bank state with the same times. -/
theorem Issued.bank (b : Bank) : ∃ s : BankState, s.cmdTiming = (ch.bankStates b).cmdTiming ∧
    ch'.bankStates b = s.updateTimings (cfg.delays cmd b) clk := by
  by_cases hb : b ∈ cfg.targets cmd
  · obtain ⟨s, hs, heq⟩ := h.target b hb
    exact ⟨s, BankState.updateState_cmdTiming hs, heq⟩
  · exact ⟨_, rfl, h.other b hb⟩

theorem Issued.le (b : Bank) (t : CommandType) :
    (ch.bankStates b).cmdTiming t ≤ (ch'.bankStates b).cmdTiming t := by
  obtain ⟨s, hs, heq⟩ := h.bank b
  rw [heq, ← hs]
  exact BankState.le_updateTimings s _ clk t

theorem Issued.later_le {b : Bank} {t : CommandType} {d : Int} (hd : (t, d) ∈ cfg.delays cmd b) :
    later clk d ≤ (ch'.bankStates b).cmdTiming t := by
  obtain ⟨s, -, heq⟩ := h.bank b
  rw [heq]
  exact BankState.mem_updateTimings s clk hd

theorem Issued.le_of {b : Bank} {t : CommandType} {bound : Nat}
    (hb : (ch.bankStates b).cmdTiming t ≤ bound)
    (hd : ∀ d, (t, d) ∈ cfg.delays cmd b → later clk d ≤ bound) :
    (ch'.bankStates b).cmdTiming t ≤ bound := by
  obtain ⟨s, hs, heq⟩ := h.bank b
  rw [heq]
  exact BankState.updateTimings_le (hs ▸ hb) hd

end

end ChannelState

/-! ### Where a command comes from -/

namespace CommandQueue
variable {cfg : Config} {ch : ChannelState} {q q' : CommandQueue} {cmd : Command}

/-- An entry that the search passes over: what it needs may not be given yet. -/
def Passed (cfg : Config) (ch : ChannelState) (clk : Nat) (entry : Command) : Prop :=
  ∀ r, ch.getReadyCommand cfg entry clk = .ok (some r) → r.cmdType = .precharge ∨ r.isWrite = true

/-- A command that a queue gives: it is what the first of its entries needs that is not passed
over, and nothing before that entry forbids it. -/
structure Offers (cfg : Config) (ch : ChannelState) (clk : Nat) (queue : List Command) (cmd : Command)
    (entry : Command) : Prop where
  ready : ch.getReadyCommand cfg entry clk = .ok (some cmd)
  place : ∃ before after, queue = before ++ entry :: after ∧
    (cmd.cmdType = .precharge → arbitratePrecharge ch before entry after = true) ∧
    (cmd.isWrite = true → hasRWDependency before entry = false) ∧ ∀ e ∈ before, Passed cfg ch clk e

theorem getFirstReady_offers {clk : Nat} {before l : List Command}
    (hbefore : ∀ e ∈ before, Passed cfg ch clk e)
    (h : getFirstReady cfg ch clk before l = .ok (some cmd)) :
    ∃ entry, Offers cfg ch clk (before ++ l) cmd entry ∧ entry ∈ l := by
  induction l generalizing before with
  | nil => cases h
  | cons entry rest ih =>
    have hnext : Passed cfg ch clk entry →
        getFirstReady cfg ch clk (before ++ [entry]) rest = .ok (some cmd) →
        ∃ entry', Offers cfg ch clk (before ++ entry :: rest) cmd entry' ∧ entry' ∈ entry :: rest := by
      intro hpassed hrest
      have hbefore' : ∀ e ∈ before ++ [entry], Passed cfg ch clk e := by
        intro e he
        rcases List.mem_append.mp he with he | he
        · exact hbefore e he
        · rw [List.mem_singleton.mp he]
          exact hpassed
      obtain ⟨entry', hoffers, hmem⟩ := ih hbefore' hrest
      rw [List.append_assoc, List.singleton_append] at hoffers
      exact ⟨entry', hoffers, List.mem_cons_of_mem entry hmem⟩
    rw [getFirstReady] at h
    obtain ⟨answer, hanswer, h⟩ := ok_of_bind h
    have hpassed : (∀ r, answer = some r → r.cmdType = .precharge ∨ r.isWrite = true) →
        Passed cfg ch clk entry := by
      intro hanswers r hr
      rw [hanswer] at hr
      exact hanswers r (Except.ok.inj hr)
    cases answer with
    | none => exact hnext (hpassed (by simp)) h
    | some r =>
      dsimp only at h
      split at h
      · next hkept => exact hnext (hpassed fun r' hr' => .inl (Option.some.inj hr' ▸ hkept.1)) h
      · next harbitrate =>
        split at h
        · next hheld => exact hnext (hpassed fun r' hr' => .inr (Option.some.inj hr' ▸ hheld.1)) h
        · next hdepends =>
          cases h
          refine ⟨entry, ⟨hanswer, before, rest, rfl, ?_, ?_, hbefore⟩, List.mem_cons_self⟩
          · intro hpre
            by_contra hnot
            exact harbitrate ⟨hpre, hnot⟩
          · intro hwrite
            by_contra hdep
            exact hdepends ⟨hwrite, by simpa using hdep⟩

/-- What a round of the queues ends with. -/
inductive Round (cfg : Config) (ch : ChannelState) (q : CommandQueue) :
    Option Command → CommandQueue → Prop where
  | none {i : Int} : Round cfg ch q none {q with queueIdx := i}
  | other {i : Int} {cmd entry : Command} (offers : Offers cfg ch q.clk (q.queues i) cmd entry)
      (free : ¬ (q.isInRef = true ∧ i ∈ q.refQIndices)) (access : cmd.isReadWrite = false) :
      Round cfg ch q (some cmd) {q with queueIdx := i}
  | access {i : Int} {cmd entry : Command} {q' : CommandQueue}
      (offers : Offers cfg ch q.clk (q.queues i) cmd entry)
      (free : ¬ (q.isInRef = true ∧ i ∈ q.refQIndices)) (access : cmd.isReadWrite = true)
      (erase : {q with queueIdx := i}.eraseRWCommand cfg cmd = .ok q') :
      Round cfg ch q (some cmd) q'

theorem issueFrom_round {turns : Nat} {answer : Option Command}
    (h : issueFrom cfg ch turns q = .ok (answer, q')) : Round cfg ch q answer q' := by
  induction turns generalizing q with
  | zero =>
    rw [issueFrom] at h
    obtain ⟨rfl, rfl⟩ := Prod.mk.inj (Except.ok.inj h)
    exact Round.none (i := q.queueIdx)
  | succ turns ih =>
    -- The rest of a round does not depend on where the turn was.
    have hlater : issueFrom cfg ch turns (q.nextQueue cfg) = .ok (answer, q') →
        Round cfg ch q answer q' := by
      intro hrest
      cases ih hrest with
      | none => exact .none
      | other offers free access => exact .other offers free access
      | access offers free access erase => exact .access offers free access erase
    rw [issueFrom] at h
    split at h
    · exact hlater h
    · next hfree =>
      obtain ⟨first, hfirst, h⟩ := ok_of_bind h
      cases first with
      | none => exact hlater h
      | some cmd =>
        obtain ⟨entry, hoffers, -⟩ := getFirstReady_offers (by simp) hfirst
        dsimp only at h
        split at h
        · next haccess =>
          obtain ⟨q₁, herase, h⟩ := ok_of_bind h
          cases h
          exact .access hoffers hfree haccess herase
        · next haccess =>
          cases h
          exact .other hoffers hfree (by simpa using haccess)

end CommandQueue

namespace Controller
variable {cfg : Config} {c c' : Controller}

/-- What issuing a command does to a controller. -/
structure Issues (cfg : Config) (c : Controller) (cmd : Command) (c' : Controller) : Prop where
  channel : ChannelState.Issued cfg c.channelState cmd c.clk c'.channelState
  frame : c' = {c with
    channelState := c'.channelState
    cmdTrace := c.cmdTrace ++ [(c.clk, cmd)]
    pendingRdQ := c'.pendingRdQ
    pendingWrQ := c'.pendingWrQ
    returnQueue := c'.returnQueue}
  read : cmd.isRead = true → pending c.pendingRdQ cmd.hexAddr = true ∧
    c'.pendingRdQ = c.pendingRdQ.filter (fun t => t.addr ≠ cmd.hexAddr) ∧
    c'.returnQueue = c.returnQueue ++ (c.pendingRdQ.filter fun t => t.addr = cmd.hexAddr).map fun t =>
      {t with completeCycle := later c.clk cfg.readDelay}
  noRead : cmd.isRead = false → c'.pendingRdQ = c.pendingRdQ ∧ c'.returnQueue = c.returnQueue
  write : cmd.isWrite = true → pending c.pendingWrQ cmd.hexAddr = true ∧
    c'.pendingWrQ = c.pendingWrQ.eraseP fun t => t.addr == cmd.hexAddr
  noWrite : cmd.isWrite = false → c'.pendingWrQ = c.pendingWrQ

theorem issueCommand_issues {cmd : Command} (h : c.issueCommand cfg cmd = .ok c') :
    Issues cfg c cmd c' := by
  obtain ⟨c₁, hsettle, h⟩ := ok_of_bind h
  obtain ⟨ch, hch, h⟩ := ok_of_bind h
  cases h
  unfold settle at hsettle
  split at hsettle
  · next hread =>
    have hwrite : cmd.isWrite = false := by
      unfold Command.isRead at hread
      unfold Command.isWrite
      cases hc : cmd.cmdType <;> simp_all
    split at hsettle
    · next hpending =>
      cases hsettle
      have hissued := ChannelState.updateTimingAndStates_issued hch
      exact ⟨hissued, rfl, fun _ => ⟨hpending, rfl, rfl⟩, by simp [hread], by simp [hwrite], fun _ => rfl⟩
    · cases hsettle
  · next hread =>
    rw [Bool.not_eq_true] at hread
    split at hsettle
    · next hwrite =>
      split at hsettle
      · next hpending =>
        cases hsettle
        have hissued := ChannelState.updateTimingAndStates_issued hch
        exact ⟨hissued, rfl, by simp [hread], fun _ => ⟨rfl, rfl⟩, fun _ => ⟨hpending, rfl⟩,
          by simp [hwrite]⟩
      · cases hsettle
    · next hwrite =>
      cases hsettle
      have hissued := ChannelState.updateTimingAndStates_issued hch
      exact ⟨hissued, rfl, by simp [hread], fun _ => ⟨rfl, rfl⟩, by simp [hwrite], fun _ => rfl⟩

/-- A change of the queues that touches no command. -/
structure Turned (q q' : CommandQueue) : Prop where
  queues : q'.queues = q.queues
  rankQEmpty : q'.rankQEmpty = q.rankQEmpty
  clk : q'.clk = q.clk

/-- One step of a cycle. -/
inductive Move (cfg : Config) (c : Controller) : Controller → Prop where
  | refreshTick {r : Refresh} {ch : ChannelState}
      (h : c.refresh.clockTick cfg c.channelState = .ok (r, ch)) :
      Move cfg c {c with
        refresh := r
        channelState := ch}
  | turn {q : CommandQueue} (h : Turned c.cmdQueue q) : Move cfg c {c with cmdQueue := q}
  | refresh {ref cmd : Command} {rest : List Command} {c' : Controller}
      (front : c.channelState.refreshQ = ref :: rest)
      (ready : c.channelState.getReadyCommand cfg ref c.cmdQueue.clk = .ok (some cmd))
      (h : c.issueCommand cfg cmd = .ok c') : Move cfg c c'
  | row {i : Int} {cmd entry : Command} {c' : Controller}
      (offers : CommandQueue.Offers cfg c.channelState c.cmdQueue.clk (c.cmdQueue.queues i) cmd entry)
      (access : cmd.isReadWrite = false) (h : c.issueCommand cfg cmd = .ok c') : Move cfg c c'
  | access {i : Int} {cmd entry : Command} {q : CommandQueue} {c' : Controller}
      (offers : CommandQueue.Offers cfg c.channelState c.cmdQueue.clk (c.cmdQueue.queues i) cmd entry)
      (access : cmd.isReadWrite = true) (erase : c.cmdQueue.eraseRWCommand cfg cmd = .ok q)
      (h : {c with cmdQueue := q}.issueCommand cfg cmd = .ok c') : Move cfg c c'
  /-- HBM's second command, taken from its queue and not issued. -/
  | drop {i : Int} {cmd entry : Command} {q : CommandQueue} (dual : cfg.enableHbmDualCmd = true)
      (offers : CommandQueue.Offers cfg c.channelState c.cmdQueue.clk (c.cmdQueue.queues i) cmd entry)
      (access : cmd.isReadWrite = true) (erase : c.cmdQueue.eraseRWCommand cfg cmd = .ok q) :
      Move cfg c {c with cmdQueue := q}
  | selfRefresh {rank : Int} {ask cmd : Command} {c' : Controller} (enabled : cfg.enableSelfRefresh = true)
      (asks : c.selfRefreshCommand cfg rank = some ask)
      (ready : c.channelState.getReadyCommand cfg ask c.clk = .ok (some cmd))
      (h : c.issueCommand cfg cmd = .ok c') : Move cfg c c'
  | idle : Move cfg c (c.countIdle cfg)
  | schedule : Move cfg c (c.scheduleTransaction cfg)
  | clock : Move cfg c {c with
      clk := c.clk + 1
      cmdQueue := {c.cmdQueue with clk := c.cmdQueue.clk + 1}}

abbrev Moves (cfg : Config) : Controller → Controller → Prop := Relation.ReflTransGen (Move cfg)

/-- A round of the queues, with the command issued. -/
theorem moves_of_round {q : CommandQueue} {cmd : Command}
    (hround : CommandQueue.Round cfg c.channelState c.cmdQueue (some cmd) q)
    (h : {c with cmdQueue := q}.issueCommand cfg cmd = .ok c') : Moves cfg c c' := by
  cases hround with
  | @other i _ entry offers free access =>
    have hturn : Move cfg c {c with cmdQueue := {c.cmdQueue with queueIdx := i}} := .turn ⟨rfl, rfl, rfl⟩
    exact .tail (.single hturn) (.row offers access h)
  | @access i _ entry _ offers free access erase =>
    have hturn : Move cfg c {c with cmdQueue := {c.cmdQueue with queueIdx := i}} := .turn ⟨rfl, rfl, rfl⟩
    exact .tail (.single hturn) (.access offers access erase h)

/-- What `FinishRefresh` answers with. -/
theorem finishRefresh_turned {q q' : CommandQueue} {ch : ChannelState} {ref : Command}
    {answer : Option Command} (h : q.finishRefresh cfg ch ref = .ok (answer, q')) :
    Turned q q' ∧ ch.getReadyCommand cfg ref q.clk = .ok answer := by
  obtain ⟨cmd, hready, h⟩ := ok_of_bind h
  obtain ⟨rfl, rfl⟩ := Prod.mk.inj (Except.ok.inj h)
  refine ⟨⟨?_, ?_, ?_⟩, ?_⟩
  · split <;> split <;> rfl
  · split <;> split <;> rfl
  · split <;> split <;> rfl
  · split at hready <;> exact hready

theorem moves_of_queues {q : CommandQueue} {answer : Option Command} {finished : Controller}
    (h : c.cmdQueue.getCommandToIssue cfg c.channelState = .ok (answer, q))
    (hnone : answer = none → finished = {c with cmdQueue := q})
    (hsome : ∀ cmd, answer = some cmd → {c with cmdQueue := q}.issueCommand cfg cmd = .ok finished) :
    Moves cfg c finished := by
  have hround := CommandQueue.issueFrom_round h
  cases answer with
  | none =>
    rw [hnone rfl]
    cases hround
    exact .single (.turn ⟨rfl, rfl, rfl⟩)
  | some cmd => exact moves_of_round hround (hsome cmd rfl)

/-- The first command of a cycle. -/
theorem moves_of_next {q : CommandQueue} {answer : Option Command} {finished : Controller}
    (h : c.nextCommand cfg = .ok (answer, q))
    (hnone : answer = none → finished = {c with cmdQueue := q})
    (hsome : ∀ cmd, answer = some cmd → {c with cmdQueue := q}.issueCommand cfg cmd = .ok finished) :
    Moves cfg c finished := by
  unfold nextCommand at h
  split at h
  · exact moves_of_queues h hnone hsome
  · next ref rest hfront =>
    obtain ⟨⟨first, q₁⟩, hfinish, h⟩ := ok_of_bind h
    obtain ⟨hturned, hready⟩ := finishRefresh_turned hfinish
    have hturn : Moves cfg c {c with cmdQueue := q₁} := .single (.turn hturned)
    cases first with
    | some cmd =>
      obtain ⟨rfl, rfl⟩ := Prod.mk.inj (Except.ok.inj h)
      rw [← hturned.clk] at hready
      exact .tail hturn (.refresh (c := {c with cmdQueue := q₁}) hfront hready (hsome cmd rfl))
    | none => exact hturn.trans (moves_of_queues (c := {c with cmdQueue := q₁}) h hnone hsome)

theorem moves_of_issueSecond {first : Command} (hdual : cfg.enableHbmDualCmd = true)
    (h : c.issueSecond cfg first = .ok c') : Moves cfg c c' := by
  obtain ⟨⟨answer, q⟩, hanswer, h⟩ := ok_of_bind h
  cases answer with
  | none => exact moves_of_queues hanswer (fun _ => (Except.ok.inj h).symm) (by simp)
  | some cmd =>
    dsimp only at h
    split at h
    · refine moves_of_queues hanswer (by simp) ?_
      rintro _ ⟨⟩
      exact h
    · cases h
      cases CommandQueue.issueFrom_round hanswer with
      | other offers free access => exact .single (.turn ⟨rfl, rfl, rfl⟩)
      | @access i _ entry _ offers free access erase =>
        have hturn : Move cfg c {c with cmdQueue := {c.cmdQueue with queueIdx := i}} :=
          .turn ⟨rfl, rfl, rfl⟩
        exact .tail (.single hturn) (.drop hdual offers access erase)

theorem moves_of_issue {issued : Bool} (h : c.issue cfg = .ok (c', issued)) : Moves cfg c c' := by
  obtain ⟨⟨answer, q⟩, hanswer, h⟩ := ok_of_bind h
  cases answer with
  | none => exact moves_of_next hanswer (fun _ => (congrArg Prod.fst (Except.ok.inj h)).symm) (by simp)
  | some cmd =>
    obtain ⟨c₁, hissue, h⟩ := ok_of_bind h
    have hfirst : Moves cfg c c₁ := by
      refine moves_of_next hanswer (by simp) ?_
      rintro _ ⟨⟩
      exact hissue
    split at h
    · next hdual =>
      obtain ⟨c₂, hsecond, h⟩ := ok_of_bind h
      cases h
      exact hfirst.trans (moves_of_issueSecond hdual hsecond)
    · cases h
      exact hfirst

theorem moves_of_selfRefresh {ranks : List Int} (henabled : cfg.enableSelfRefresh = true)
    (h : c.selfRefresh cfg ranks = .ok c') : Moves cfg c c' := by
  induction ranks with
  | nil =>
    cases h
    exact .refl
  | cons rank rest ih =>
    rw [selfRefresh] at h
    split at h
    · exact ih h
    · next ask hasks =>
      obtain ⟨answer, hanswer, h⟩ := ok_of_bind h
      cases answer with
      | none => exact ih h
      | some cmd => exact .single (.selfRefresh henabled hasks hanswer h)

/-- **A cycle is a chain of moves.** -/
theorem clockTick_moves (h : c.clockTick cfg = .ok c') : Moves cfg c c' := by
  obtain ⟨⟨r, ch⟩, hrefresh, h⟩ := ok_of_bind h
  obtain ⟨⟨c₁, issued⟩, hissue, h⟩ := ok_of_bind h
  obtain ⟨c₂, hself, h⟩ := ok_of_bind h
  cases h
  have hticked : Moves cfg c {c with
      refresh := r
      channelState := ch} := .single (.refreshTick hrefresh)
  have hidle := hticked.trans (.tail (moves_of_issue hissue) .idle)
  have hwoken : Moves cfg (c₁.countIdle cfg) c₂ := by
    split at hself
    · next henabled =>
      simp only [Bool.and_eq_true] at henabled
      exact moves_of_selfRefresh henabled.1 hself
    · cases hself
      exact .refl
  exact .tail (.tail (hidle.trans hwoken) .schedule) .clock

theorem run_append {first rest : List Event} : c.run cfg (first ++ rest) = .ok c' ↔
    ∃ c₁, c.run cfg first = .ok c₁ ∧ c₁.run cfg rest = .ok c' := by
  induction first generalizing c with
  | nil => exact ⟨fun h => ⟨c, rfl, h⟩, fun ⟨_, h, h'⟩ => Except.ok.inj h ▸ h'⟩
  | cons e first ih =>
    refine ⟨?_, ?_⟩
    · intro h
      obtain ⟨c₁, hstep, hrest⟩ := ok_of_bind h
      obtain ⟨c₂, hfirst, hrest⟩ := ih.mp hrest
      refine ⟨c₂, ?_, hrest⟩
      rw [run, hstep]
      exact hfirst
    · rintro ⟨c₂, hfirst, hrest⟩
      obtain ⟨c₁, hstep, hfirst⟩ := ok_of_bind hfirst
      rw [List.cons_append, run, hstep]
      exact ih.mpr ⟨c₂, hfirst, hrest⟩

theorem run_singleton {e : Event} : c.run cfg [e] = .ok c' ↔ c.step cfg e = .ok c' := by
  rw [run]
  cases c.step cfg e <;> exact Iff.rfl

/-- **What the moves keep, a run keeps.** -/
theorem run_invariant {I : Controller → Prop} (hmove : ∀ c c', Move cfg c c' → I c → I c')
    (hadd : ∀ c addr isWrite, c.willAcceptTransaction cfg isWrite = true → I c →
      I (c.addTransaction cfg addr isWrite))
    (hcollect : ∀ c clk, I c → I (c.returnDoneTrans clk).2) {events : List Event}
    (h : c.run cfg events = .ok c') (hstart : I c) : I c' := by
  have hmoves : ∀ {c c' : Controller}, Moves cfg c c' → I c → I c' := by
    intro c c' hmoves hc
    induction hmoves with
    | refl => exact hc
    | tail _ hlast ih => exact hmove _ _ hlast ih
  induction events generalizing c with
  | nil =>
    cases h
    exact hstart
  | cons e rest ih =>
    obtain ⟨c₁, hstep, h⟩ := ok_of_bind h
    refine ih h ?_
    cases e with
    | add addr isWrite =>
      cases hstep
      split
      · next hroom => exact hadd c addr isWrite hroom hstart
      · exact hstart
    | collect clk =>
      cases hstep
      exact hcollect c clk hstart
    | tick => exact hmoves (clockTick_moves hstep) hstart

end Controller

end Hsim.Dramsim3
