import Hsim.Dramsim3.RefreshOrder

/-! What a cycle does to the refresh at the front.

A refresh that waits at the front is issued, or gets a bank precharged, or is not due.
Only in the last case do the queues get their turn, and those of its banks are passed
over, for as long as it waits (`Marked`). -/
namespace Hsim.Dramsim3

namespace Controller
variable {cfg : Config} {c c' : Controller}

/-- While a refresh is being prepared, the queues of its banks are passed over. -/
def Marked (cfg : Config) (c : Controller) : Prop :=
  c.cmdQueue.isInRef = true → ∃ ref rest, c.channelState.refreshQ = ref :: rest ∧
    ∀ i ∈ CommandQueue.refIndices cfg ref, i ∈ c.cmdQueue.refQIndices

/-- A change of the queues that does not end the preparation of a refresh. -/
structure SameMarks (q q' : CommandQueue) : Prop where
  isInRef : q'.isInRef = q.isInRef
  refQIndices : q'.refQIndices = q.refQIndices

theorem round_sameMarks {ch : ChannelState} {q q' : CommandQueue} {answer : Option Command}
    (h : CommandQueue.Round cfg ch q answer q') : SameMarks q q' := by
  cases h with
  | none => exact ⟨rfl, rfl⟩
  | other offers free access => exact ⟨rfl, rfl⟩
  | access offers free access erase =>
    rw [eraseRWCommand_eq erase]
    exact ⟨rfl, rfl⟩

/-- The entry behind a command of a round, and that its queue was not passed over. -/
theorem round_entry {ch : ChannelState} {q q' : CommandQueue} {cmd : Command}
    (h : CommandQueue.Round cfg ch q (some cmd) q') : ∃ i entry, entry ∈ q.queues i ∧
      ch.getReadyCommand cfg entry q.clk = .ok (some cmd) ∧
      ¬ (q.isInRef = true ∧ i ∈ q.refQIndices) := by
  cases h with
  | other offers free access => exact ⟨_, _, Offers_mem offers, offers.ready, free⟩
  | access offers free access erase => exact ⟨_, _, Offers_mem offers, offers.ready, free⟩

/-- The part of a cycle after the timer, where one command is issued at most. -/
inductive Turn (cfg : Config) (c : Controller) : Controller → Prop where
  | nothing {q : CommandQueue} (h : c.nextCommand cfg = .ok (none, q)) : Turn cfg c {c with cmdQueue := q}
  | command {q : CommandQueue} {cmd : Command} {c' : Controller} (h : c.nextCommand cfg = .ok (some cmd, q))
      (issues : Issues cfg {c with cmdQueue := q} cmd c') : Turn cfg c c'

/-- What the end of a cycle leaves. -/
structure Ended (c c' : Controller) : Prop where
  clk : c'.clk = c.clk + 1
  bankStates : c'.channelState.bankStates = c.channelState.bankStates
  refreshQ : c'.channelState.refreshQ = c.channelState.refreshQ
  fourAw : c'.channelState.fourAw = c.channelState.fourAw
  thirtyTwoAw : c'.channelState.thirtyTwoAw = c.channelState.thirtyTwoAw
  cmdTrace : c'.cmdTrace = c.cmdTrace
  marks : SameMarks c.cmdQueue c'.cmdQueue
  queueIdx : c'.cmdQueue.queueIdx = c.cmdQueue.queueIdx
  queues : ∀ i, c.cmdQueue.queues i <+: c'.cmdQueue.queues i

/-- A cycle is the timer, a turn, and the scheduling of one transaction. -/
theorem clockTick_ends (hplain : cfg.Plain) (h : c.clockTick cfg = .ok c') : ∃ r ch c₂,
    c.refresh.clockTick cfg c.channelState = .ok (r, ch) ∧ Turn cfg {c with
      refresh := r
      channelState := ch} c₂ ∧ c' = {(c₂.countIdle cfg).scheduleTransaction cfg with
        clk := ((c₂.countIdle cfg).scheduleTransaction cfg).clk + 1
        cmdQueue := {((c₂.countIdle cfg).scheduleTransaction cfg).cmdQueue with
          clk := ((c₂.countIdle cfg).scheduleTransaction cfg).cmdQueue.clk + 1}} := by
  obtain ⟨⟨r, ch⟩, hrefresh, h⟩ := ok_of_bind h
  obtain ⟨⟨c₂, issued⟩, hissue, h⟩ := ok_of_bind h
  refine ⟨r, ch, c₂, hrefresh, ?_, ?_⟩
  · obtain ⟨⟨answer, q⟩, hanswer, hissue⟩ := ok_of_bind hissue
    cases answer with
    | none =>
      cases hissue
      exact .nothing hanswer
    | some cmd =>
      obtain ⟨c₃, hc₃, hissue⟩ := ok_of_bind hissue
      simp only [hplain.dual] at hissue
      cases hissue
      exact .command hanswer (issueCommand_issues hc₃)
  · simp only [hplain.selfRefresh, Bool.false_and] at h
    cases h
    rfl

theorem clockTick_turn (hplain : cfg.Plain) (h : c.clockTick cfg = .ok c') : ∃ r ch c₂,
    c.refresh.clockTick cfg c.channelState = .ok (r, ch) ∧ Turn cfg {c with
      refresh := r
      channelState := ch} c₂ ∧ Ended c₂ c' := by
  obtain ⟨r, ch, c₂, hrefresh, hturn, rfl⟩ := clockTick_ends hplain h
  have hscheduled := scheduleTransaction_scheduled cfg (c₂.countIdle cfg)
  have hframe := hscheduled.frame
  have hsame : ∀ {α : Type} (f : ChannelState → α),
      f (scheduleTransaction cfg (c₂.countIdle cfg)).channelState = f (c₂.countIdle cfg).channelState :=
    fun f => congrArg f hframe.channelState
  exact ⟨r, ch, c₂, hrefresh, hturn, congrArg Nat.succ hframe.clk, hsame ChannelState.bankStates,
    hsame ChannelState.refreshQ, hsame ChannelState.fourAw, hsame ChannelState.thirtyTwoAw,
    hframe.cmdTrace, ⟨hframe.isInRef, hframe.refQIndices⟩, hframe.queueIdx, hscheduled.queues_prefix⟩

theorem Turn.clk (h : Turn cfg c c') : c'.clk = c.clk := by
  cases h with
  | nothing h => rfl
  | command h issues => rw [issues.frame]

/-- What `FinishRefresh` leaves marked, if it does not answer with the refresh itself. -/
theorem finishRefresh_marks {ref : Command} {rest : List Command} {answer : Option Command}
    {q : CommandQueue}
    (hmarked : Marked cfg c) (hfront : c.channelState.refreshQ = ref :: rest)
    (h : c.cmdQueue.finishRefresh cfg c.channelState ref = .ok (answer, q)) :
    answer.any Command.isRefresh = true ∧ q.isInRef = false ∨
      answer.any Command.isRefresh = false ∧ q.isInRef = true ∧
        ∀ i ∈ CommandQueue.refIndices cfg ref, i ∈ q.refQIndices := by
  obtain ⟨cmd, -, h⟩ := ok_of_bind h
  obtain ⟨rfl, hq⟩ := Prod.mk.inj (Except.ok.inj h)
  cases hdone : cmd.any Command.isRefresh with
  | true =>
    rw [if_pos hdone] at hq
    exact .inl ⟨rfl, by rw [← hq]⟩
  | false =>
    rw [if_neg (by simp [hdone])] at hq
    refine .inr ⟨rfl, ?_⟩
    rw [← hq]
    split
    · next hin =>
      obtain ⟨ref', rest', hfront', hmem⟩ := hmarked hin
      rw [hfront] at hfront'
      obtain ⟨rfl, rfl⟩ := List.cons.inj hfront'
      exact ⟨hin, hmem⟩
    · exact ⟨rfl, fun i hi => List.mem_append_right _ hi⟩

/-- What happens to the refresh at the front in one cycle. -/
inductive FrontTurn (cfg : Config) (c : Controller) (ref : Command) (c' : Controller) : Prop where
  | refreshed {c₀ : Controller} (issues : Issues cfg c₀ ref c') (channel : c₀.channelState = c.channelState)
      (clk : c₀.clk = c.clk) (trace : c₀.cmdTrace = c.cmdTrace) (marks : c'.cmdQueue.isInRef = false)
  | precharged {c₀ : Controller} {cmd : Command} (issues : Issues cfg c₀ cmd c')
      (channel : c₀.channelState = c.channelState) (clk : c₀.clk = c.clk) (trace : c₀.cmdTrace = c.cmdTrace)
      (ready : c.channelState.getReadyCommand cfg ref c.clk = .ok (some cmd)) (pre : cmd.cmdType = .precharge)
  | waits (ready : c.channelState.getReadyCommand cfg ref c.clk = .ok none)
      (channel : c'.channelState = c.channelState) (trace : c'.cmdTrace = c.cmdTrace)
  | passed {c₀ : Controller} {i : Int} {entry cmd : Command} (issues : Issues cfg c₀ cmd c')
      (channel : c₀.channelState = c.channelState) (clk : c₀.clk = c.clk) (trace : c₀.cmdTrace = c.cmdTrace)
      (ready : c.channelState.getReadyCommand cfg ref c.clk = .ok none) (mem : entry ∈ c.cmdQueue.queues i)
      (answer : c.channelState.getReadyCommand cfg entry c.clk = .ok (some cmd))
      (free : i ∉ CommandQueue.refIndices cfg ref)

theorem Turn.front {ref : Command} {rest : List Command} (htidy : Tidy cfg c) (hmarked : Marked cfg c)
    (hfront : c.channelState.refreshQ = ref :: rest) (h : Turn cfg c c') :
    FrontTurn cfg c ref c' ∧ (c'.cmdQueue.isInRef = true →
      ∀ i ∈ CommandQueue.refIndices cfg ref, i ∈ c'.cmdQueue.refQIndices) := by
  have hnext : ∀ {answer : Option Command} {q : CommandQueue}, c.nextCommand cfg = .ok (answer, q) →
      ∃ first q₁, c.cmdQueue.finishRefresh cfg c.channelState ref = .ok (first, q₁) ∧
        (∀ cmd, first = some cmd → answer = some cmd ∧ q = q₁) ∧
        (first = none → q₁.getCommandToIssue cfg c.channelState = .ok (answer, q)) := by
    intro answer q hanswer
    unfold nextCommand at hanswer
    rw [hfront] at hanswer
    obtain ⟨⟨first, q₁⟩, hfinish, hanswer⟩ := ok_of_bind hanswer
    refine ⟨first, q₁, hfinish, ?_, ?_⟩
    · rintro cmd rfl
      cases hanswer
      exact ⟨rfl, rfl⟩
    · rintro rfl
      exact hanswer
  have href := htidy.refreshes ref (by simp [hfront])
  cases h with
  | @nothing q hanswer =>
    obtain ⟨first, q₁, hfinish, hfirst, hqueues⟩ := hnext hanswer
    obtain ⟨hturned, hready⟩ := finishRefresh_turned hfinish
    cases first with
    | some cmd => cases (hfirst cmd rfl).1
    | none =>
      have hmarks := finishRefresh_marks hmarked hfront hfinish
      have hsame := round_sameMarks (CommandQueue.issueFrom_round (hqueues rfl))
      rw [htidy.clk] at hready
      refine ⟨.waits hready rfl rfl, ?_⟩
      intro hin i hi
      rw [hsame.refQIndices]
      rcases hmarks with ⟨hdone, -⟩ | ⟨-, -, hmem⟩
      · cases hdone
      · exact hmem i hi
  | @command q cmd _ hanswer issues =>
    obtain ⟨first, q₁, hfinish, hfirst, hqueues⟩ := hnext hanswer
    obtain ⟨hturned, hready⟩ := finishRefresh_turned hfinish
    have hmarks := finishRefresh_marks hmarked hfront hfinish
    have hqueue : c'.cmdQueue = q := by rw [issues.frame]
    rw [htidy.clk] at hready
    cases first with
    | some first =>
      obtain ⟨hcmd, rfl⟩ := hfirst first rfl
      cases hcmd
      refine ⟨?_, ?_⟩
      · rcases answer_of_refresh href hready with rfl | hpre
        · refine .refreshed issues rfl rfl rfl ?_
          rw [hqueue]
          rcases hmarks with ⟨-, hout⟩ | ⟨hnot, -⟩
          · exact hout
          · rw [Option.any_some, href] at hnot
            cases hnot
        · exact .precharged issues rfl rfl rfl hready hpre
      · rw [hqueue]
        intro hin i hi
        rcases hmarks with ⟨-, hout⟩ | ⟨-, -, hmem⟩
        · rw [hout] at hin
          cases hin
        · exact hmem i hi
    | none =>
      have hround := CommandQueue.issueFrom_round (hqueues rfl)
      obtain ⟨i, entry, hentry, hentry', hfree⟩ := round_entry hround
      rcases hmarks with ⟨hdone, -⟩ | ⟨-, hin, hmem⟩
      · cases hdone
      · rw [hturned.queues] at hentry
        rw [hturned.clk, htidy.clk] at hentry'
        refine ⟨.passed issues rfl rfl rfl hready hentry hentry' fun hi => hfree ⟨hin, hmem i hi⟩, ?_⟩
        rw [hqueue, (round_sameMarks hround).refQIndices]
        exact fun _ => hmem

theorem other_frame {c₀ : Controller} {cmd : Command} (hissues : Issues cfg c₀ cmd c')
    (htrace : c₀.cmdTrace = c.cmdTrace) (hchannel : c₀.channelState = c.channelState)
    (hcmd : cmd.isRefresh = false) :
    refreshes c'.cmdTrace = refreshes c.cmdTrace ∧
    c'.channelState.refreshQ = c.channelState.refreshQ := by
  have htypes : cmd.cmdType ≠ .refresh ∧ cmd.cmdType ≠ .refreshBank := by
    simpa [Command.isRefresh] using hcmd
  have htrace' : c'.cmdTrace = c₀.cmdTrace ++ [(c₀.clk, cmd)] := by rw [hissues.frame]
  refine ⟨?_, ?_⟩
  · rw [htrace', refreshes_snoc, if_neg (by simp [hcmd]), htrace]
  · rw [hissues.channel.refreshQ, if_neg htypes.1, if_neg htypes.2, hchannel]

/-- A cycle in which no refresh waits. -/
theorem Turn.empty (htidy : Tidy cfg c) (hempty : c.channelState.refreshQ = []) (h : Turn cfg c c') :
    refreshes c'.cmdTrace = refreshes c.cmdTrace ∧ c'.channelState.refreshQ = [] ∧
      SameMarks c.cmdQueue c'.cmdQueue := by
  have hnext : ∀ {answer : Option Command} {q : CommandQueue}, c.nextCommand cfg = .ok (answer, q) →
      CommandQueue.Round cfg c.channelState c.cmdQueue answer q := by
    intro answer q hanswer
    unfold nextCommand at hanswer
    rw [hempty] at hanswer
    exact CommandQueue.issueFrom_round hanswer
  cases h with
  | nothing hanswer => exact ⟨rfl, hempty, round_sameMarks (hnext hanswer)⟩
  | @command q cmd _ hanswer issues =>
    have hround := hnext hanswer
    obtain ⟨i, entry, hentry, hready, -⟩ := round_entry hround
    have hcmd := isRefresh_of_entry (htidy.entry_isReadWrite hentry) hready
    obtain ⟨hrefreshes, hqueue⟩ := other_frame (c := c) issues rfl rfl hcmd
    have hq : c'.cmdQueue = q := by rw [issues.frame]
    exact ⟨hrefreshes, hqueue.trans hempty, hq ▸ round_sameMarks hround⟩

/-- The marks belong to the refresh at the front, in every cycle. -/
theorem Marked.tick (h : Marked cfg c) (hplain : cfg.Plain) (htidy : Tidy cfg c)
    (htick : c.clockTick cfg = .ok c') :
    Marked cfg c' := by
  obtain ⟨r, ch, c₂, hrefresh, hturn, hended⟩ := clockTick_turn hplain htick
  have htidy₁ := htidy.move (.refreshTick hrefresh)
  obtain ⟨new, hch, -⟩ := Refresh.clockTick_refreshQ hrefresh
  have hmarked : Marked cfg {c with
      refresh := r
      channelState := ch} := by
    intro hin
    obtain ⟨first, later, hfront, hmem⟩ := h hin
    exact ⟨first, later ++ new, by rw [hch, hfront]; rfl, hmem⟩
  intro hin
  rw [hended.marks.isInRef] at hin
  rw [hended.refreshQ, hended.marks.refQIndices]
  cases hqueue : ch.refreshQ with
  | nil =>
    obtain ⟨-, -, hsame⟩ := Turn.empty htidy₁ hqueue hturn
    rw [hsame.isInRef] at hin
    obtain ⟨first, later, hfront, -⟩ := hmarked hin
    rw [hqueue] at hfront
    cases hfront
  | cons ref rest =>
    obtain ⟨hfront, hmarks⟩ := Turn.front htidy₁ hmarked hqueue hturn
    refine ⟨ref, rest, ?_, hmarks hin⟩
    have href := htidy₁.refreshes ref (by simp [hqueue])
    cases hfront with
    | refreshed issues channel clk trace marks =>
      rw [marks] at hin
      cases hin
    | precharged issues channel clk trace ready pre =>
      exact (other_frame issues trace channel (by simp [Command.isRefresh, pre])).2.trans hqueue
    | waits ready channel trace =>
      rw [channel]
      exact hqueue
    | passed issues channel clk trace ready mem answer free =>
      have hcmd := isRefresh_of_entry (htidy₁.entry_isReadWrite mem) answer
      exact (other_frame issues trace channel hcmd).2.trans hqueue

end Controller

end Hsim.Dramsim3
