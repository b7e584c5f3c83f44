import Hsim.Dramsim3.Turns

/-! How long a refresh of a rank can be held up.

While a refresh waits at the front, the queues of its rank are passed over, so nothing
pushes the banks of the rank back any more but the precharges that the refresh itself
asks for. Each of these closes a bank, hence the refresh is issued within a number of
cycles that does not depend on the requests (`refreshes_on_time`). A refresh of a
single bank has no such bound: activations in other banks of its rank push it back. -/
namespace Hsim.Dramsim3

namespace Config
variable (cfg : Config)

/-- What the tables of a command say about a precharge and a refresh lies within a bound. -/
def Within (cmd : Command) (bound : Nat) : Prop :=
  ∀ b t d, t = .precharge ∨ t = .refresh → (t, d) ∈ cfg.delays cmd b → 0 ≤ d ∧ d ≤ (bound : Int)

/-- A bound for all commands, and one for precharges. -/
structure DelaysWithin (bound gap : Nat) : Prop where
  any : ∀ cmd, cfg.Within cmd bound
  precharge : ∀ cmd : Command, cmd.cmdType = .precharge → cfg.Within cmd gap

/-- All that the tables say about what follows a command of a type. -/
def tables (t : CommandType) : Delays :=
  cfg.sameBank t ++ cfg.otherBanksSameBankgroup t ++ cfg.otherBankgroupsSameRank t ++ cfg.otherRanks t ++
    cfg.sameRank t

/-- The cycles that a refresh of a rank may take. -/
def refreshDelay (bound gap : Nat) : Nat := bound + cfg.banks.toNat * (gap + 1)

variable {cfg}

theorem delays_subset (cmd : Command) (b : Bank) : cfg.delays cmd b ⊆ cfg.tables cmd.cmdType := by
  intro e he
  unfold delays at he
  unfold tables
  repeat' split at he
  all_goals simp_all

theorem within_of_tables {cmd : Command} {bound : Nat} (h : ∀ e ∈ cfg.tables cmd.cmdType,
    e.1 = .precharge ∨ e.1 = .refresh → 0 ≤ e.2 ∧ e.2 ≤ (bound : Int)) : cfg.Within cmd bound :=
  fun b t d ht hd => h (t, d) (delays_subset cmd b hd) ht

theorem banks_pos (h : cfg.Counts) : 0 < cfg.banks := Int.mul_pos h.bankgroups h.banksPerGroup

theorem length_banksOf_toNat (h : cfg.Counts) (rank : Int) :
    (cfg.banksOf rank).length = cfg.banks.toNat := by
  have hlength := length_banksOf h.bankgroups.le h.banksPerGroup.le rank
  omega

/-- With ranks refreshed as a whole, a refresh is of a rank that the channel has. -/
theorem refreshAt_rank (h : cfg.Counts) (hpolicy : cfg.refreshPolicy ≠ .bankLevelStaggered)
    (k : Nat) :
    (cfg.refreshAt k).cmdType = .refresh ∧ 0 ≤ (cfg.refreshAt k).addr.rank ∧
      (cfg.refreshAt k).addr.rank < cfg.ranks := by
  have hranks := h.ranks
  unfold refreshAt
  cases hp : cfg.refreshPolicy with
  | rankLevelSimultaneous => exact ⟨rfl, le_rfl, hranks⟩
  | rankLevelStaggered =>
    have hlt := Nat.mod_lt k (show 0 < cfg.ranks.toNat by omega)
    exact ⟨rfl, by positivity, by dsimp only; omega⟩
  | bankLevelStaggered => exact absurd hp hpolicy

/-- The index of a bank in its rank is less than the number of banks. -/
theorem index_in_rank (h : cfg.Counts) {b : Bank} {rank : Int} (hb : b ∈ cfg.banksOf rank) :
    0 ≤ b.bankgroup * cfg.banksPerGroup + b.bank ∧
    b.bankgroup * cfg.banksPerGroup + b.bank < cfg.banks := by
  obtain ⟨-, ⟨hbg, hbg'⟩, hbank, hbank'⟩ := mem_banksOf.mp hb
  have hnext : (b.bankgroup + 1) * cfg.banksPerGroup ≤ cfg.bankgroups * cfg.banksPerGroup :=
    Int.mul_le_mul_of_nonneg_right (by omega) h.banksPerGroup.le
  have hpos : 0 ≤ b.bankgroup * cfg.banksPerGroup := Int.mul_nonneg hbg h.banksPerGroup.le
  rw [Int.add_mul, Int.one_mul] at hnext
  refine ⟨by omega, ?_⟩
  show _ < cfg.bankgroups * cfg.banksPerGroup
  omega

/-- A refresh of a rank holds up the queues of all its banks. -/
theorem queueIndex_mem_refIndices (h : cfg.Counts) {ref : Command} (hcmd : ref.cmdType = .refresh)
    (hlow : 0 ≤ ref.addr.rank) (hhigh : ref.addr.rank < cfg.ranks) {b : Bank}
    (hb : b ∈ cfg.banksOf ref.addr.rank) : cfg.queueIndex b ∈ CommandQueue.refIndices cfg ref := by
  have hrank := (mem_banksOf.mp hb).1
  rw [CommandQueue.refIndices, if_pos hcmd]
  unfold queueIndex
  cases hs : cfg.queueStructure with
  | perRank => simpa using hrank
  | perBank =>
    have hin := index_in_rank h hb
    have hrow : 0 ≤ b.rank * cfg.banks := Int.mul_nonneg (hrank ▸ hlow) (banks_pos h).le
    have hnext : (b.rank + 1) * cfg.banks ≤ cfg.ranks * cfg.banks :=
      Int.mul_le_mul_of_nonneg_right (by omega) (banks_pos h).le
    rw [Int.add_mul, Int.one_mul] at hnext
    rw [add_assoc]
    simp only [List.mem_filter, List.mem_map, List.mem_range, decide_eq_true_eq]
    refine ⟨⟨(b.rank * cfg.banks + (b.bankgroup * cfg.banksPerGroup + b.bank)).toNat, ?_, ?_⟩, ?_⟩
    · have hqueues : cfg.numQueues = (cfg.banks * cfg.ranks).toNat := by simp [numQueues, hs]
      rw [hqueues, Int.mul_comm cfg.banks]
      omega
    · exact Int.toNat_of_nonneg (by omega)
    · rw [Int.tdiv_eq_ediv_of_nonneg (by omega), Int.add_comm,
        Int.add_mul_ediv_right _ _ (banks_pos h).ne', Int.ediv_eq_zero_of_lt hin.1 hin.2,
        Int.zero_add, hrank]

/-- A command for a bank of another rank does not push precharges and refreshes back. -/
theorem not_mem_delays_of_rank {cmd : Command} {b : Bank} {t : CommandType}
    (hbank : cmd.isRankCmd = false) (hne : b.rank ≠ cmd.addr.rank)
    (ht : t = .precharge ∨ t = .refresh) :
    t ∉ (cfg.delays cmd b).map Prod.fst := by
  have hself : b ≠ cmd.place := fun heq => hne (congrArg Bank.rank heq)
  have hgroup : b ∉ cfg.otherBanks cmd.place := fun hmem => hne (mem_otherBanks.mp hmem).1
  have hrank : b ∉ cfg.otherGroups cmd.place := fun hmem =>
    hne (mem_banksOf.mp (mem_otherGroups.mp hmem).1).1
  rw [delays, if_neg (by simp [hbank]), if_neg hself, if_neg hgroup, if_neg hrank]
  split
  · rcases ht with rfl | rfl <;> cases hc : cmd.cmdType <;> simp [otherRanks, columns]
  · simp

end Config

namespace ChannelState
variable {cfg : Config} {ch ch' : ChannelState} {cmd : Command} {clk bound limit : Nat} {rank : Int}

/-- From a cycle on, every bank of the rank may be precharged and refreshed. -/
def Due (cfg : Config) (ch : ChannelState) (rank : Int) (limit : Nat) : Prop :=
  ∀ b ∈ cfg.banksOf rank, ∀ t, t = .precharge ∨ t = .refresh → (ch.bankStates b).cmdTiming t ≤ limit

/-- The banks of a rank that a refresh has to close first. -/
def openBanks (cfg : Config) (ch : ChannelState) (rank : Int) : Nat :=
  (cfg.banksOf rank).countP fun b => (ch.bankStates b).state = .open

theorem openBanks_le (hcounts : cfg.Counts) (ch : ChannelState) (rank : Int) :
    openBanks cfg ch rank ≤ cfg.banks.toNat := by
  rw [← Config.length_banksOf_toNat hcounts rank]
  exact List.countP_le_length

/-- Any command pushes a bank back by its table at most. -/
theorem Due.issued (hwithin : cfg.Within cmd bound) (h : Due cfg ch rank limit)
    (hissued : Issued cfg ch cmd clk ch') : Due cfg ch' rank (max limit (clk + bound)) := by
  intro b hb t ht
  refine hissued.le_of ((h b hb t ht).trans (le_max_left _ _)) ?_
  intro d hd
  obtain ⟨hlow, hhigh⟩ := hwithin b t d ht hd
  have hlater : (later clk d : Int) ≤ clk + d := later_le hlow
  refine le_trans ?_ (le_max_right _ _)
  omega

/-- A command for a bank of another rank leaves the rank as it is. -/
theorem Issued.other_rank (hissued : Issued cfg ch cmd clk ch') (hbank : cmd.isRankCmd = false)
    (hne : cmd.addr.rank ≠ rank) : ∀ b ∈ cfg.banksOf rank,
      (ch'.bankStates b).state = (ch.bankStates b).state ∧
        ∀ t, t = .precharge ∨ t = .refresh →
          (ch'.bankStates b).cmdTiming t = (ch.bankStates b).cmdTiming t := by
  intro b hb
  have hrank := (Config.mem_banksOf.mp hb).1
  have hnot : b ∉ cfg.targets cmd := by
    rw [Config.targets, if_neg (by simp [hbank]), List.mem_singleton]
    rintro rfl
    exact hne hrank
  refine ⟨hissued.state_of_not_mem hnot, ?_⟩
  intro t ht
  rw [hissued.other b hnot]
  exact BankState.updateTimings_of_not_mem _ clk
    (Config.not_mem_delays_of_rank hbank (fun heq => hne (heq.symm.trans hrank)) ht)

theorem openBanks_congr (h : ∀ b ∈ cfg.banksOf rank,
    (ch'.bankStates b).state = (ch.bankStates b).state) :
    openBanks cfg ch' rank = openBanks cfg ch rank :=
  List.countP_congr fun b hb => by rw [h b hb]

/-- A precharge closes a bank. -/
theorem Issued.openBanks_lt (hissued : Issued cfg ch cmd clk ch') (hpre : cmd.cmdType = .precharge)
    (hmem : cmd.place ∈ cfg.banksOf rank) (hopen : (ch.bankStates cmd.place).state = .open) :
    openBanks cfg ch' rank + 1 ≤ openBanks cfg ch rank := by
  have hbank : cmd.isRankCmd = false := by simp [Command.isRankCmd, hpre]
  have htargets : cfg.targets cmd = [cmd.place] := by rw [Config.targets, if_neg (by simp [hbank])]
  obtain ⟨s, hs, heq⟩ := hissued.target cmd.place (by simp [htargets])
  have hclosed : (ch'.bankStates cmd.place).state = .closed := by
    rw [heq, BankState.updateTimings_state]
    unfold BankState.updateState at hs
    rw [hopen, hpre] at hs
    cases hs
    rfl
  have hother : ∀ b, b ≠ cmd.place → (ch'.bankStates b).state = (ch.bankStates b).state :=
    fun b hb => hissued.state_of_not_mem (by simpa [htargets] using hb)
  obtain ⟨before, after, hsplit⟩ := List.append_of_mem hmem
  have hnodup := cfg.nodup_banksOf rank
  rw [hsplit] at hnodup
  obtain ⟨hbefore, hafter⟩ : cmd.place ∉ before ∧ cmd.place ∉ after := by
    rw [List.nodup_middle, List.nodup_cons, List.mem_append, not_or] at hnodup
    exact hnodup.1
  have hsame : ∀ l : List Bank, cmd.place ∉ l →
      l.countP (fun b => (ch'.bankStates b).state = .open) =
      l.countP fun b => (ch.bankStates b).state = .open :=
    fun l hl => List.countP_congr fun b hb => by rw [hother b fun heq => hl (heq ▸ hb)]
  unfold openBanks
  rw [hsplit, List.countP_append, List.countP_append, List.countP_cons, List.countP_cons,
    hsame before hbefore, hsame after hafter, if_neg (by simp [hclosed]), if_pos (by simp [hopen])]
  omega

end ChannelState

namespace Controller
variable {cfg : Config} {c c' : Controller}

/-! ### Progress -/

variable {bound gap limit : Nat} {ref : Command}

/-- The latest cycle in which the refresh at the front can still be waiting. -/
def latest (cfg : Config) (gap : Nat) (c : Controller) (rank : Int) (limit : Nat) : Nat :=
  max c.clk limit + ChannelState.openBanks cfg c.channelState rank * (gap + 1)

/-- The bound of the next cycle is no later. -/
structure Kept (cfg : Config) (gap : Nat) (c : Controller) (ref : Command) (limit : Nat) (c' : Controller) :
    Prop where
  refreshes : refreshes c'.cmdTrace = refreshes c.cmdTrace
  refreshQ : c'.channelState.refreshQ = c.channelState.refreshQ
  latest : ∃ limit', ChannelState.Due cfg c'.channelState ref.addr.rank limit' ∧
    max (c.clk + 1) limit' + ChannelState.openBanks cfg c'.channelState ref.addr.rank * (gap + 1) ≤
      c.latest cfg gap ref.addr.rank limit

/-- While the refresh waits, some bank is not due yet. -/
theorem lt_of_waits (hcounts : cfg.Counts) (hcmd : ref.cmdType = .refresh)
    (hawake : ∀ b, (c.channelState.bankStates b).state ≠ .sref)
    (hdue : ChannelState.Due cfg c.channelState ref.addr.rank limit)
    (h : c.channelState.getReadyCommand cfg ref c.clk = .ok none) : c.clk < limit := by
  by_contra hlate
  have hlength := Config.length_banksOf hcounts.bankgroups.le hcounts.banksPerGroup.le ref.addr.rank
  have hpos := Config.banks_pos hcounts
  have hne : cfg.banksOf ref.addr.rank ≠ [] := by
    intro hnil
    rw [hnil] at hlength
    simp only [List.length_nil, Nat.cast_zero] at hlength
    omega
  have hanswer : ∃ r, c.channelState.getReadyCommand cfg ref c.clk = .ok (some r) :=
    ChannelState.getReadyCommand_due hne hcmd hlength hawake fun b hb =>
      ⟨(hdue b hb .precharge (.inl rfl)).trans (not_lt.mp hlate),
        (hdue b hb .refresh (.inr rfl)).trans (not_lt.mp hlate)⟩
  obtain ⟨r, hr⟩ := hanswer
  rw [h] at hr
  cases hr

/-- In each cycle the refresh is issued, or the latest cycle for it stays. -/
theorem FrontTurn.progress (hcounts : cfg.Counts) (hdelays : cfg.DelaysWithin bound gap)
    (hplaces : cfg.Places) (htidy : Tidy cfg c)
    (hawake : ∀ b, (c.channelState.bankStates b).state ≠ .sref) (hcmd : ref.cmdType = .refresh)
    (hlow : 0 ≤ ref.addr.rank) (hhigh : ref.addr.rank < cfg.ranks)
    (hdue : ChannelState.Due cfg c.channelState ref.addr.rank limit) (h : FrontTurn cfg c ref c') :
    (∃ c₀, Issues cfg c₀ ref c' ∧ c₀.channelState = c.channelState ∧ c₀.clk = c.clk ∧
      c₀.cmdTrace = c.cmdTrace) ∨ Kept cfg gap c ref limit c' := by
  have hrank : ref.isRankCmd = true := by simp [Command.isRankCmd, hcmd]
  cases h with
  | @refreshed c₀ issues channel clk trace marks => exact .inl ⟨c₀, issues, channel, clk, trace⟩
  | @precharged c₀ cmd issues channel clk trace ready pre =>
    obtain ⟨hrefreshes, hqueue⟩ := other_frame issues trace channel (by simp [Command.isRefresh, pre])
    have hissued := issues.channel
    rw [channel, clk] at hissued
    rcases ChannelState.getReadyCommand_rank hrank ready with rfl | ⟨-, hmem, hopen⟩
    · rw [pre] at hcmd
      cases hcmd
    · refine .inr ⟨hrefreshes, hqueue, max limit (c.clk + gap),
        hdue.issued (hdelays.precharge cmd pre) hissued, ?_⟩
      -- One bank fewer is open.
      have hfewer := Nat.mul_le_mul_right (gap + 1) (hissued.openBanks_lt pre hmem hopen)
      rw [Nat.add_mul, Nat.one_mul] at hfewer
      unfold latest
      omega
  | waits ready channel trace =>
    have hlt := lt_of_waits hcounts hcmd hawake hdue ready
    refine .inr ⟨by rw [trace], by rw [channel], limit, channel ▸ hdue, ?_⟩
    rw [channel, latest]
    omega
  | @passed c₀ i entry cmd issues channel clk trace ready mem answer free =>
    have haccess := htidy.entry_isReadWrite mem
    have hbank := ChannelState.isRankCmd_of_access hawake haccess answer
    obtain ⟨hrefreshes, hqueue⟩ := other_frame issues trace channel (isRefresh_of_entry haccess answer)
    obtain ⟨t, rfl, rfl⟩ := htidy.entries i entry mem
    have hentry : (transToCommand cfg t).isRankCmd = false := by
      have hrw := transToCommand_isReadWrite cfg t
      unfold Command.isReadWrite Command.isRead Command.isWrite at hrw
      unfold Command.isRankCmd
      cases hc : (transToCommand cfg t).cmdType <;> simp_all
    have haddr := ChannelState.getReadyCommand_addr hentry answer
    have hne : cmd.addr.rank ≠ ref.addr.rank := by
      intro heq
      rw [haddr, transToCommand_addr] at heq
      refine free (Config.queueIndex_mem_refIndices hcounts hcmd hlow hhigh ?_)
      rw [← heq]
      exact hplaces t.addr
    have hissued := issues.channel
    rw [channel, clk] at hissued
    have hsame := hissued.other_rank hbank hne
    have hlt := lt_of_waits hcounts hcmd hawake hdue ready
    refine .inr ⟨hrefreshes, hqueue, limit, ?_, ?_⟩
    · intro b hb t' ht
      rw [(hsame b hb).2 t' ht]
      exact hdue b hb t' ht
    · rw [ChannelState.openBanks_congr fun b hb => (hsame b hb).1, latest]
      omega

/-! ### Runs -/

/-- The refreshes so far have been on time, and the one at the front still can be. -/
structure OnTime (cfg : Config) (bound gap : Nat) (c : Controller) : Prop where
  sound : Sound cfg c
  schedule : OnSchedule cfg c
  clk : c.refresh.clk = c.clk
  marked : Marked cfg c
  timely : ∀ rank, ChannelState.Due cfg c.channelState rank (c.clk + bound)
  front : ∀ ref rest, c.channelState.refreshQ = ref :: rest → ∃ limit,
    ChannelState.Due cfg c.channelState ref.addr.rank limit ∧ c.latest cfg gap ref.addr.rank limit ≤
      ((refreshes c.cmdTrace).length + 1) * cfg.refreshInterval + cfg.refreshDelay bound gap
  past : ∀ k e, (refreshes c.cmdTrace)[k]? = some e → (k + 1) * cfg.refreshInterval ≤ e.1 ∧
    e.1 ≤ (k + 1) * cfg.refreshInterval + cfg.refreshDelay bound gap

theorem onTime_start (cfg : Config) (bound gap : Nat) : OnTime cfg bound gap {} where
  sound := sound_start cfg
  schedule := onSchedule_start cfg
  clk := rfl
  marked h := by cases h
  timely rank b hb t ht := Nat.zero_le _
  front ref rest h := by cases h
  past k e h := by cases h

/-- With the times that any bank may have now, the bound is a fixed number of cycles away. -/
theorem latest_le (bound gap : Nat) (hcounts : cfg.Counts) (c : Controller) (rank : Int) :
    c.latest cfg gap rank (c.clk + bound) ≤ c.clk + cfg.refreshDelay bound gap := by
  have hopen := Nat.mul_le_mul_right (gap + 1) (ChannelState.openBanks_le hcounts c.channelState rank)
  unfold latest Config.refreshDelay
  omega

theorem Turn.due (hdelays : cfg.DelaysWithin bound gap) {rank : Int}
    (hdue : ChannelState.Due cfg c.channelState rank (c.clk + bound)) (h : Turn cfg c c') :
    ChannelState.Due cfg c'.channelState rank (c.clk + bound) := by
  cases h with
  | nothing hanswer => exact hdue
  | command hanswer issues =>
    have hissued := hdue.issued (hdelays.any _) issues.channel
    rwa [max_self] at hissued

/-- When the refresh at the front has come due, and what bounds it. -/
theorem front_bound (hcounts : cfg.Counts) (h : OnTime cfg bound gap c) {r : Refresh}
    {ch : ChannelState}
    (hrefresh : c.refresh.clockTick cfg c.channelState = .ok (r, ch)) {ref : Command}
    {rest : List Command}
    (hfront : ch.refreshQ = ref :: rest) : ∃ limit, ChannelState.Due cfg ch ref.addr.rank limit ∧
      max c.clk limit + ChannelState.openBanks cfg ch ref.addr.rank * (gap + 1) ≤
        ((refreshes c.cmdTrace).length + 1) * cfg.refreshInterval + cfg.refreshDelay bound gap := by
  obtain ⟨-, -, hch⟩ := Refresh.clockTick_spec hcounts h.schedule.awake h.schedule.pointing hrefresh
  have hbanks : ch.bankStates = c.channelState.bankStates := by rw [hch]
  have hsame : ∀ {rank limit}, ChannelState.Due cfg c.channelState rank limit →
      ChannelState.Due cfg ch rank limit := by
    intro rank limit hdue b hb t ht
    rw [hbanks]
    exact hdue b hb t ht
  have hopen : ∀ rank,
      ChannelState.openBanks cfg ch rank = ChannelState.openBanks cfg c.channelState rank :=
    fun rank => ChannelState.openBanks_congr fun b _ => by rw [hbanks]
  rw [hch] at hfront
  cases hold : c.channelState.refreshQ with
  | cons first later =>
    rw [hold] at hfront
    obtain ⟨rfl, -⟩ := List.cons.inj hfront
    obtain ⟨limit, hdue, hle⟩ := h.front first later hold
    exact ⟨limit, hsame hdue, by rw [hopen]; exact hle⟩
  | nil =>
    -- It comes due in this cycle.
    rw [hold, List.nil_append] at hfront
    split at hfront
    · next hdue =>
      refine ⟨c.clk + bound, hsame (h.timely _), ?_⟩
      have horder := congrArg List.length h.schedule.order
      rw [hold, List.append_nil, List.length_map, List.length_map, List.length_range, h.clk] at horder
      rw [h.clk] at hdue
      have hnow : c.clk = ((refreshes c.cmdTrace).length + 1) * cfg.refreshInterval := by
        have hdiv : cfg.dueBy (c.clk + 1) = cfg.dueBy c.clk + 1 := by rw [Config.dueBy_succ, if_pos hdue]
        have hclk := Nat.div_add_mod c.clk cfg.refreshInterval
        rw [Config.dueBy, Nat.add_sub_cancel, ← horder] at hdiv
        rw [hdue.1, hdiv, Nat.add_zero, Nat.mul_comm] at hclk
        exact hclk.symm
      have hle := latest_le bound gap hcounts c ref.addr.rank
      rw [hopen, ← hnow]
      exact hle
    · cases hfront

/-- The refresh at the front is issued, and the next one moves up. -/
theorem issued_front {c₀ : Controller} {rest : List Command} (hissues : Issues cfg c₀ ref c')
    (hchannel : c₀.channelState.refreshQ = ref :: rest) (hcmd : ref.cmdType = .refresh) :
    refreshes c'.cmdTrace = refreshes c₀.cmdTrace ++ [(c₀.clk, ref)] ∧
    c'.channelState.refreshQ = rest := by
  have htrace : c'.cmdTrace = c₀.cmdTrace ++ [(c₀.clk, ref)] := by rw [hissues.frame]
  refine ⟨?_, ?_⟩
  · rw [htrace, refreshes_snoc, if_pos (by simp [Command.isRefresh, hcmd])]
  · rw [hissues.channel.refreshQ, if_pos hcmd, hchannel, List.eraseP_cons_of_pos (by simp)]

theorem OnTime.tick (hplain : cfg.Plain) (hcounts : cfg.Counts)
    (hpolicy : cfg.refreshPolicy ≠ .bankLevelStaggered) (hdelays : cfg.DelaysWithin bound gap)
    (hinterval : cfg.refreshDelay bound gap < cfg.refreshInterval) (h : OnTime cfg bound gap c)
    (htick : c.clockTick cfg = .ok c') : OnTime cfg bound gap c' := by
  have hmoves := clockTick_moves htick
  have hsound' := h.sound.moves hplain hmoves
  have hschedule' := h.schedule.moves hcounts hplain.selfRefresh hmoves
  obtain ⟨hclk, hrclk⟩ := clockTick_clk htick hplain.selfRefresh
  obtain ⟨r, ch, c₂, hrefresh, hturn, hended⟩ := clockTick_turn hplain htick
  have hticked : Move cfg c {c with
      refresh := r
      channelState := ch} := .refreshTick hrefresh
  have hsound := h.sound.move hplain hticked
  have hschedule := h.schedule.move hcounts hplain.selfRefresh hticked
  obtain ⟨hr, -, hch⟩ := Refresh.clockTick_spec hcounts h.schedule.awake h.schedule.pointing hrefresh
  have htimely : ∀ rank, ChannelState.Due cfg c'.channelState rank (c'.clk + bound) := by
    intro rank b hb t ht
    have hdue : ChannelState.Due cfg ch rank (c.clk + bound) := by
      intro b hb t ht
      rw [hch]
      exact h.timely rank b hb t ht
    have hle := Turn.due hdelays hdue hturn b hb t ht
    rw [hended.bankStates, hclk]
    exact hle.trans (Nat.add_le_add_right (Nat.le_succ _) _)
  have hmarked' := h.marked.tick hplain h.sound.lineup.tidy htick
  have hfinish : (∀ ref rest, c'.channelState.refreshQ = ref :: rest → ∃ limit,
      ChannelState.Due cfg c'.channelState ref.addr.rank limit ∧ c'.latest cfg gap ref.addr.rank limit ≤
        ((refreshes c'.cmdTrace).length + 1) * cfg.refreshInterval + cfg.refreshDelay bound gap) →
      (∀ k e, (refreshes c'.cmdTrace)[k]? = some e → (k + 1) * cfg.refreshInterval ≤ e.1 ∧
        e.1 ≤ (k + 1) * cfg.refreshInterval + cfg.refreshDelay bound gap) → OnTime cfg bound gap c' :=
    fun hfront hpast =>
      ⟨hsound', hschedule', by rw [hclk, hrclk, h.clk], hmarked', htimely, hfront, hpast⟩
  cases hqueue : ch.refreshQ with
  | nil =>
    obtain ⟨hrefreshes, hempty, -⟩ := Turn.empty hsound.lineup.tidy hqueue hturn
    have hempty' : c'.channelState.refreshQ = [] := hended.refreshQ.trans hempty
    have hrefreshes' : refreshes c'.cmdTrace = refreshes c.cmdTrace := by rw [hended.cmdTrace, hrefreshes]
    refine hfinish ?_ ?_
    · intro ref rest hfront
      rw [hempty'] at hfront
      cases hfront
    · rw [hrefreshes']
      exact h.past
  | cons ref rest =>
    have hmarked : Marked cfg {c with
        refresh := r
        channelState := ch} := by
      intro hin
      obtain ⟨first, later, hfront, hmem⟩ := h.marked hin
      rw [hch, hfront, List.cons_append] at hqueue
      obtain ⟨rfl, -⟩ := List.cons.inj hqueue
      exact ⟨first, _, by rw [hch, hfront]; rfl, hmem⟩
    obtain ⟨hfront, -⟩ := Turn.front hsound.lineup.tidy hmarked hqueue hturn
    obtain ⟨hcmd, hlow, hhigh⟩ : ref.cmdType = .refresh ∧ 0 ≤ ref.addr.rank ∧
        ref.addr.rank < cfg.ranks := by
      have hmem : ref ∈ (List.range (cfg.dueBy r.clk)).map cfg.refreshAt := by
        rw [← hschedule.order]
        exact List.mem_append_right _ (by simp [hqueue])
      obtain ⟨k, -, rfl⟩ := List.mem_map.mp hmem
      exact Config.refreshAt_rank hcounts hpolicy k
    obtain ⟨limit, hdue, hbound⟩ := front_bound hcounts h hrefresh hqueue
    rcases FrontTurn.progress hcounts hdelays hplain.places hsound.lineup.tidy hsound.awake hcmd
      hlow hhigh hdue
      hfront with ⟨c₀, hissues, hchannel, hclk₀, htrace⟩ | hkept
    · obtain ⟨hrefreshes, hrest⟩ := issued_front hissues (by rw [hchannel]; exact hqueue) hcmd
      rw [htrace, hclk₀] at hrefreshes
      have hrefreshes' : refreshes c'.cmdTrace = refreshes c.cmdTrace ++ [(c.clk, ref)] := by
        rw [hended.cmdTrace, hrefreshes]
      have hnow : c.clk ≤ ((refreshes c.cmdTrace).length + 1) * cfg.refreshInterval
          + cfg.refreshDelay bound gap := by
        omega
      refine hfinish ?_ ?_
      · intro next later hnext
        refine ⟨c'.clk + bound, htimely _, ?_⟩
        have hle := latest_le bound gap hcounts c' next.addr.rank
        rw [hrefreshes', List.length_append, List.length_singleton, Nat.add_mul _ 1, Nat.one_mul]
        omega
      · intro k e he
        rw [hrefreshes'] at he
        by_cases hk : k < (refreshes c.cmdTrace).length
        · rw [List.getElem?_append_left hk] at he
          exact h.past k e he
        · have hlast : k < (refreshes c.cmdTrace ++ [(c.clk, ref)]).length :=
            (List.getElem?_eq_some_iff.mp he).1
          rw [List.length_append, List.length_singleton] at hlast
          obtain rfl : k = (refreshes c.cmdTrace).length := by omega
          rw [List.getElem?_append_right (Nat.le_refl _), Nat.sub_self] at he
          cases he
          refine ⟨?_, hnow⟩
          -- It is among those that have come due.
          have horder :
              (refreshes c.cmdTrace).length + (rest.length + 1) = c.clk / cfg.refreshInterval := by
            have hlength := congrArg List.length hschedule.order
            rw [hqueue, List.length_append, List.length_map, List.length_map,
              List.length_range, hr, h.clk, Config.dueBy, Nat.add_sub_cancel, List.length_cons] at hlength
            exact hlength
          have hmul := Nat.mul_le_mul_right cfg.refreshInterval
            (show (refreshes c.cmdTrace).length + 1 ≤ c.clk / cfg.refreshInterval by omega)
          exact hmul.trans (Nat.div_mul_le_self _ _)
    · have hrefreshes' : refreshes c'.cmdTrace = refreshes c.cmdTrace :=
        by rw [hended.cmdTrace, hkept.refreshes]
      have hqueue' : c'.channelState.refreshQ = ref :: rest := by
        rw [hended.refreshQ, hkept.refreshQ]
        exact hqueue
      refine hfinish ?_ ?_
      · intro first later hfirst
        rw [hqueue'] at hfirst
        obtain ⟨rfl, rfl⟩ := List.cons.inj hfirst
        obtain ⟨limit', hdue', hle⟩ := hkept.latest
        have hsame : ∀ b, (c'.channelState.bankStates b) = c₂.channelState.bankStates b :=
          fun b => by rw [hended.bankStates]
        refine ⟨limit', ?_, ?_⟩
        · intro b hb t ht
          rw [hsame]
          exact hdue' b hb t ht
        · have hopen : ChannelState.openBanks cfg c'.channelState ref.addr.rank =
              ChannelState.openBanks cfg c₂.channelState ref.addr.rank :=
            ChannelState.openBanks_congr fun b _ => by rw [hsame]
          rw [hrefreshes', latest, hclk, hopen]
          exact hle.trans hbound
      · rw [hrefreshes']
        exact h.past

theorem OnTime.beside (h : OnTime cfg bound gap c) (hsound : Sound cfg c') (hbeside : Beside c c') :
    OnTime cfg bound gap c' where
  sound := hsound
  schedule := h.schedule.of_eq hsound.lineup.tidy (by rw [hbeside.channelState])
    (by rw [hbeside.channelState])
    hbeside.refresh hbeside.cmdTrace
  clk := by rw [hbeside.refresh, hbeside.clk, h.clk]
  marked := by
    unfold Marked
    rw [hbeside.cmdQueue, hbeside.channelState]
    exact h.marked
  timely := by
    rw [hbeside.channelState, hbeside.clk]
    exact h.timely
  front := by
    unfold latest
    rw [hbeside.channelState, hbeside.clk, hbeside.cmdTrace]
    exact h.front
  past := by
    rw [hbeside.cmdTrace]
    exact h.past

theorem onTime_run (hplain : cfg.Plain) (hcounts : cfg.Counts)
    (hpolicy : cfg.refreshPolicy ≠ .bankLevelStaggered) (hdelays : cfg.DelaysWithin bound gap)
    (hinterval : cfg.refreshDelay bound gap < cfg.refreshInterval) {events : List Event}
    (h : run cfg {} events = .ok c) : OnTime cfg bound gap c := by
  have hrun : ∀ {events : List Event} {c₀ : Controller}, OnTime cfg bound gap c₀ →
      c₀.run cfg events = .ok c → OnTime cfg bound gap c := by
    intro events
    induction events with
    | nil =>
      intro c₀ h₀ hrun
      cases hrun
      exact h₀
    | cons e rest ih =>
      intro c₀ h₀ hrun
      obtain ⟨c₁, hstep, hrun⟩ := ok_of_bind hrun
      refine ih ?_ hrun
      obtain ⟨c₁', hstep', hsound⟩ := h₀.sound.step (e := e) hplain
      rw [hstep] at hstep'
      obtain rfl := Except.ok.inj hstep'
      cases e with
      | add addr isWrite =>
        cases hstep
        split
        · next hroom =>
          rw [if_pos hroom] at hsound
          exact h₀.beside hsound (addTransaction_beside cfg c₀ addr isWrite)
        · exact h₀
      | collect clk =>
        cases hstep
        exact h₀.beside hsound (returnDoneTrans_beside c₀ clk)
      | tick => exact h₀.tick hplain hcounts hpolicy hdelays hinterval hstep
  exact hrun (onTime_start cfg bound gap) h

/-- A refresh has been issued once its latest cycle is past. -/
theorem issued_of_late (hplain : cfg.Plain) (hcounts : cfg.Counts)
    (hpolicy : cfg.refreshPolicy ≠ .bankLevelStaggered) (hdelays : cfg.DelaysWithin bound gap)
    (hinterval : cfg.refreshDelay bound gap < cfg.refreshInterval) {events : List Event}
    (h : run cfg {} events = .ok c) {k : Nat}
    (hlate : (k + 1) * cfg.refreshInterval + cfg.refreshDelay bound gap < c.clk) :
    k < (refreshes c.cmdTrace).length := by
  have hontime := onTime_run hplain hcounts hpolicy hdelays hinterval h
  have hlength := hontime.schedule.length_order
  rw [run_clk hplain.selfRefresh h] at hlength
  by_contra hmissing
  cases hqueue : c.channelState.refreshQ with
  | nil =>
    -- All that have come due have been issued.
    rw [hqueue, List.length_nil, Config.dueBy] at hlength
    have hfew : (c.clk - 1) / cfg.refreshInterval < k + 1 := by omega
    have hclk := (Nat.div_lt_iff_lt_mul (by omega)).mp hfew
    omega
  | cons ref rest =>
    obtain ⟨limit, -, hle⟩ := hontime.front ref rest hqueue
    have hmul := Nat.mul_le_mul_right cfg.refreshInterval
      (show (refreshes c.cmdTrace).length + 1 ≤ k + 1 by omega)
    unfold latest at hle
    omega

/-- **Refreshes are on time**: with ranks refreshed as a whole and intervals that are long enough,
the refresh with number `k` is that of the schedule, and is issued within the bound after it came
due, whatever is requested. -/
theorem refreshes_on_time (hplain : cfg.Plain) (hcounts : cfg.Counts)
    (hpolicy : cfg.refreshPolicy ≠ .bankLevelStaggered) (hdelays : cfg.DelaysWithin bound gap)
    (hinterval : cfg.refreshDelay bound gap < cfg.refreshInterval) {events : List Event}
    (h : run cfg {} events = .ok c) (k : Nat) :
    (∀ e, (refreshes c.cmdTrace)[k]? = some e → e.2 = cfg.refreshAt k ∧
      (k + 1) * cfg.refreshInterval ≤ e.1 ∧
      e.1 ≤ (k + 1) * cfg.refreshInterval + cfg.refreshDelay bound gap) ∧
    ((k + 1) * cfg.refreshInterval + cfg.refreshDelay bound gap < c.clk →
      k < (refreshes c.cmdTrace).length) := by
  have hontime := onTime_run hplain hcounts hpolicy hdelays hinterval h
  refine ⟨?_, issued_of_late hplain hcounts hpolicy hdelays hinterval h⟩
  intro e he
  refine ⟨?_, hontime.past k e he⟩
  have hk : k < ((refreshes c.cmdTrace).map Prod.snd).length := by
    rw [List.length_map]
    exact (List.getElem?_eq_some_iff.mp he).1
  have hissued : ((refreshes c.cmdTrace).map Prod.snd ++ c.channelState.refreshQ)[k]? = some e.2 := by
    rw [List.getElem?_append_left hk, List.getElem?_map, he]
    rfl
  have hdue : k < cfg.dueBy c.refresh.clk := by
    have hlength := (List.getElem?_eq_some_iff.mp hissued).1
    rwa [hontime.schedule.order, List.length_map, List.length_range] at hlength
  rw [hontime.schedule.order, List.getElem?_map, List.getElem?_range hdue] at hissued
  exact (Option.some.inj hissued).symm

theorem lpddr5Ch4_delaysWithin : lpddr5Ch4.DelaysWithin 800 17 := by
  refine ⟨fun cmd => Config.within_of_tables ?_, fun cmd hcmd => Config.within_of_tables ?_⟩
  · cases cmd.cmdType <;> decide
  · rw [hcmd]
    decide

theorem refreshes_on_time_lpddr5 : ∃ c,
    run lpddr5Ch4 {} (.add 0 false :: List.replicate 8000 .tick) = .ok c ∧
      ∀ e, (refreshes c.cmdTrace)[0]? = some e → 3900 ≤ e.1 ∧ e.1 ≤ 3900 + 1088 := by
  obtain ⟨c, hrun⟩ := run_ok lpddr5Ch4_plain (.add 0 false :: List.replicate 8000 .tick)
  have hfirst := refreshes_on_time lpddr5Ch4_plain lpddr5Ch4_counts (by decide)
    lpddr5Ch4_delaysWithin (by decide) hrun 0
  exact ⟨c, hrun, fun e he => (hfirst.1 e he).2⟩

end Controller

end Hsim.Dramsim3
