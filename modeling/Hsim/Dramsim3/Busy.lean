import Hsim.Dramsim3.RefreshDelay

/-! A channel does not idle while something waits.

Once all times are past, a refresh that waits has an answer, and so has every queue that
is not empty: of its first command, or, if the row of that is kept for commands behind
it, of the first of these. The turns go through all queues in a cycle. So with a
refresh or a command waiting, some command is issued within as many cycles as the
tables ask for at most (`issues_within`). -/
namespace Hsim.Dramsim3

namespace Config
variable {cfg : Config}

/-- Single banks are refreshed under one policy only. -/
def Uses (cfg : Config) (t : CommandType) : Prop :=
  t = .refreshBank → cfg.refreshPolicy = .bankLevelStaggered

/-- A bound for all that the tables of some commands and the windows ask for. -/
structure Bounded (cfg : Config) (commands : Command → Prop) (bound : Nat) : Prop where
  delays : ∀ cmd b t d, commands cmd → cfg.Uses t → (t, d) ∈ cfg.delays cmd b → 0 ≤ d ∧ d ≤ (bound : Int)
  tFAW : 0 ≤ cfg.tFAW ∧ cfg.tFAW ≤ (bound : Int)
  t32AW : cfg.protocol.isGddr = true → 0 ≤ cfg.t32AW ∧ cfg.t32AW ≤ (bound : Int)

/-- The mapping names ranks that the channel has. -/
def RanksExist (cfg : Config) : Prop := ∀ addr, (cfg.mapping.addressMapping addr).rank < cfg.ranks

/-- The rank whose banks share a queue. -/
def rankOfQueue (cfg : Config) (i : Int) : Int :=
  match cfg.queueStructure with
  | .perRank => i
  | .perBank => i / cfg.banks

theorem rankOfQueue_queueIndex (h : cfg.Counts) {b : Bank} (hb : b ∈ cfg.banksOf b.rank) :
    cfg.rankOfQueue (cfg.queueIndex b) = b.rank := by
  obtain ⟨hlow, hhigh⟩ := index_in_rank h hb
  unfold rankOfQueue queueIndex
  cases cfg.queueStructure with
  | perRank => rfl
  | perBank =>
    dsimp only
    rw [add_assoc, Int.add_comm, Int.add_mul_ediv_right _ _ (banks_pos h).ne',
      Int.ediv_eq_zero_of_lt hlow hhigh, Int.zero_add]

theorem queueIndex_range (h : cfg.Counts) {b : Bank} (hb : b ∈ cfg.banksOf b.rank) (hlow : 0 ≤ b.rank)
    (hhigh : b.rank < cfg.ranks) : 0 ≤ cfg.queueIndex b ∧ cfg.queueIndex b < cfg.numQueues := by
  have hmem : cfg.queueIndex b ∈ CommandQueue.refIndices cfg ⟨.refresh, {rank := b.rank}, noAddr⟩ :=
    queueIndex_mem_refIndices h rfl hlow hhigh hb
  rw [CommandQueue.refIndices, if_pos rfl] at hmem
  unfold numQueues at *
  cases hs : cfg.queueStructure with
  | perRank =>
    simp only [hs, List.mem_singleton] at hmem ⊢
    omega
  | perBank =>
    simp only [hs, List.mem_filter, List.mem_map, List.mem_range] at hmem ⊢
    obtain ⟨⟨n, hn, hindex⟩, -⟩ := hmem
    rw [← hindex]
    exact ⟨Int.natCast_nonneg _, Int.ofNat_lt.mpr hn⟩

end Config

namespace ChannelState
variable {cfg : Config} {ch : ChannelState} {cmd : Command} {clk : Nat}

/-- All times are past, and no rank refreshes itself. -/
structure Calm (cfg : Config) (ch : ChannelState) (clk : Nat) : Prop where
  due : ∀ b t, cfg.Uses t → (ch.bankStates b).cmdTiming t ≤ clk
  window : ∀ rank, ch.activationWindowOk cfg rank clk = true
  awake : ∀ b, (ch.bankStates b).state ≠ .sref

/-- A bank gives what it needs. -/
theorem Calm.ready (h : Calm cfg ch clk) (hbank : cmd.isRankCmd = false) {t : CommandType}
    (huses : cfg.Uses t) (ht : (ch.bankStates cmd.place).requiredType cmd = .ok t) :
    ch.getReadyCommand cfg cmd clk = .ok (some ⟨t, cmd.addr, cmd.hexAddr⟩) := by
  refine (getReadyCommand_bank hbank).mpr ⟨?_, fun _ => h.window _⟩
  rw [BankState.getReadyCommand, ht, ok_bind, if_pos (h.due _ _ huses)]
  rfl

/-- A refresh that waits has an answer. -/
theorem Calm.refresh (h : Calm cfg ch clk) (hcounts : cfg.Counts) (href : cmd.isRefresh = true)
    (huses : cfg.Uses cmd.cmdType) :
    ∃ r, ch.getReadyCommand cfg cmd clk = .ok (some r) := by
  by_cases hcmd : cmd.cmdType = .refresh
  · have hlength := Config.length_banksOf hcounts.bankgroups.le hcounts.banksPerGroup.le cmd.addr.rank
    have hpos := Config.banks_pos hcounts
    refine getReadyCommand_due ?_ hcmd hlength h.awake fun b _ =>
      ⟨h.due _ _ (by simp [Config.Uses]), h.due _ _ (by simp [Config.Uses])⟩
    intro hnil
    rw [hnil] at hlength
    simp only [List.length_nil, Nat.cast_zero] at hlength
    omega
  · have hbank : cmd.cmdType = .refreshBank := by simpa [Command.isRefresh, hcmd] using href
    have hrequired : ∃ t, (ch.bankStates cmd.place).requiredType cmd = .ok t ∧ cfg.Uses t := by
      have hawake := h.awake cmd.place
      unfold BankState.requiredType
      cases hs : (ch.bankStates cmd.place).state <;> simp_all [Config.Uses]
    obtain ⟨t, ht, huses'⟩ := hrequired
    exact ⟨_, h.ready (by simp [Command.isRankCmd, hbank]) huses' ht⟩

/-- The row that is open is the one the command needs. -/
def Hits (ch : ChannelState) (cmd : Command) : Prop :=
  (ch.bankStates cmd.place).state = .open ∧ cmd.addr.row = (ch.bankStates cmd.place).openRow

/-- What an access needs, and what it means for its row. -/
theorem Calm.access (h : Calm cfg ch clk) (haccess : cmd.isReadWrite = true) :
    (Hits ch cmd ∧ ch.getReadyCommand cfg cmd clk = .ok (some cmd)) ∨
      ∃ t, ch.getReadyCommand cfg cmd clk = .ok (some ⟨t, cmd.addr, cmd.hexAddr⟩) ∧ ¬ Hits ch cmd ∧
        (t = .activate ∨ t = .precharge ∧ (ch.bankStates cmd.place).state = .open) := by
  have hbank := Command.isRankCmd_of_isReadWrite haccess
  have huses : cfg.Uses cmd.cmdType := by
    intro hc
    simp [Command.isReadWrite, Command.isRead, Command.isWrite, hc] at haccess
  have hrequired := BankState.requiredType_access (h.awake cmd.place) haccess
  cases hs : (ch.bankStates cmd.place).state with
  | closed =>
    rw [if_pos hs] at hrequired
    refine .inr ⟨_, h.ready hbank (by simp [Config.Uses]) hrequired, ?_, .inl rfl⟩
    rintro ⟨hopen, -⟩
    rw [hs] at hopen
    cases hopen
  | «open» =>
    rw [if_neg (by simp [hs])] at hrequired
    by_cases hrow : cmd.addr.row = (ch.bankStates cmd.place).openRow
    · rw [if_pos hrow] at hrequired
      exact .inl ⟨⟨hs, hrow⟩, h.ready hbank huses hrequired⟩
    · rw [if_neg hrow] at hrequired
      exact .inr ⟨_, h.ready hbank (by simp [Config.Uses]) hrequired, fun hits => hrow hits.2,
        .inr ⟨rfl, rfl⟩⟩
  | sref => exact absurd hs (h.awake _)

end ChannelState

namespace CommandQueue
variable {cfg : Config} {ch : ChannelState} {clk : Nat}

/-- A row is kept open only for a command behind the one that needs another. -/
theorem arbitratePrecharge_kept {e : Command} {before rest : List Command} (hmiss : ¬ ch.Hits e)
    (hopen : (ch.bankStates e.place).state = .open)
    (hlater : before = [] ∨ ∃ e' ∈ e :: rest, ch.Hits e')
    (h : arbitratePrecharge ch before e rest = false) : ∃ e' ∈ rest, ch.Hits e' := by
  unfold arbitratePrecharge at h
  split at h
  · next hearlier =>
    have hne : before ≠ [] := by
      rintro rfl
      simp at hearlier
    obtain ⟨e', he', hits⟩ := hlater.resolve_left hne
    rcases List.mem_cons.mp he' with rfl | he'
    · exact absurd hits hmiss
    · exact ⟨e', he', hits⟩
  · obtain ⟨hpending, -⟩ := Bool.or_eq_false_iff.mp h
    rw [Bool.not_eq_false', List.any_eq_true] at hpending
    obtain ⟨e', he', hsame⟩ := hpending
    obtain ⟨hrow, hplace⟩ := of_decide_eq_true hsame
    have hits : ch.Hits e' := by
      unfold ChannelState.Hits
      rw [hplace]
      exact ⟨hopen, hrow⟩
    rcases List.mem_cons.mp he' with rfl | he'
    · exact absurd hits hmiss
    · exact ⟨e', he', hits⟩

/-- A queue that is not empty gives a command. Those that have been passed miss the open row of
their bank, and one that hits it comes behind them. -/
theorem getFirstReady_calm (h : ch.Calm cfg clk) {rank : Int} {l before : List Command}
    (haccess : ∀ e ∈ l, e.isReadWrite = true) (hrank : ∀ e ∈ before ++ l, e.addr.rank = rank)
    (hmissed : ∀ e ∈ before, ¬ ch.Hits e) (hne : l ≠ []) (hlater : before = [] ∨ ∃ e ∈ l, ch.Hits e) :
    ∃ r, getFirstReady cfg ch clk before l = .ok (some r) := by
  induction l generalizing before with
  | nil => exact absurd rfl hne
  | cons e rest ih =>
    rw [getFirstReady]
    rcases h.access (haccess e List.mem_cons_self) with ⟨hhits, hready⟩ | ⟨t, hready, hmiss, ht⟩
    · rw [hready, ok_bind]
      dsimp only
      have hpre : e.cmdType ≠ .precharge := by
        intro hpre
        have heaccess := haccess e List.mem_cons_self
        simp [Command.isReadWrite, Command.isRead, Command.isWrite, hpre] at heaccess
      have hdepends : hasRWDependency before e = false := by
        -- An earlier read of the same place would hit the row as well.
        by_contra hdep
        rw [Bool.not_eq_false, hasRWDependency, List.any_eq_true] at hdep
        obtain ⟨c, hc, hsame⟩ := hdep
        obtain ⟨-, hrow, -, hbank, hgroup⟩ := of_decide_eq_true hsame
        have hplace : c.place = e.place := by
          have hc' := hrank c (List.mem_append_left _ hc)
          have he' := hrank e (by simp)
          simp only [Command.place, Address.place, hbank, hgroup, hc', he']
        refine hmissed c hc ?_
        unfold ChannelState.Hits
        rw [hplace, hrow]
        exact hhits
      rw [if_neg (by simp [hpre]), if_neg (by simp [hdepends])]
      exact ⟨e, rfl⟩
    · rw [hready, ok_bind]
      dsimp only
      rcases ht with rfl | ⟨rfl, hopen⟩
      · rw [if_neg (by simp), if_neg (by simp [Command.isWrite])]
        exact ⟨_, rfl⟩
      · cases harbitrate : arbitratePrecharge ch before e rest with
        | true =>
          rw [if_neg (by simp), if_neg (by simp [Command.isWrite])]
          exact ⟨_, rfl⟩
        | false =>
          rw [if_pos (by simp)]
          have hhit : ∃ e' ∈ rest, ch.Hits e' := arbitratePrecharge_kept hmiss hopen hlater harbitrate
          obtain ⟨e', he', hits⟩ := hhit
          refine ih (fun e he => haccess e (List.mem_cons_of_mem _ he)) ?_ ?_ (List.ne_nil_of_mem he')
            (.inr ⟨e', he', hits⟩)
          · rw [List.append_assoc]
            exact hrank
          · intro c hc
            rcases List.mem_append.mp hc with hc | hc
            · exact hmissed c hc
            · rw [List.mem_singleton.mp hc]
              exact hmiss

/-! ### Turns -/

theorem nextQueue_queueIdx {q : CommandQueue} (hlow : 0 ≤ q.queueIdx)
    (hhigh : q.queueIdx < cfg.numQueues) :
    (q.nextQueue cfg).queueIdx = (q.queueIdx + 1) % cfg.numQueues := by
  show (if q.queueIdx + 1 = cfg.numQueues then 0 else q.queueIdx + 1) = _
  split
  · next hlast => rw [hlast, Int.emod_self]
  · exact (Int.emod_eq_of_lt (by omega) (by omega)).symm

/-- A round stays within the queues. -/
theorem issueFrom_queueIdx {turns : Nat} {q q' : CommandQueue} {answer : Option Command}
    (h : issueFrom cfg ch turns q = .ok (answer, q')) (hlow : 0 ≤ q.queueIdx)
    (hhigh : q.queueIdx < cfg.numQueues) :
    0 ≤ q'.queueIdx ∧ q'.queueIdx < cfg.numQueues := by
  induction turns generalizing q with
  | zero =>
    cases h
    exact ⟨hlow, hhigh⟩
  | succ turns ih =>
    have hnext := nextQueue_queueIdx hlow hhigh
    have hlow' : 0 ≤ (q.nextQueue cfg).queueIdx := hnext ▸ Int.emod_nonneg _ (by omega)
    have hhigh' : (q.nextQueue cfg).queueIdx < cfg.numQueues := hnext ▸ Int.emod_lt_of_pos _ (by omega)
    rw [issueFrom] at h
    split at h
    · exact ih h hlow' hhigh'
    · obtain ⟨first, -, h⟩ := ok_of_bind h
      cases first with
      | none => exact ih h hlow' hhigh'
      | some cmd =>
        dsimp only at h
        split at h
        · obtain ⟨q₁, herase, h⟩ := ok_of_bind h
          cases h
          rw [Controller.eraseRWCommand_eq herase]
          exact ⟨hlow', hhigh'⟩
        · cases h
          exact ⟨hlow', hhigh'⟩

/-- A round without a command has asked every queue whose turn has come, or has passed it over. -/
theorem issueFrom_none {turns : Nat} {q q' : CommandQueue}
    (h : issueFrom cfg ch turns q = .ok (none, q')) (hlow : 0 ≤ q.queueIdx)
    (hhigh : q.queueIdx < cfg.numQueues) {d : Nat} (hd : d < turns) {i : Int}
    (hi : i = (q.queueIdx + 1 + d) % cfg.numQueues) :
    (q.isInRef = true ∧ i ∈ q.refQIndices) ∨
    getFirstReady cfg ch q.clk [] (q.queues i) = .ok none := by
  induction turns generalizing q d with
  | zero => omega
  | succ turns ih =>
    have hnext := nextQueue_queueIdx hlow hhigh
    have hlow' : 0 ≤ (q.nextQueue cfg).queueIdx := hnext ▸ Int.emod_nonneg _ (by omega)
    have hhigh' : (q.nextQueue cfg).queueIdx < cfg.numQueues := hnext ▸ Int.emod_lt_of_pos _ (by omega)
    have hlater : issueFrom cfg ch turns (q.nextQueue cfg) = .ok (none, q') → ∀ d', d = d' + 1 →
        (q.isInRef = true ∧ i ∈ q.refQIndices) ∨
        getFirstReady cfg ch q.clk [] (q.queues i) = .ok none := by
      rintro hrest d' rfl
      refine ih (q := q.nextQueue cfg) hrest hlow' hhigh' (d := d') (by omega) ?_
      have hsum : q.queueIdx + 1 + (d' + 1 : Nat) = q.queueIdx + 1 + (1 + d') := by omega
      rw [hi, hnext, hsum, add_assoc (_ % _) 1, Int.emod_add_emod]
    have hfirst : d = 0 → i = (q.nextQueue cfg).queueIdx := by
      rintro rfl
      rw [hi, hnext]
      simp
    rw [issueFrom] at h
    split at h
    · next hmarked =>
      cases d with
      | zero =>
        rw [hfirst rfl]
        exact .inl hmarked
      | succ d' => exact hlater h d' rfl
    · obtain ⟨first, hscan, h⟩ := ok_of_bind h
      cases first with
      | none =>
        cases d with
        | zero =>
          rw [hfirst rfl]
          exact .inr hscan
        | succ d' => exact hlater h d' rfl
      | some cmd =>
        dsimp only at h
        split at h
        · obtain ⟨q₁, herase, h⟩ := ok_of_bind h
          cases h
        · cases h

/-- Every queue has its turn in a round. -/
theorem getCommandToIssue_none {q q' : CommandQueue} (h : q.getCommandToIssue cfg ch = .ok (none, q'))
    (hlow : 0 ≤ q.queueIdx) (hhigh : q.queueIdx < cfg.numQueues) {i : Int} (hi : 0 ≤ i)
    (hi' : i < cfg.numQueues) :
    (q.isInRef = true ∧ i ∈ q.refQIndices) ∨
    getFirstReady cfg ch q.clk [] (q.queues i) = .ok none := by
  have hdistance : 0 ≤ (i - q.queueIdx - 1) % cfg.numQueues := Int.emod_nonneg _ (by omega)
  have hdistance' : (i - q.queueIdx - 1) % cfg.numQueues < cfg.numQueues :=
    Int.emod_lt_of_pos _ (by omega)
  refine issueFrom_none h hlow hhigh (d := ((i - q.queueIdx - 1) % cfg.numQueues).toNat) (by omega) ?_
  rw [Int.toNat_of_nonneg hdistance, Int.add_emod_emod]
  rw [show q.queueIdx + 1 + (i - q.queueIdx - 1) = i by omega, Int.emod_eq_of_lt hi hi']

end CommandQueue

namespace ChannelState
variable {cfg : Config} {ch ch' : ChannelState} {cmd : Command} {clk bound limit : Nat}

/-- A cycle by which all times are past. -/
structure Limits (cfg : Config) (ch : ChannelState) (limit : Nat) : Prop where
  due : ∀ b t, cfg.Uses t → (ch.bankStates b).cmdTiming t ≤ limit
  fourAw : ∀ rank, ∀ stop ∈ ch.fourAw rank, stop ≤ limit
  thirtyTwoAw : ∀ rank, ∀ stop ∈ ch.thirtyTwoAw rank, stop ≤ limit

theorem Limits.mono {limit' : Nat} (h : Limits cfg ch limit) (hle : limit ≤ limit') :
    Limits cfg ch limit' where
  due b t huses := (h.due b t huses).trans hle
  fourAw rank stop hstop := (h.fourAw rank stop hstop).trans hle
  thirtyTwoAw rank stop hstop := (h.thirtyTwoAw rank stop hstop).trans hle

theorem Limits.calm (h : Limits cfg ch limit) (hclk : limit ≤ clk)
    (hawake : ∀ b, (ch.bankStates b).state ≠ .sref) :
    Calm cfg ch clk := by
  refine ⟨fun b t huses => (h.due b t huses).trans hclk, ?_, hawake⟩
  intro rank
  have hfour : Lib.windowReady 4 (ch.fourAw rank) clk :=
    Lib.windowReady_of_le fun stop hstop => (h.fourAw rank stop hstop).trans hclk
  have hthirty : Lib.windowReady 32 (ch.thirtyTwoAw rank) clk :=
    Lib.windowReady_of_le fun stop hstop => (h.thirtyTwoAw rank stop hstop).trans hclk
  simp [activationWindowOk, hfour, hthirty]

theorem mem_update_slide {windows : Int → List Nat} {rank rank' : Int} {clk stop t limit : Nat}
    (h : ∀ rank, ∀ t ∈ windows rank, t ≤ limit) (hstop : stop ≤ limit)
    (ht : t ∈ Function.update windows rank (Lib.slide (windows rank) clk stop) rank') :
    t ≤ limit := by
  by_cases hrank : rank' = rank
  · subst hrank
    rw [Function.update_self] at ht
    exact (Lib.mem_slide ht).elim (h _ t) fun heq => heq ▸ hstop
  · rw [Function.update_of_ne hrank] at ht
    exact h rank' t ht

theorem Limits.issued {commands : Command → Prop} (hbounded : cfg.Bounded commands bound)
    (hcmd : commands cmd) (h : Limits cfg ch limit) (hlimit : clk + bound ≤ limit)
    (hissued : Issued cfg ch cmd clk ch') :
    Limits cfg ch' limit := by
  have hlater : ∀ {d : Int}, 0 ≤ d ∧ d ≤ (bound : Int) → later clk d ≤ limit := by
    rintro d ⟨hlow, hhigh⟩
    have hle : (later clk d : Int) ≤ clk + d := later_le hlow
    omega
  refine ⟨?_, ?_, ?_⟩
  · intro b t huses
    exact hissued.le_of (h.due b t huses) fun d hd => hlater (hbounded.delays cmd b t d hcmd huses hd)
  · intro rank stop hstop
    rw [hissued.fourAw] at hstop
    split at hstop
    · exact mem_update_slide h.fourAw (hlater hbounded.tFAW) hstop
    · exact h.fourAw rank stop hstop
  · intro rank stop hstop
    rw [hissued.thirtyTwoAw] at hstop
    split at hstop
    · next hact => exact mem_update_slide h.thirtyTwoAw (hlater (hbounded.t32AW hact.2)) hstop
    · exact h.thirtyTwoAw rank stop hstop

end ChannelState

namespace Controller
variable {cfg : Config} {c c' : Controller} {bound limit : Nat}

theorem limits_run (hplaces : cfg.Places) (hbounded : cfg.Bounded (fun _ => True) bound)
    {events : List Event}
    (h : run cfg {} events = .ok c) : c.channelState.Limits cfg (c.clk + bound) := by
  refine run_sends (I := fun c => c.channelState.Limits cfg (c.clk + bound)) hplaces ?_ ?_ h
    ⟨by simp, by simp, by simp⟩
  · intro c c' hq hI
    have hsame : c'.channelState.Limits cfg (c.clk + bound) := by
      refine ⟨?_, ?_, ?_⟩
      · rw [hq.bankStates]
        exact hI.due
      · rw [hq.fourAw]
        exact hI.fourAw
      · rw [hq.thirtyTwoAw]
        exact hI.thirtyTwoAw
    exact hsame.mono (Nat.add_le_add_right hq.clk bound)
  · intro c cmd c' hs hI
    rw [hs.clk]
    exact hI.issued hbounded trivial le_rfl hs.channel

/-! ### Waiting -/

/-- Nothing has been issued, and what waits still does. -/
structure Waits (c c' : Controller) : Prop where
  cmdTrace : c'.cmdTrace = c.cmdTrace
  bankStates : c'.channelState.bankStates = c.channelState.bankStates
  fourAw : c'.channelState.fourAw = c.channelState.fourAw
  thirtyTwoAw : c'.channelState.thirtyTwoAw = c.channelState.thirtyTwoAw
  refreshQ : c.channelState.refreshQ <+: c'.channelState.refreshQ
  queues : ∀ i, c.cmdQueue.queues i <+: c'.cmdQueue.queues i

theorem Waits.refl (c : Controller) : Waits c c :=
  ⟨rfl, rfl, rfl, rfl, List.prefix_rfl, fun _ => List.prefix_rfl⟩

theorem Waits.trans {c₁ c₂ c₃ : Controller} (h : Waits c₁ c₂) (h' : Waits c₂ c₃) : Waits c₁ c₃ where
  cmdTrace := h'.cmdTrace.trans h.cmdTrace
  bankStates := h'.bankStates.trans h.bankStates
  fourAw := h'.fourAw.trans h.fourAw
  thirtyTwoAw := h'.thirtyTwoAw.trans h.thirtyTwoAw
  refreshQ := h.refreshQ.trans h'.refreshQ
  queues i := (h.queues i).trans (h'.queues i)

theorem Beside.waits (h : Beside c c') : Waits c c' := by
  have hquiet := h.quiet
  refine ⟨h.cmdTrace, hquiet.bankStates, hquiet.fourAw, hquiet.thirtyTwoAw, ?_, fun i => ?_⟩
  · rw [h.channelState]
  · rw [h.cmdQueue]

theorem Waits.limits (h : Waits c c') (hlimits : c.channelState.Limits cfg limit) :
    c'.channelState.Limits cfg limit := by
  refine ⟨?_, ?_, ?_⟩
  · rw [h.bankStates]
    exact hlimits.due
  · rw [h.fourAw]
    exact hlimits.fourAw
  · rw [h.thirtyTwoAw]
    exact hlimits.thirtyTwoAw

/-- A command is issued, or everything waits. -/
theorem Move.issues_or_waits (hdual : cfg.enableHbmDualCmd = false) (h : Move cfg c c') :
    c.cmdTrace.length < c'.cmdTrace.length ∨ Waits c c' := by
  have hissued : ∀ {c₀ : Controller} {cmd : Command}, c₀.cmdTrace = c.cmdTrace →
      c₀.issueCommand cfg cmd = .ok c' → c.cmdTrace.length < c'.cmdTrace.length := by
    intro c₀ cmd htrace hissue
    rw [(issueCommand_issues hissue).frame, List.length_append, htrace]
    exact Nat.lt_succ_self _
  cases h with
  | refreshTick htick =>
    obtain ⟨new, hch, -⟩ := Refresh.clockTick_refreshQ htick
    refine .inr ⟨rfl, ?_, ?_, ?_, ?_, fun _ => List.prefix_rfl⟩
    · rw [hch]
    · rw [hch]
    · rw [hch]
    · rw [hch]
      exact List.prefix_append _ _
  | turn hturned => exact .inr ⟨rfl, rfl, rfl, rfl, List.prefix_rfl, fun i => by rw [hturned.queues]⟩
  | refresh front ready hissue => exact .inl (hissued rfl hissue)
  | row offers access hissue => exact .inl (hissued rfl hissue)
  | @access i cmd entry q _ offers access erase hissue =>
    have htrace : ({c with cmdQueue := q} : Controller).cmdTrace = c.cmdTrace := rfl
    exact .inl (hissued htrace hissue)
  | drop dual offers access erase =>
    rw [hdual] at dual
    cases dual
  | selfRefresh enabled asks ready hissue => exact .inl (hissued rfl hissue)
  | idle => exact .inr ⟨rfl, rfl, rfl, rfl, List.prefix_rfl, fun _ => List.prefix_rfl⟩
  | schedule =>
    have hscheduled := scheduleTransaction_scheduled cfg c
    have hquiet := hscheduled.quiet
    refine .inr ⟨hquiet.cmdTrace, hquiet.bankStates, hquiet.fourAw, hquiet.thirtyTwoAw, ?_,
      hscheduled.queues_prefix⟩
    rw [hscheduled.frame.channelState]
  | clock => exact .inr ⟨rfl, rfl, rfl, rfl, List.prefix_rfl, fun _ => List.prefix_rfl⟩

theorem Moves.issues_or_waits (hdual : cfg.enableHbmDualCmd = false) (h : Moves cfg c c') :
    c.cmdTrace.length < c'.cmdTrace.length ∨ Waits c c' := by
  induction h with
  | refl => exact .inr (.refl c)
  | tail _ hlast ih =>
    rcases ih with hless | hwaits
    · rcases hlast.issues_or_waits hdual with hless' | hwaits'
      · exact .inl (hless.trans hless')
      · rw [hwaits'.cmdTrace]
        exact .inl hless
    · rcases hlast.issues_or_waits hdual with hless' | hwaits'
      · rw [hwaits.cmdTrace] at hless'
        exact .inl hless'
      · exact .inr (hwaits.trans hwaits')

/-! ### A cycle -/

/-- What holds between the steps: the turn is at some queue, and marks belong to a refresh that
waits. -/
structure Steady (cfg : Config) (c : Controller) : Prop where
  sound : Sound cfg c
  schedule : OnSchedule cfg c
  marked : Marked cfg c
  low : 0 ≤ c.cmdQueue.queueIdx
  high : c.cmdQueue.queueIdx < cfg.numQueues

theorem numQueues_pos (h : cfg.Counts) : (0 : Int) < cfg.numQueues := by
  have hbanks := Int.mul_pos (Config.banks_pos h) h.ranks
  have hranks := h.ranks
  unfold Config.numQueues
  split <;> omega

theorem steady_start (h : cfg.Counts) : Steady cfg {} :=
  ⟨sound_start cfg, onSchedule_start cfg, by simp [Marked], le_rfl, numQueues_pos h⟩

theorem nextCommand_queueIdx {answer : Option Command} {q : CommandQueue}
    (h : c.nextCommand cfg = .ok (answer, q)) (hlow : 0 ≤ c.cmdQueue.queueIdx)
    (hhigh : c.cmdQueue.queueIdx < cfg.numQueues) : 0 ≤ q.queueIdx ∧ q.queueIdx < cfg.numQueues := by
  unfold Controller.nextCommand at h
  split at h
  · exact CommandQueue.issueFrom_queueIdx h hlow hhigh
  · next ref rest hfront =>
    obtain ⟨⟨first, q₁⟩, hfinish, h⟩ := ok_of_bind h
    have hsame : q₁.queueIdx = c.cmdQueue.queueIdx := by
      obtain ⟨cmd, -, hfinish⟩ := ok_of_bind hfinish
      rw [← (Prod.mk.inj (Except.ok.inj hfinish)).2]
      split <;> split <;> rfl
    rw [← hsame] at hlow hhigh
    cases first with
    | some cmd =>
      cases h
      exact ⟨hlow, hhigh⟩
    | none => exact CommandQueue.issueFrom_queueIdx h hlow hhigh

theorem Steady.tick (h : Steady cfg c) (hplain : cfg.Plain) (hcounts : cfg.Counts)
    (htick : c.clockTick cfg = .ok c') : Steady cfg c' := by
  have hsound := h.sound.moves hplain (clockTick_moves htick)
  have hmarked := h.marked.tick hplain h.sound.lineup.tidy htick
  obtain ⟨r, ch, c₂, -, hturn, hended⟩ := clockTick_turn hplain htick
  have hrange : 0 ≤ c₂.cmdQueue.queueIdx ∧ c₂.cmdQueue.queueIdx < cfg.numQueues := by
    cases hturn with
    | nothing hanswer => exact nextCommand_queueIdx hanswer h.low h.high
    | command hanswer issues =>
      rw [issues.frame]
      exact nextCommand_queueIdx hanswer h.low h.high
  rw [← hended.queueIdx] at hrange
  exact ⟨hsound, h.schedule.moves hcounts hplain.selfRefresh (clockTick_moves htick), hmarked,
    hrange.1, hrange.2⟩

theorem Steady.beside (h : Steady cfg c) (hsound : Sound cfg c') (hbeside : Beside c c') :
    Steady cfg c' where
  sound := hsound
  schedule := h.schedule.of_eq hsound.lineup.tidy (by rw [hbeside.channelState])
    (by rw [hbeside.channelState])
    hbeside.refresh hbeside.cmdTrace
  marked := by
    unfold Marked
    rw [hbeside.cmdQueue, hbeside.channelState]
    exact h.marked
  low := by
    rw [hbeside.cmdQueue]
    exact h.low
  high := by
    rw [hbeside.cmdQueue]
    exact h.high

/-- A step keeps this, and issues a command or lets time pass. -/
theorem Steady.step {e : Event} (h : Steady cfg c) (hplain : cfg.Plain) (hcounts : cfg.Counts)
    (hstep : c.step cfg e = .ok c') :
    Steady cfg c' ∧ (c.cmdTrace.length < c'.cmdTrace.length ∨
      Waits c c' ∧ c'.clk = c.clk + [e].count .tick) := by
  obtain ⟨c₁, hc₁, hsound⟩ := h.sound.step (e := e) hplain
  rw [hstep] at hc₁
  obtain rfl := Except.ok.inj hc₁
  by_cases htick : e = .tick
  · subst htick
    refine ⟨h.tick hplain hcounts hstep, ?_⟩
    rcases Moves.issues_or_waits hplain.dual (clockTick_moves hstep) with hless | hwaits
    · exact .inl hless
    · exact .inr ⟨hwaits, (clockTick_clk hstep hplain.selfRefresh).1⟩
  · have hbeside := step_beside htick hstep
    exact ⟨h.beside hsound hbeside, .inr ⟨hbeside.waits, (step_clk hplain.selfRefresh hstep).1⟩⟩

/-- A refresh or a command waits. -/
def Working (c : Controller) : Prop := c.channelState.refreshQ ≠ [] ∨ ∃ i, c.cmdQueue.queues i ≠ []

theorem Working.waits (h : Working c) (hwaits : Waits c c') : Working c' := by
  rcases h with hrefresh | ⟨i, hi⟩
  · exact .inl fun hnil => hrefresh (List.prefix_nil.mp (hnil ▸ hwaits.refreshQ))
  · exact .inr ⟨i, fun hnil => hi (List.prefix_nil.mp (hnil ▸ hwaits.queues i))⟩

theorem OnSchedule.uses (h : OnSchedule cfg c) {ref : Command}
    (href : ref ∈ c.channelState.refreshQ) :
    cfg.Uses ref.cmdType := by
  have hmem : ref ∈ (List.range (cfg.dueBy c.refresh.clk)).map cfg.refreshAt := by
    rw [← h.order]
    exact List.mem_append_right _ href
  obtain ⟨k, -, rfl⟩ := List.mem_map.mp hmem
  unfold Config.Uses Config.refreshAt
  cases cfg.refreshPolicy <;> simp

/-- A queue with an entry has its turn in every round. -/
theorem queue_range (hcounts : cfg.Counts) (hplaces : cfg.Places) (hranks : cfg.RanksExist)
    (htidy : Tidy cfg c) {i : Int} (hi : c.cmdQueue.queues i ≠ []) : 0 ≤ i ∧ i < cfg.numQueues := by
  obtain ⟨e, he⟩ := List.exists_mem_of_ne_nil _ hi
  obtain ⟨t, -, rfl⟩ := htidy.entries i e he
  exact Config.queueIndex_range hcounts (hplaces t.addr) (Int.natCast_nonneg _) (hranks t.addr)

/-- The entries of a queue are for one rank. -/
theorem entry_rank (hcounts : cfg.Counts) (hplaces : cfg.Places) (htidy : Tidy cfg c) {i : Int}
    {e : Command}
    (he : e ∈ c.cmdQueue.queues i) : e.addr.rank = cfg.rankOfQueue i := by
  obtain ⟨t, rfl, rfl⟩ := htidy.entries i e he
  exact (Config.rankOfQueue_queueIndex hcounts (hplaces t.addr)).symm

/-- When all times are past, a cycle with something to do issues a command. -/
theorem Steady.issues (h : Steady cfg c) (hplain : cfg.Plain) (hcounts : cfg.Counts)
    (hranks : cfg.RanksExist) (hlimits : c.channelState.Limits cfg limit) (hclk : limit ≤ c.clk)
    (hwork : Working c) (htick : c.clockTick cfg = .ok c') :
    c.cmdTrace.length < c'.cmdTrace.length := by
  have htidy := h.sound.lineup.tidy
  obtain ⟨r, ch, c₂, hrefresh, hturn, hended⟩ := clockTick_turn hplain htick
  obtain ⟨new, rfl, -⟩ := Refresh.clockTick_refreshQ hrefresh
  have htidy₁ := htidy.move (.refreshTick hrefresh)
  have hschedule := h.schedule.move hcounts hplain.selfRefresh (.refreshTick hrefresh)
  have hcalm :
      ChannelState.Calm cfg {c.channelState with refreshQ := c.channelState.refreshQ ++ new} c.clk :=
    ChannelState.Limits.calm ⟨hlimits.due, hlimits.fourAw, hlimits.thirtyTwoAw⟩ hclk h.sound.awake
  rw [hended.cmdTrace]
  cases hturn with
  | command hanswer issues =>
    rw [issues.frame, List.length_append]
    exact Nat.lt_succ_self _
  | nothing hanswer =>
    exfalso
    unfold Controller.nextCommand at hanswer
    dsimp only at hanswer
    split at hanswer
    · next hnone =>
      obtain ⟨hold, -⟩ := List.append_eq_nil_iff.mp hnone
      obtain ⟨i, hi⟩ := hwork.resolve_left (by simp [hold])
      obtain ⟨hlow, hhigh⟩ := queue_range hcounts hplain.places hranks htidy hi
      rcases CommandQueue.getCommandToIssue_none hanswer h.low h.high hlow hhigh with ⟨hin, -⟩ | hscan
      · obtain ⟨ref, rest, hfront, -⟩ := h.marked hin
        rw [hold] at hfront
        cases hfront
      · rw [htidy.clk] at hscan
        have hgives : ∃ cmd, CommandQueue.getFirstReady cfg
            {c.channelState with refreshQ := c.channelState.refreshQ ++ new} c.clk []
              (c.cmdQueue.queues i) = .ok (some cmd) :=
          CommandQueue.getFirstReady_calm hcalm (fun e he => htidy.entry_isReadWrite he)
            (fun e he => entry_rank hcounts hplain.places htidy he) (by simp) hi (.inl rfl)
        obtain ⟨cmd, hcmd⟩ := hgives
        rw [hcmd] at hscan
        cases hscan
    · next ref rest hfront =>
      obtain ⟨⟨first, q₁⟩, hfinish, hanswer⟩ := ok_of_bind hanswer
      obtain ⟨-, hready⟩ := finishRefresh_turned hfinish
      rw [htidy.clk] at hready
      have href : ref.isRefresh = true := htidy₁.refreshes ref (by rw [hfront]; exact List.mem_cons_self)
      have huses : cfg.Uses ref.cmdType := hschedule.uses (by rw [hfront]; exact List.mem_cons_self)
      obtain ⟨cmd, hcmd⟩ := hcalm.refresh hcounts href huses
      rw [hcmd] at hready
      obtain rfl := Except.ok.inj hready
      cases hanswer

/-! ### Runs -/

theorem Steady.run (h : Steady cfg c) (hplain : cfg.Plain) (hcounts : cfg.Counts)
    {events : List Event} (hrun : c.run cfg events = .ok c') :
    Steady cfg c' ∧ c.cmdTrace.length ≤ c'.cmdTrace.length := by
  induction events generalizing c with
  | nil =>
    cases hrun
    exact ⟨h, le_rfl⟩
  | cons e rest ih =>
    obtain ⟨c₁, hstep, hrest⟩ := ok_of_bind hrun
    obtain ⟨hsteady, hgrows⟩ := h.step hplain hcounts hstep
    obtain ⟨hsteady', hle⟩ := ih hsteady hrest
    refine ⟨hsteady', le_trans ?_ hle⟩
    rcases hgrows with hless | ⟨hwaits, -⟩
    · exact hless.le
    · rw [hwaits.cmdTrace]

/-- In a run that goes beyond the cycle by which all times are past, a command is issued. -/
theorem Steady.run_issues (h : Steady cfg c) (hplain : cfg.Plain) (hcounts : cfg.Counts)
    (hranks : cfg.RanksExist) (hlimits : c.channelState.Limits cfg limit) (hwork : Working c)
    {events : List Event}
    (hrun : c.run cfg events = .ok c') (hsome : 0 < events.count .tick)
    (hlong : limit < c.clk + events.count .tick) :
    c.cmdTrace.length < c'.cmdTrace.length := by
  induction events generalizing c with
  | nil => simp at hsome
  | cons e rest ih =>
    obtain ⟨c₁, hstep, hrest⟩ := ok_of_bind hrun
    obtain ⟨hsteady, hgrows⟩ := h.step hplain hcounts hstep
    have hle := (hsteady.run hplain hcounts hrest).2
    rcases hgrows with hless | ⟨hwaits, hclk⟩
    · exact hless.trans_le hle
    · rw [List.count_cons] at hsome hlong
      rw [List.count_singleton] at hclk
      by_cases htick : e = .tick
      · subst htick
        by_cases hpast : limit ≤ c.clk
        · exact (h.issues hplain hcounts hranks hlimits hpast hwork hstep).trans_le hle
        · rw [← hwaits.cmdTrace]
          simp only [beq_self_eq_true, if_true] at hclk hlong
          exact ih hsteady (hwaits.limits hlimits) (hwork.waits hwaits) hrest (by omega) (by omega)
      · rw [← hwaits.cmdTrace]
        simp only [beq_iff_eq, htick, if_false, Nat.add_zero] at hclk hsome hlong
        exact ih hsteady (hwaits.limits hlimits) (hwork.waits hwaits) hrest hsome (by omega)

/-- **A channel does not idle**: while a refresh or a command waits, a command is issued within as
many cycles as the tables ask for at most, whatever is requested meanwhile. -/
theorem issues_within (hplain : cfg.Plain) (hcounts : cfg.Counts) (hranks : cfg.RanksExist)
    (hbounded : cfg.Bounded (fun _ => True) bound) {before events : List Event}
    (h : run cfg {} before = .ok c) (hwork : Working c) (hrun : c.run cfg events = .ok c')
    (hticks : bound < events.count .tick) :
    c.cmdTrace.length < c'.cmdTrace.length := by
  have hsteady := ((steady_start hcounts).run hplain hcounts h).1
  exact hsteady.run_issues hplain hcounts hranks (limits_run hplain.places hbounded h) hwork hrun
    (by omega) (by omega)

theorem lpddr5Ch4_bounded : lpddr5Ch4.Bounded (fun _ => True) 800 := by
  have htables : ∀ t, ∀ e ∈ lpddr5Ch4.tables t, e.1 ≠ .refreshBank → 0 ≤ e.2 ∧ e.2 ≤ 800 := by
    intro t
    cases t <;> decide
  refine ⟨?_, by decide, by decide⟩
  intro cmd b t d _ huses hd
  refine htables cmd.cmdType (t, d) (Config.delays_subset cmd b hd) ?_
  rintro rfl
  exact absurd (huses rfl) (by decide)

theorem lpddr5Ch4_ranksExist : lpddr5Ch4.RanksExist := by
  intro a
  have hrank : lpddr5Ch4.mapping.field a .ra < 2 ^ 0 := lpddr5Ch4.mapping.field_lt a .ra
  show (lpddr5Ch4.mapping.field a .ra : Int) < 1
  omega

theorem issues_within_lpddr5 : ∃ c c', run lpddr5Ch4 {} [.add 0 false, .tick] = .ok c ∧
    c.run lpddr5Ch4 (List.replicate 801 .tick) = .ok c' ∧ c.cmdTrace.length < c'.cmdTrace.length := by
  obtain ⟨c, hrun, hwork⟩ : ∃ c, run lpddr5Ch4 {} [.add 0 false, .tick] = .ok c ∧ Working c :=
    ⟨_, rfl, .inr ⟨0, by decide⟩⟩
  obtain ⟨c', hrun', -⟩ := (sound_run lpddr5Ch4_plain hrun).run lpddr5Ch4_plain (List.replicate 801 .tick)
  refine ⟨c, c', hrun, hrun', ?_⟩
  refine issues_within lpddr5Ch4_plain lpddr5Ch4_counts lpddr5Ch4_ranksExist lpddr5Ch4_bounded hrun
    hwork hrun' ?_
  rw [List.count_replicate_self]
  decide

end Controller

end Hsim.Dramsim3
