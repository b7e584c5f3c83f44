import Hsim.Dramsim3.Queues

/-! What a move sends over the channel.

Nothing, or one command that is ready in every bank it acts on. So what such commands
keep, every run keeps (`run_sends`). The banks of a rank refresh themselves together, and
that is one of these things. -/
namespace Hsim.Dramsim3

namespace Controller
variable {cfg : Config} {c c' : Controller} {cmd : Command}

/-- A move that sends nothing. -/
structure Quiet (c c' : Controller) : Prop where
  clk : c.clk ≤ c'.clk
  cmdTrace : c'.cmdTrace = c.cmdTrace
  bankStates : c'.channelState.bankStates = c.channelState.bankStates
  fourAw : c'.channelState.fourAw = c.channelState.fourAw
  thirtyTwoAw : c'.channelState.thirtyTwoAw = c.channelState.thirtyTwoAw

/-- A move that sends a command. -/
structure Sends (cfg : Config) (c : Controller) (cmd : Command) (c' : Controller) : Prop where
  ready : ChannelState.Ready cfg c.channelState cmd c.clk
  channel : ChannelState.Issued cfg c.channelState cmd c.clk c'.channelState
  clk : c'.clk = c.clk
  cmdTrace : c'.cmdTrace = c.cmdTrace ++ [(c.clk, cmd)]
  sleep : cmd.cmdType = .srefEnter → cfg.enableSelfRefresh = true

theorem Beside.quiet (h : Beside c c') : Quiet c c' :=
  ⟨h.clk.ge, h.cmdTrace, by rw [h.channelState], by rw [h.channelState], by rw [h.channelState]⟩

theorem Scheduled.quiet (h : Scheduled cfg c c') : Quiet c c' := by
  have hframe := h.frame
  exact ⟨hframe.clk.ge, hframe.cmdTrace, by rw [hframe.channelState], by rw [hframe.channelState],
    by rw [hframe.channelState]⟩

/-- An access of a queue lies in a bank of the channel. -/
theorem place_of_entry (hplaces : cfg.Places) (htidy : Tidy cfg c) {i : Int} {entry : Command}
    (hentry : entry ∈ c.cmdQueue.queues i) : entry.place ∈ cfg.banksOf entry.addr.rank := by
  obtain ⟨t, rfl, -⟩ := htidy.entries i entry hentry
  exact hplaces t.addr

/-- A move sends nothing, or a command that is ready. -/
theorem quiet_or_sends (hplaces : cfg.Places) (htidy : Tidy cfg c)
    (htogether : ChannelState.Together cfg c.channelState) (hmove : Move cfg c c') :
    Quiet c c' ∨ ∃ cmd, Sends cfg c cmd c' := by
  have hsends : ∀ {c₀ : Controller} {ask cmd : Command}, c₀.channelState = c.channelState →
      c₀.clk = c.clk → c₀.cmdTrace = c.cmdTrace →
      c.channelState.getReadyCommand cfg ask c.clk = .ok (some cmd) →
      (ask.isReadWrite = true → ask.place ∈ cfg.banksOf ask.addr.rank) →
      (ask.cmdType = .srefEnter → cfg.enableSelfRefresh = true) → c₀.issueCommand cfg cmd = .ok c' →
      ∃ cmd, Sends cfg c cmd c' := by
    intro c₀ ask cmd hchannel hclk htrace hready hplace hsleep hissue
    have hissues := issueCommand_issues hissue
    have hframe := hissues.frame
    refine ⟨cmd, ChannelState.getReadyCommand_ready htogether hplace hready, ?_, ?_, ?_, ?_⟩
    · rw [← hchannel, ← hclk]
      exact hissues.channel
    · rw [hframe]
      exact hclk
    · rw [hframe, htrace, hclk]
    · intro henter
      by_contra hdisabled
      exact cmdType_ne_srefEnter hready (fun hask => hdisabled (hsleep hask)) henter
  -- A command of a queue is ready for its entry, which lies in the channel.
  have hoffers : ∀ (c₀ : Controller) {i : Int} {entry cmd : Command}, c₀.channelState = c.channelState →
      c₀.clk = c.clk → c₀.cmdTrace = c.cmdTrace →
      CommandQueue.Offers cfg c.channelState c.cmdQueue.clk (c.cmdQueue.queues i) cmd entry →
      c₀.issueCommand cfg cmd = .ok c' → ∃ cmd, Sends cfg c cmd c' := by
    intro c₀ i entry cmd hchannel hclk htrace hoffers hissue
    have hentry := Offers_mem hoffers
    have hawake := srefEnter_of_isReadWrite (htidy.entry_isReadWrite hentry)
    exact hsends hchannel hclk htrace (htidy.clk ▸ hoffers.ready)
      (fun _ => place_of_entry hplaces htidy hentry) (absurd · hawake) hissue
  cases hmove with
  | @refreshTick r ch htick =>
    obtain ⟨new, hch, -⟩ := Refresh.clockTick_refreshQ htick
    exact .inl ⟨le_rfl, rfl, by rw [hch], by rw [hch], by rw [hch]⟩
  | turn hturned => exact .inl ⟨le_rfl, rfl, rfl, rfl, rfl⟩
  | @refresh ref cmd rest _ front ready hissue =>
    have href := htidy.refreshes ref (by simp [front])
    have hawake := srefEnter_of_isRefresh href
    exact .inr (hsends rfl rfl rfl (htidy.clk ▸ ready) (by simp [isReadWrite_of_isRefresh href])
      (absurd · hawake) hissue)
  | row offers access hissue => exact .inr (hoffers c rfl rfl rfl offers hissue)
  | @access i _ entry q _ offers access erase hissue =>
    exact .inr (hoffers {c with cmdQueue := q} rfl rfl rfl offers hissue)
  | drop dual offers access erase => exact .inl ⟨le_rfl, rfl, rfl, rfl, rfl⟩
  | selfRefresh enabled asks ready hissue =>
    have hask := (selfRefreshCommand_isRankCmd asks).2
    exact .inr (hsends rfl rfl rfl ready (by simp [hask]) (fun _ => enabled) hissue)
  | idle => exact .inl ⟨le_rfl, rfl, rfl, rfl, rfl⟩
  | schedule => exact .inl (scheduleTransaction_scheduled cfg c).quiet
  | clock => exact .inl ⟨Nat.le_succ _, rfl, rfl, rfl, rfl⟩

end Controller

/-! ### Ranks that refresh themselves -/

namespace ChannelState
variable {cfg : Config} {ch ch' : ChannelState} {cmd : Command} {clk : Nat} {b b' : Bank} {rank : Int}

/-- A command to one bank of a rank that refreshes itself wakes the whole rank. -/
theorem isRankCmd_of_sref (hadmits : (ch.bankStates b).Admits cmd)
    (hstate : (ch.bankStates b).state = .sref) :
    cmd.isRankCmd = true := by
  unfold BankState.Admits at hadmits
  rw [hstate] at hadmits
  cases hc : cmd.cmdType <;> simp [hc] at hadmits
  simp [Command.isRankCmd, hc]

theorem mem_targets_iff (hrank : cmd.isRankCmd = true) (hb : b ∈ cfg.banksOf rank)
    (hb' : b' ∈ cfg.banksOf rank) :
    b ∈ cfg.targets cmd ↔ b' ∈ cfg.targets cmd := by
  rw [Config.targets, if_pos hrank]
  simp only [Config.mem_banksOf] at hb hb' ⊢
  constructor
  · rintro ⟨h, -⟩
    exact ⟨by rw [hb'.1, ← hb.1, h], hb'.2⟩
  · rintro ⟨h, -⟩
    exact ⟨by rw [hb.1, ← hb'.1, h], hb.2⟩

/-- No table but that of going to sleep says when a rank may wake. -/
theorem srefExit_not_mem_delays (h : cmd.cmdType ≠ .srefEnter) :
    CommandType.srefExit ∉ (cfg.delays cmd b).map Prod.fst := by
  unfold Config.delays
  cases hc : cmd.cmdType <;> simp only [hc, ne_eq, not_true_eq_false] at h <;>
    simp only [Command.isRankCmd, hc] <;> (repeat' split) <;>
    simp [Config.sameRank, Config.sameBank, Config.otherBanksSameBankgroup,
      Config.otherBankgroupsSameRank, Config.otherRanks, Config.columns, Config.closed,
      Config.prechargeGap]

theorem Issued.state_of_not_mem (h : Issued cfg ch cmd clk ch') (hb : b ∉ cfg.targets cmd) :
    (ch'.bankStates b).state = (ch.bankStates b).state := by
  rw [h.other b hb, BankState.updateTimings_state]

theorem Issued.state_of_mem (h : Issued cfg ch cmd clk ch') (hb : b ∈ cfg.targets cmd) :
    (ch'.bankStates b).state = .sref ↔ cmd.cmdType = .srefEnter := by
  obtain ⟨s, hs, heq⟩ := h.target b hb
  rw [heq, BankState.updateTimings_state]
  exact BankState.updateState_sref hs

theorem Together.issued (h : Together cfg ch) (hready : Ready cfg ch cmd clk)
    (hissued : Issued cfg ch cmd clk ch') :
    Together cfg ch' where
  sref := by
    intro rank b hb b' hb' hstate
    by_cases hmem : b ∈ cfg.targets cmd
    · have henter := (hissued.state_of_mem hmem).mp hstate
      have hrank : cmd.isRankCmd = true := by simp [Command.isRankCmd, henter]
      exact (hissued.state_of_mem ((mem_targets_iff hrank hb hb').mp hmem)).mpr henter
    · rw [hissued.state_of_not_mem hmem] at hstate
      have hstate' := h.sref rank b hb b' hb' hstate
      by_cases hmem' : b' ∈ cfg.targets cmd
      · have hrank := isRankCmd_of_sref (hready.admits b' hmem') hstate'
        exact absurd ((mem_targets_iff hrank hb hb').mpr hmem') hmem
      · rwa [hissued.state_of_not_mem hmem']
  exit := by
    intro rank b hb b' hb'
    have hold := h.exit rank b hb b' hb'
    obtain ⟨s, hs, heq⟩ := hissued.bank b
    obtain ⟨s', hs', heq'⟩ := hissued.bank b'
    rw [heq, heq']
    by_cases henter : cmd.cmdType = .srefEnter
    · have hrank : cmd.isRankCmd = true := by simp [Command.isRankCmd, henter]
      have hsame : cfg.delays cmd b = cfg.delays cmd b' := by
        have hmem := mem_targets_iff hrank hb hb'
        rw [Config.targets, if_pos hrank] at hmem
        simp only [Config.delays, hrank, if_true, hmem]
      rw [hsame]
      exact BankState.updateTimings_congr _ clk (by rw [hs, hs', hold])
    · rw [BankState.updateTimings_of_not_mem s clk (srefExit_not_mem_delays henter),
        BankState.updateTimings_of_not_mem s' clk (srefExit_not_mem_delays henter), hs, hs', hold]

end ChannelState

namespace Controller
variable {cfg : Config} {c c' : Controller}

/-- **What the commands keep, a run keeps.** -/
theorem run_sends {I : Controller → Prop} (hplaces : cfg.Places)
    (hquiet : ∀ c c', Quiet c c' → I c → I c') (hsends : ∀ c cmd c', Sends cfg c cmd c' → I c → I c')
    {events : List Event} (h : run cfg {} events = .ok c) (hstart : I {}) : I c := by
  have hinvariant : Tidy cfg c ∧ ChannelState.Together cfg c.channelState ∧ I c := by
    refine run_invariant_beside (I := fun c => Tidy cfg c ∧
      ChannelState.Together cfg c.channelState ∧ I c)
      ?_ ?_ h ⟨tidy_start cfg, ⟨by simp, by simp⟩, hstart⟩
    · rintro c c' hmove ⟨htidy, htogether, hI⟩
      refine ⟨htidy.move hmove, ?_⟩
      rcases quiet_or_sends hplaces htidy htogether hmove with hq | ⟨cmd, hs⟩
      · refine ⟨⟨?_, ?_⟩, hquiet c c' hq hI⟩
        · rw [hq.bankStates]
          exact htogether.sref
        · rw [hq.bankStates]
          exact htogether.exit
      · exact ⟨htogether.issued hs.ready hs.channel, hsends c cmd c' hs hI⟩
    · rintro c c' hbeside ⟨htidy, htogether, hI⟩
      exact ⟨htidy.beside hbeside, hbeside.channelState ▸ htogether, hquiet c c' hbeside.quiet hI⟩
  exact hinvariant.2.2

end Controller

end Hsim.Dramsim3
