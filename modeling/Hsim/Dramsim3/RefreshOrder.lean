import Hsim.Dramsim3.Total
import Mathlib.Data.Nat.Count
import Mathlib.Data.Nat.ModEq

/-! Which refreshes a channel gets.

The refreshes that have been issued and those that wait are the schedule of the policy
up to now (`refreshes_in_order`): none is dropped, doubled or overtaken, whatever the
requests are. Refreshing the ranks simultaneously means refreshing the first rank only,
since the loop over the ranks ends after it. -/
namespace Hsim.Dramsim3

namespace Config
variable (cfg : Config)

/-- The refresh with number `k` of a channel whose ranks never refresh themselves. The
simultaneous policy refreshes the first awake rank only, which here is rank 0 every time. -/
def refreshAt (k : Nat) : Command :=
  match cfg.refreshPolicy with
  | .rankLevelSimultaneous => ⟨.refresh, {rank := 0}, noAddr⟩
  | .rankLevelStaggered => ⟨.refresh, {rank := (k % cfg.ranks.toNat : Nat)}, noAddr⟩
  | .bankLevelStaggered => ⟨.refreshBank, {
      rank := (k / (cfg.bankgroups.toNat * cfg.banksPerGroup.toNat) % cfg.ranks.toNat : Nat)
      bankgroup := (k % cfg.bankgroups.toNat : Nat)
      bank := (k / cfg.bankgroups.toNat % cfg.banksPerGroup.toNat : Nat)}, noAddr⟩

/-- How many refreshes have come due when the timer shows a cycle. -/
def dueBy (clk : Nat) : Nat := (clk - 1) / cfg.refreshInterval

theorem dueBy_succ (clk : Nat) : cfg.dueBy (clk + 1) =
    cfg.dueBy clk + if clk % cfg.refreshInterval = 0 ∧ 0 < clk then 1 else 0 := by
  unfold dueBy
  cases clk with
  | zero => simp
  | succ clk =>
    rw [Nat.add_sub_cancel, Nat.add_sub_cancel, Nat.succ_div]
    simp [Nat.dvd_iff_mod_eq_zero]

end Config

namespace Refresh
variable {cfg : Config} {r r' : Refresh} {ch ch' : ChannelState} {k : Nat}

/-- The position of the timer after `k` refreshes. -/
def Pointing (cfg : Config) (k : Nat) (r : Refresh) : Prop :=
  match cfg.refreshPolicy with
  | .rankLevelSimultaneous => True
  | .rankLevelStaggered => r.nextRank = (cfg.refreshAt k).addr.rank
  | .bankLevelStaggered => (⟨r.nextRank, r.nextBg, r.nextBank⟩ : Bank) = (cfg.refreshAt k).place

theorem next_digit (k n : Nat) : (k + 1) % n = 0 ∧ (k + 1) / n = k / n + 1 ∨
    (k + 1) % n ≠ 0 ∧ (k + 1) / n = k / n := by
  by_cases h : n ∣ k + 1
  · exact .inl ⟨Nat.dvd_iff_mod_eq_zero.mp h, by rw [Nat.succ_div, if_pos h]⟩
  · exact .inr ⟨fun hzero => h (Nat.dvd_iff_mod_eq_zero.mpr hzero),
      by rw [Nat.succ_div, if_neg h, Nat.add_zero]⟩

/-- A counter that wraps around counts modulo its size. -/
theorem tmod_next {n : Int} (hn : 0 < n) (k : Nat) :
    (((k % n.toNat : Nat) : Int) + 1).tmod n = ((k + 1) % n.toNat : Nat) := by
  have hcast := Int.ofNat_tmod (k % n.toNat + 1) n.toNat
  rw [Nat.mod_add_mod, Int.toNat_of_nonneg hn.le] at hcast
  exact hcast.symm

/-- The timer moves on to the next bank as the schedule does. -/
theorem Pointing.next (hcounts : cfg.Counts) (h : Pointing cfg k r) :
    Pointing cfg (k + 1) (r.iterateNext cfg) := by
  unfold Pointing iterateNext Config.refreshAt at *
  cases hp : cfg.refreshPolicy with
  | rankLevelSimultaneous => trivial
  | rankLevelStaggered =>
    simp only [hp] at h ⊢
    rw [h]
    exact tmod_next hcounts.ranks k
  | bankLevelStaggered =>
    simp only [hp, Command.place, Address.place, Bank.mk.injEq] at h ⊢
    obtain ⟨hrank, hbg, hbank⟩ := h
    have hbg' := tmod_next hcounts.bankgroups k
    have hbank' := tmod_next hcounts.banksPerGroup (k / cfg.bankgroups.toNat)
    have hrank' := tmod_next hcounts.ranks (k / (cfg.bankgroups.toNat * cfg.banksPerGroup.toNat))
    rw [← hbg] at hbg'
    rw [← hbank] at hbank'
    rw [← hrank] at hrank'
    simp only [← Nat.div_div_eq_div_mul] at hrank hrank' ⊢
    rcases next_digit k cfg.bankgroups.toNat with ⟨hzero, hcarry⟩ | ⟨hnonzero, hsame⟩
    · rw [if_pos (by rw [hbg', hzero]; rfl), hcarry]
      rcases next_digit (k / cfg.bankgroups.toNat) cfg.banksPerGroup.toNat with ⟨hzero', hcarry'⟩ |
        ⟨hnonzero', hsame'⟩
      · rw [if_pos (by rw [hbank', hzero']; rfl), hcarry']
        exact ⟨hrank', hbg', hbank'⟩
      · rw [if_neg (by rw [hbank']; exact_mod_cast hnonzero'), hsame']
        exact ⟨hrank, hbg', hbank'⟩
    · rw [if_neg (by rw [hbg']; exact_mod_cast hnonzero), hsame]
      exact ⟨hrank, hbg', hbank⟩

theorem firstAwake_eq (hcounts : cfg.Counts) (hawake : ∀ i, ch.rankIsSref i = false) :
    cfg.firstAwake ch = some 0 := by
  have hranks : cfg.ranks.toNat = cfg.ranks.toNat - 1 + 1 := by
    have := hcounts.ranks
    omega
  rw [Config.firstAwake, hranks, List.range_succ_eq_map]
  simp [hawake]

/-- The next refresh of the schedule joins the queue. -/
theorem insertRefresh_eq (hcounts : cfg.Counts) (hawake : ∀ i, ch.rankIsSref i = false)
    (h : Pointing cfg k r) : r.insertRefresh cfg ch =
      (r.iterateNext cfg, {ch with refreshQ := ch.refreshQ ++ [cfg.refreshAt k]}) := by
  unfold insertRefresh Config.refreshAt
  unfold Pointing Config.refreshAt at h
  cases hp : cfg.refreshPolicy with
  | rankLevelSimultaneous =>
    simp only [firstAwake_eq hcounts hawake, iterateNext, hp]
    rfl
  | rankLevelStaggered =>
    simp only [hp] at h ⊢
    rw [hawake, h]
    rfl
  | bankLevelStaggered =>
    simp only [hp, Command.place, Address.place, Bank.mk.injEq] at h ⊢
    obtain ⟨hrank, hbg, hbank⟩ := h
    rw [hawake, hrank, hbg, hbank]
    rfl

@[simp] theorem iterateNext_clk (cfg : Config) (r : Refresh) : (r.iterateNext cfg).clk = r.clk := by
  unfold iterateNext
  split
  · rfl
  · dsimp only
    split
    · split <;> rfl
    · rfl
  · rfl

@[simp] theorem insertRefresh_clk (cfg : Config) (r : Refresh) (ch : ChannelState) :
    (r.insertRefresh cfg ch).1.clk = r.clk := by
  unfold insertRefresh
  split
  · split <;> rfl
  · exact iterateNext_clk cfg r
  · exact iterateNext_clk cfg r

/-- A tick of the timer. -/
theorem clockTick_spec (hcounts : cfg.Counts) (hawake : ∀ i, ch.rankIsSref i = false)
    (hpointing : Pointing cfg (cfg.dueBy r.clk) r) (h : r.clockTick cfg ch = .ok (r', ch')) :
    r'.clk = r.clk + 1 ∧ Pointing cfg (cfg.dueBy r'.clk) r' ∧
      ch' = {ch with refreshQ := ch.refreshQ ++
        if r.clk % cfg.refreshInterval = 0 ∧ 0 < r.clk then
        [cfg.refreshAt (cfg.dueBy r.clk)] else []} := by
  unfold clockTick at h
  split at h
  · cases h
  · by_cases hdue : r.clk % cfg.refreshInterval = 0 ∧ 0 < r.clk
    · rw [if_pos hdue, insertRefresh_eq hcounts hawake hpointing] at h
      obtain ⟨rfl, rfl⟩ := Prod.mk.inj (Except.ok.inj h)
      refine ⟨by simp, ?_, by rw [if_pos hdue]⟩
      have hnext := hpointing.next hcounts
      simp only [iterateNext_clk, Config.dueBy_succ, if_pos hdue]
      exact hnext
    · rw [if_neg hdue] at h
      obtain ⟨rfl, rfl⟩ := Prod.mk.inj (Except.ok.inj h)
      refine ⟨rfl, ?_, by rw [if_neg hdue, List.append_nil]⟩
      simp only [Config.dueBy_succ, if_neg hdue]
      exact hpointing

end Refresh

namespace Controller
variable {cfg : Config} {c c' : Controller}

/-- The refreshes of a trace, with their cycles. -/
def refreshes (trace : List (Nat × Command)) : List (Nat × Command) := trace.filter fun e => e.2.isRefresh

theorem refreshes_snoc (trace : List (Nat × Command)) (clk : Nat) (cmd : Command) :
    refreshes (trace ++ [(clk, cmd)]) =
      if cmd.isRefresh = true then refreshes trace ++ [(clk, cmd)] else refreshes trace := by
  unfold refreshes
  rw [List.filter_append]
  split
  · next h => rw [List.filter_cons_of_pos (by simpa using h)]; rfl
  · next h => rw [List.filter_cons_of_neg (by simpa using h)]; simp

/-- The schedule has been kept to, so far. -/
structure OnSchedule (cfg : Config) (c : Controller) : Prop where
  tidy : Tidy cfg c
  awake : ∀ i, c.channelState.rankIsSref i = false
  pointing : Refresh.Pointing cfg (cfg.dueBy c.refresh.clk) c.refresh
  order : (refreshes c.cmdTrace).map Prod.snd ++ c.channelState.refreshQ =
    (List.range (cfg.dueBy c.refresh.clk)).map cfg.refreshAt

/-- What has come due has been issued or waits. -/
theorem OnSchedule.length_order (h : OnSchedule cfg c) :
    (refreshes c.cmdTrace).length + c.channelState.refreshQ.length = cfg.dueBy c.refresh.clk := by
  have hlength := congrArg List.length h.order
  rwa [List.length_append, List.length_map, List.length_map, List.length_range] at hlength

theorem onSchedule_start (cfg : Config) : OnSchedule cfg {} where
  tidy := tidy_start cfg
  awake _ := rfl
  pointing := by
    unfold Refresh.Pointing Config.refreshAt
    cases cfg.refreshPolicy <;> simp [Config.dueBy, Command.place, Address.place]
  order := by simp [refreshes, Config.dueBy]

/-- What the schedule is about, and nothing else. -/
theorem OnSchedule.of_eq (h : OnSchedule cfg c) (htidy : Tidy cfg c')
    (hchannel : c'.channelState.refreshQ = c.channelState.refreshQ)
    (hsref : c'.channelState.rankIsSref = c.channelState.rankIsSref)
    (hrefresh : c'.refresh = c.refresh) (htrace : c'.cmdTrace = c.cmdTrace) : OnSchedule cfg c' where
  tidy := htidy
  awake := hsref ▸ h.awake
  pointing := hrefresh ▸ h.pointing
  order := by
    rw [htrace, hchannel, hrefresh]
    exact h.order

theorem rankIsSref_of_issues {cmd : Command} (h : ∀ i, c.channelState.rankIsSref i = false)
    (hissues : Issues cfg c cmd c') (henter : cmd.cmdType ≠ .srefEnter) (i : Int) :
    c'.channelState.rankIsSref i = false := by
  rw [hissues.channel.rankIsSref, if_neg henter]
  split
  · by_cases hi : i = cmd.addr.rank
    · rw [hi, Function.update_self]
    · rw [Function.update_of_ne hi]
      exact h i
  · exact h i

/-- A command that is no refresh leaves the queue of refreshes. -/
theorem OnSchedule.other {cmd : Command} (h : OnSchedule cfg c) (hissues : Issues cfg c cmd c')
    (hcmd : cmd.isRefresh = false) (henter : cmd.cmdType ≠ .srefEnter) : OnSchedule cfg c' := by
  have hframe := hissues.frame
  have htypes : cmd.cmdType ≠ .refresh ∧ cmd.cmdType ≠ .refreshBank := by
    simpa [Command.isRefresh] using hcmd
  have hqueue : c'.channelState.refreshQ = c.channelState.refreshQ := by
    rw [hissues.channel.refreshQ, if_neg htypes.1, if_neg htypes.2]
  have hrefresh : c'.refresh = c.refresh := by rw [hframe]
  have htrace : c'.cmdTrace = c.cmdTrace ++ [(c.clk, cmd)] := by rw [hframe]
  refine ⟨h.tidy.issues hissues, rankIsSref_of_issues h.awake hissues henter, hrefresh ▸ h.pointing, ?_⟩
  rw [htrace, refreshes_snoc, if_neg (by simp [hcmd]), hqueue, hrefresh]
  exact h.order

/-- The refresh at the front leaves the queue when it is issued. -/
theorem OnSchedule.front {ref : Command} {rest : List Command} (h : OnSchedule cfg c)
    (hfront : c.channelState.refreshQ = ref :: rest) (hissues : Issues cfg c ref c') :
    OnSchedule cfg c' ∧ c'.channelState.refreshQ = rest := by
  have href := h.tidy.refreshes ref (by simp [hfront])
  have hframe := hissues.frame
  have hqueue : c'.channelState.refreshQ = rest := by
    rw [hissues.channel.refreshQ, hfront]
    split
    · rw [List.eraseP_cons_of_pos (by simp)]
    · next hrank =>
      have hbank : ref.cmdType = .refreshBank := by simpa [Command.isRefresh, hrank] using href
      rw [if_pos hbank, List.eraseP_cons_of_pos (by simp)]
  have hrefresh : c'.refresh = c.refresh := by rw [hframe]
  have htrace : c'.cmdTrace = c.cmdTrace ++ [(c.clk, ref)] := by rw [hframe]
  refine ⟨⟨h.tidy.issues hissues, rankIsSref_of_issues h.awake hissues (srefEnter_of_isRefresh href),
    hrefresh ▸ h.pointing, ?_⟩, hqueue⟩
  rw [htrace, refreshes_snoc, if_pos href, hqueue, hrefresh, List.map_append, List.append_assoc]
  have hold := h.order
  rw [hfront] at hold
  exact hold

/-- What a refresh asks for, it gets itself or a precharge. -/
theorem answer_of_refresh {ch : ChannelState} {ref cmd : Command} {clk : Nat}
    (href : ref.isRefresh = true) (h : ch.getReadyCommand cfg ref clk = .ok (some cmd)) :
    cmd = ref ∨ cmd.cmdType = .precharge := by
  rcases ChannelState.getReadyCommand_cases h with hsame | hpre | ⟨haccess, -⟩
  · exact .inl hsame
  · exact .inr hpre
  · rw [isReadWrite_of_isRefresh href] at haccess
    cases haccess

/-- No queue issues a refresh. -/
theorem isRefresh_of_entry {ch : ChannelState} {entry cmd : Command} {clk : Nat}
    (hentry : entry.isReadWrite = true) (h : ch.getReadyCommand cfg entry clk = .ok (some cmd)) :
    cmd.isRefresh = false := by
  rcases ChannelState.getReadyCommand_cases h with rfl | hpre | ⟨-, hact | hexit⟩
  · by_contra hrefresh
    rw [isReadWrite_of_isRefresh (by simpa using hrefresh)] at hentry
    cases hentry
  · simp [Command.isRefresh, hpre]
  · simp [Command.isRefresh, hact]
  · simp [Command.isRefresh, hexit]

theorem OnSchedule.move (h : OnSchedule cfg c) (hcounts : cfg.Counts)
    (hself : cfg.enableSelfRefresh = false) (hmove : Move cfg c c') : OnSchedule cfg c' := by
  have htidy := h.tidy.move hmove
  have hqueue : ∀ {i : Int} {entry cmd : Command}, CommandQueue.Offers cfg c.channelState c.cmdQueue.clk
      (c.cmdQueue.queues i) cmd entry → cmd.isRefresh = false ∧ cmd.cmdType ≠ .srefEnter := by
    intro i entry cmd hoffers
    have hentry := h.tidy.entry_isReadWrite (Offers_mem hoffers)
    exact ⟨isRefresh_of_entry hentry hoffers.ready,
      cmdType_ne_srefEnter hoffers.ready (srefEnter_of_isReadWrite hentry)⟩
  cases hmove with
  | @refreshTick r ch htick =>
    obtain ⟨hclk, hpointing, hch⟩ := Refresh.clockTick_spec hcounts h.awake h.pointing htick
    refine ⟨htidy, ?_, hpointing, ?_⟩
    · rw [hch]
      exact h.awake
    · show (refreshes c.cmdTrace).map Prod.snd ++ ch.refreshQ = (List.range (cfg.dueBy r.clk)).map
        cfg.refreshAt
      rw [hch, hclk, Config.dueBy_succ, ← List.append_assoc, h.order]
      split
      · rw [List.range_succ, List.map_append]
        rfl
      · simp
  | turn hturned => exact h.of_eq htidy rfl rfl rfl rfl
  | @refresh ref cmd rest _ front ready hissue =>
    have href := h.tidy.refreshes ref (by simp [front])
    rcases answer_of_refresh href ready with rfl | hpre
    · exact (h.front front (issueCommand_issues hissue)).1
    · exact h.other (issueCommand_issues hissue) (by simp [Command.isRefresh, hpre]) (by simp [hpre])
  | row offers access hissue =>
    obtain ⟨hcmd, henter⟩ := hqueue offers
    exact h.other (issueCommand_issues hissue) hcmd henter
  | @access i cmd entry q _ offers access erase hissue =>
    obtain ⟨hcmd, henter⟩ := hqueue offers
    have herased : OnSchedule cfg {c with cmdQueue := q} := h.of_eq (h.tidy.erase erase) rfl rfl rfl rfl
    exact herased.other (issueCommand_issues hissue) hcmd henter
  | drop dual offers access erase => exact h.of_eq htidy rfl rfl rfl rfl
  | selfRefresh enabled asks ready hissue =>
    rw [hself] at enabled
    cases enabled
  | idle => exact h.of_eq htidy rfl rfl rfl rfl
  | schedule =>
    have hframe := (scheduleTransaction_scheduled cfg c).frame
    exact h.of_eq htidy (by rw [hframe.channelState]) (by rw [hframe.channelState]) hframe.refresh
      hframe.cmdTrace
  | clock => exact h.of_eq htidy rfl rfl rfl rfl

theorem OnSchedule.moves (h : OnSchedule cfg c) (hcounts : cfg.Counts)
    (hself : cfg.enableSelfRefresh = false) (hmoves : Moves cfg c c') : OnSchedule cfg c' := by
  induction hmoves with
  | refl => exact h
  | tail _ hlast ih => exact ih.move hcounts hself hlast

theorem onSchedule_run (hcounts : cfg.Counts) (hself : cfg.enableSelfRefresh = false)
    {events : List Event}
    (h : run cfg {} events = .ok c) : OnSchedule cfg c := by
  refine run_invariant_beside (fun c c' hmove hI => hI.move hcounts hself hmove) ?_ h
    (onSchedule_start cfg)
  intro c c' hbeside hI
  exact hI.of_eq (hI.tidy.beside hbeside) (by rw [hbeside.channelState]) (by rw [hbeside.channelState])
    hbeside.refresh hbeside.cmdTrace

/-! ### The two clocks -/

theorem issue_clk {issued : Bool} (h : c.issue cfg = .ok (c', issued)) :
    c'.clk = c.clk ∧ c'.refresh = c.refresh := by
  have hissues : ∀ {c₁ c₂ : Controller} {cmd : Command}, c₁.issueCommand cfg cmd = .ok c₂ →
      c₂.clk = c₁.clk ∧ c₂.refresh = c₁.refresh := by
    intro c₁ c₂ cmd hissue
    rw [(issueCommand_issues hissue).frame]
    exact ⟨rfl, rfl⟩
  obtain ⟨⟨answer, q⟩, -, h⟩ := ok_of_bind h
  cases answer with
  | none =>
    cases h
    exact ⟨rfl, rfl⟩
  | some cmd =>
    obtain ⟨c₁, hfirst, h⟩ := ok_of_bind h
    obtain ⟨hclk, hrefresh⟩ := hissues hfirst
    split at h
    · obtain ⟨c₂, hsecond, h⟩ := ok_of_bind h
      cases h
      obtain ⟨⟨answer', q'⟩, -, hsecond⟩ := ok_of_bind hsecond
      cases answer' with
      | none =>
        cases hsecond
        exact ⟨hclk, hrefresh⟩
      | some cmd' =>
        dsimp only at hsecond
        split at hsecond
        · obtain ⟨hclk', hrefresh'⟩ := hissues hsecond
          exact ⟨hclk'.trans hclk, hrefresh'.trans hrefresh⟩
        · cases hsecond
          exact ⟨hclk, hrefresh⟩
    · cases h
      exact ⟨hclk, hrefresh⟩

theorem refresh_clockTick_clk {r r' : Refresh} {ch ch' : ChannelState}
    (h : r.clockTick cfg ch = .ok (r', ch')) : r'.clk = r.clk + 1 := by
  unfold Refresh.clockTick at h
  split at h
  · cases h
  · dsimp only at h
    obtain ⟨rfl, -⟩ := Prod.mk.inj (Except.ok.inj h)
    dsimp only
    split
    · rw [Refresh.insertRefresh_clk]
    · rfl

/-- A cycle moves both clocks. -/
theorem clockTick_clk (h : c.clockTick cfg = .ok c') (hself : cfg.enableSelfRefresh = false) :
    c'.clk = c.clk + 1 ∧ c'.refresh.clk = c.refresh.clk + 1 := by
  obtain ⟨⟨r, ch⟩, hrefresh, h⟩ := ok_of_bind h
  obtain ⟨⟨c₁, issued⟩, hissue, h⟩ := ok_of_bind h
  simp only [hself, Bool.false_and] at h
  cases h
  obtain ⟨hclk, hr⟩ := issue_clk hissue
  have hframe := (scheduleTransaction_scheduled cfg (c₁.countIdle cfg)).frame
  refine ⟨?_, ?_⟩
  · show (scheduleTransaction cfg (c₁.countIdle cfg)).clk + 1 = _
    rw [hframe.clk]
    exact congrArg Nat.succ hclk
  · show (scheduleTransaction cfg (c₁.countIdle cfg)).refresh.clk = _
    rw [hframe.refresh]
    show c₁.refresh.clk = _
    rw [hr]
    exact refresh_clockTick_clk hrefresh

/-- The clocks count the cycles. -/
theorem step_clk {e : Event} (hself : cfg.enableSelfRefresh = false) (h : c.step cfg e = .ok c') :
    c'.clk = c.clk + [e].count .tick ∧ c'.refresh.clk = c.refresh.clk + [e].count .tick := by
  by_cases htick : e = .tick
  · subst htick
    exact clockTick_clk h hself
  · have hbeside := step_beside htick h
    rw [hbeside.clk, hbeside.refresh, List.count_singleton, if_neg (by simpa using htick)]
    exact ⟨rfl, rfl⟩

theorem run_ticks (hself : cfg.enableSelfRefresh = false) {events : List Event}
    (h : c.run cfg events = .ok c') :
    c'.clk = c.clk + events.count .tick ∧ c'.refresh.clk = c.refresh.clk + events.count .tick := by
  induction events generalizing c with
  | nil =>
    cases h
    exact ⟨rfl, rfl⟩
  | cons e rest ih =>
    obtain ⟨c₁, hstep, hrest⟩ := ok_of_bind h
    obtain ⟨hclk, hrefresh⟩ := step_clk hself hstep
    obtain ⟨hclk', hrefresh'⟩ := ih hrest
    have hcount : (e :: rest).count .tick = [e].count .tick + rest.count .tick := by
      rw [← List.count_append, List.singleton_append]
    rw [hclk', hrefresh', hclk, hrefresh, hcount]
    exact ⟨Nat.add_assoc _ _ _, Nat.add_assoc _ _ _⟩

theorem run_clk (hself : cfg.enableSelfRefresh = false) {events : List Event}
    (h : run cfg {} events = .ok c) :
    c.refresh.clk = c.clk := by
  obtain ⟨hclk, hrefresh⟩ := run_ticks hself h
  rw [hclk, hrefresh]

/-- **The refreshes are the schedule**, issued and waiting together, in its order. -/
theorem refreshes_in_order (hcounts : cfg.Counts) (hself : cfg.enableSelfRefresh = false)
    {events : List Event}
    (h : run cfg {} events = .ok c) : (refreshes c.cmdTrace).map Prod.snd ++ c.channelState.refreshQ =
      (List.range ((c.clk - 1) / cfg.refreshInterval)).map cfg.refreshAt := by
  rw [← run_clk hself h]
  exact (onSchedule_run hcounts hself h).order

theorem refreshes_in_order_lpddr5 : ∃ c,
    run lpddr5Ch4 {} (.add 0 false :: List.replicate 8000 .tick) = .ok c ∧
      (refreshes c.cmdTrace).map Prod.snd ++ c.channelState.refreshQ =
        (List.range ((c.clk - 1) / 3900)).map lpddr5Ch4.refreshAt := by
  obtain ⟨c, hrun⟩ := run_ok lpddr5Ch4_plain (.add 0 false :: List.replicate 8000 .tick)
  exact ⟨c, hrun, refreshes_in_order lpddr5Ch4_counts rfl hrun⟩

end Controller

end Hsim.Dramsim3
