import Hsim.Dramsim3.ChannelState

/-! What `GetReadyCommand` promises.

The answer of a channel is a command that every bank it acts on admits and that is
due in each of them; an activation fits its window. A rank's banks refresh themselves
together, which is why one bank may speak for its rank when it has to be woken. -/
namespace Hsim.Dramsim3

/-- The banks that a command acts on. -/
def Config.targets (cfg : Config) (cmd : Command) : List Bank :=
  if cmd.isRankCmd then cfg.banksOf cmd.addr.rank else [cmd.place]

namespace ChannelState
variable {cfg : Config} {ch ch' : ChannelState} {cmd r : Command} {clk : Nat}

/-- A command that may be issued in this cycle. -/
structure Ready (cfg : Config) (ch : ChannelState) (cmd : Command) (clk : Nat) : Prop where
  admits : ∀ b ∈ cfg.targets cmd, (ch.bankStates b).Admits cmd
  due : ∀ b ∈ cfg.targets cmd, (ch.bankStates b).cmdTiming cmd.cmdType ≤ clk
  window : cmd.cmdType = .activate → ch.activationWindowOk cfg cmd.addr.rank clk = true

/-- The banks of a rank refresh themselves together, and may stop together. -/
structure Together (cfg : Config) (ch : ChannelState) : Prop where
  sref : ∀ rank, ∀ b ∈ cfg.banksOf rank, ∀ b' ∈ cfg.banksOf rank,
    (ch.bankStates b).state = .sref → (ch.bankStates b').state = .sref
  exit : ∀ rank, ∀ b ∈ cfg.banksOf rank, ∀ b' ∈ cfg.banksOf rank,
    (ch.bankStates b).cmdTiming .srefExit = (ch.bankStates b').cmdTiming .srefExit

/-- What the loop over a rank answers: a precharge for the first bank that needs it, or the command
itself if every bank is ready. -/
theorem readyInRank_some {l : List Bank} {n : Int} {last : Option Command}
    (h : readyInRank cfg ch cmd clk l n last = .ok (some r)) :
    (∃ b ∈ l, ∃ r₀, (ch.bankStates b).getReadyCommand cmd clk = .ok (some r₀) ∧
      r₀.cmdType ≠ cmd.cmdType ∧
      r = {r₀ with addr := {rank := cmd.addr.rank, bankgroup := b.bankgroup, bank := b.bank}}) ∨
    (cfg.banks ≤ n + l.length ∧ (l = [] → last = some r) ∧
      (l ≠ [] → r.cmdType = cmd.cmdType ∧ r.addr = cmd.addr ∧ r.hexAddr = cmd.hexAddr) ∧
      (n + l.length = cfg.banks → ∀ b ∈ l, (ch.bankStates b).getReadyCommand cmd clk =
        .ok (some ⟨cmd.cmdType, cmd.addr, cmd.hexAddr⟩))) := by
  induction l generalizing n last with
  | nil =>
    rw [readyInRank] at h
    have hlast := Except.ok.inj h
    split at hlast
    · next hn => exact .inr ⟨by simp [hn], fun _ => hlast, by simp, by simp⟩
    · cases hlast
  | cons b rest ih =>
    rw [readyInRank] at h
    obtain ⟨answer, hanswer, h⟩ := ok_of_bind h
    cases answer with
    | none =>
      rcases ih h with ⟨b', hb', hfirst⟩ | ⟨hle, hnil, hcons, -⟩
      · exact .inl ⟨b', List.mem_cons_of_mem b hb', hfirst⟩
      · have hne : rest ≠ [] := by
          rintro rfl
          cases hnil rfl
        refine .inr ⟨by simp; omega, by simp, fun _ => hcons hne, ?_⟩
        intro hall
        simp only [List.length_cons] at hall
        omega
    | some r₀ =>
      dsimp only at h
      split at h
      · next hne =>
        have hr := (Option.some.inj (Except.ok.inj h)).symm
        exact .inl ⟨b, List.mem_cons_self, r₀, hanswer, hne, hr⟩
      · next hsame =>
        rw [not_not] at hsame
        obtain ⟨-, -, haddr, hhex⟩ := BankState.getReadyCommand_admits hanswer
        rcases ih h with ⟨b', hb', hfirst⟩ | ⟨hle, hnil, hcons, hall⟩
        · exact .inl ⟨b', List.mem_cons_of_mem b hb', hfirst⟩
        · refine .inr ⟨by simp; omega, by simp, ?_, ?_⟩
          · intro _
            by_cases hrest : rest = []
            · cases hnil hrest
              exact ⟨hsame, haddr, hhex⟩
            · exact hcons hrest
          · intro hlen b' hb'
            rcases List.mem_cons.mp hb' with rfl | hb'
            · rw [hanswer, ← hsame, ← haddr, ← hhex]
            · refine hall ?_ b' hb'
              simp only [List.length_cons] at hlen
              omega

/-- A rank command that is not what a bank needs asks that bank to precharge. -/
theorem precharge_of_rank {b : BankState} (hrank : cmd.isRankCmd = true)
    (h : b.getReadyCommand cmd clk = .ok (some r)) (hne : r.cmdType ≠ cmd.cmdType) :
    r.cmdType = .precharge ∧ b.state = .open := by
  rcases BankState.requiredType_cases (BankState.getReadyCommand_some h).1 with
    ⟨hsame, -⟩ | hpre | ⟨haccess, -⟩
  · exact absurd hsame hne
  · exact hpre
  · simp only [Command.isReadWrite, Command.isRead, Command.isWrite, Command.isRankCmd] at haccess hrank
    cases hc : cmd.cmdType <;> simp_all

theorem getReadyCommand_ready (htogether : Together cfg ch)
    (hplace : cmd.isReadWrite = true → cmd.place ∈ cfg.banksOf cmd.addr.rank)
    (h : ch.getReadyCommand cfg cmd clk = .ok (some r)) : Ready cfg ch r clk := by
  unfold getReadyCommand at h
  split at h
  · next hrank =>
    rcases readyInRank_some h with ⟨b, hb, r₀, hanswer, hne, rfl⟩ | ⟨-, hnil, hcons, hall⟩
    · obtain ⟨hpre, hopen⟩ := precharge_of_rank hrank hanswer hne
      obtain ⟨-, hdue, -, -⟩ := BankState.getReadyCommand_admits hanswer
      have htargets : cfg.targets {r₀ with addr := {
          rank := cmd.addr.rank, bankgroup := b.bankgroup, bank := b.bank}} = [b] := by
        have hb' := (Config.mem_banksOf.mp hb).1
        simp only [Config.targets, Command.isRankCmd, hpre, Command.place, Address.place, ← hb']
        rfl
      refine ⟨?_, ?_, ?_⟩
      · rw [htargets]
        simp [BankState.Admits, hopen, hpre]
      · rw [htargets]
        simpa using hdue
      · simp [hpre]
    · have hne : cfg.banksOf cmd.addr.rank ≠ [] := fun hempty => by cases hnil hempty
      obtain ⟨htype, haddr, hhex⟩ := hcons hne
      -- A rank that has a bank has bank groups and banks in them.
      obtain ⟨b₀, hb₀⟩ := List.exists_mem_of_ne_nil _ hne
      obtain ⟨-, ⟨h₁, h₁'⟩, h₂, h₂'⟩ := Config.mem_banksOf.mp hb₀
      have hanswers := hall (by rw [zero_add, Config.length_banksOf (by omega) (by omega)])
      have hr : r = ⟨cmd.cmdType, cmd.addr, cmd.hexAddr⟩ := by
        cases r
        simp_all
      have htargets : cfg.targets r = cfg.banksOf cmd.addr.rank := by
        rw [hr, Config.targets, if_pos hrank]
      refine ⟨?_, ?_, ?_⟩
      · intro b hb
        rw [hr]
        exact (BankState.getReadyCommand_admits (hanswers b (htargets ▸ hb))).1
      · intro b hb
        rw [hr]
        exact (BankState.getReadyCommand_admits (hanswers b (htargets ▸ hb))).2.1
      · intro hact
        rw [htype] at hact
        simp [Command.isRankCmd, hact] at hrank
  · next hbank =>
    rw [Bool.not_eq_true] at hbank
    obtain ⟨answer, hanswer, h⟩ := ok_of_bind h
    cases answer with
    | none => cases h
    | some r' =>
      dsimp only at h
      split at h
      · cases h
      · next hwindow =>
        cases h
        obtain ⟨hadmits, hdue, haddr, -⟩ := BankState.getReadyCommand_admits hanswer
        have hwin : r.cmdType = .activate → ch.activationWindowOk cfg r.addr.rank clk = true := by
          intro hact
          by_contra hfull
          exact hwindow ⟨hact, hfull⟩
        by_cases hrank : r.isRankCmd = true
        · -- Only a bank that refreshes itself answers a bank command with a rank command.
          have hsref : (ch.bankStates cmd.place).state = .sref ∧ r.cmdType = .srefExit ∧
              cmd.isReadWrite = true := by
            rcases BankState.requiredType_cases (BankState.getReadyCommand_some hanswer).1 with
              ⟨hsame, -⟩ | ⟨hpre, -⟩ | ⟨haccess, ⟨hact, -⟩ | ⟨hexit, hstate⟩⟩
            · rw [Command.isRankCmd, hsame, ← Command.isRankCmd, hbank] at hrank
              cases hrank
            · simp [Command.isRankCmd, hpre] at hrank
            · simp [Command.isRankCmd, hact] at hrank
            · exact ⟨hstate, hexit, haccess⟩
          have htargets : cfg.targets r = cfg.banksOf cmd.addr.rank := by
            rw [Config.targets, if_pos hrank, haddr]
          have hself := hplace hsref.2.2
          refine ⟨?_, ?_, hwin⟩
          · intro b hb
            rw [htargets] at hb
            have hb' := htogether.sref _ _ hself b hb hsref.1
            simp [BankState.Admits, hb', hsref.2.1]
          · intro b hb
            rw [htargets] at hb
            rw [hsref.2.1] at hdue ⊢
            rwa [htogether.exit _ b hb _ hself]
        · have htargets : cfg.targets r = [cmd.place] := by
            rw [Config.targets, if_neg hrank, Command.place, haddr]
            rfl
          refine ⟨?_, ?_, hwin⟩
          · rw [htargets]
            simpa using hadmits
          · rw [htargets]
            simpa using hdue

/-- The answer is the command that was asked for, or what that needs first. -/
theorem getReadyCommand_cases (h : ch.getReadyCommand cfg cmd clk = .ok (some r)) :
    r = cmd ∨ r.cmdType = .precharge ∨
      (cmd.isReadWrite = true ∧ (r.cmdType = .activate ∨ r.cmdType = .srefExit)) := by
  unfold getReadyCommand at h
  split at h
  · next hrank =>
    rcases readyInRank_some h with ⟨b, hb, r₀, hanswer, hne, rfl⟩ | ⟨-, hnil, hcons, -⟩
    · exact .inr (.inl (precharge_of_rank hrank hanswer hne).1)
    · have hne : cfg.banksOf cmd.addr.rank ≠ [] := fun hempty => by cases hnil hempty
      obtain ⟨hsame, haddr, hhex⟩ := hcons hne
      cases r
      cases cmd
      exact .inl (by simp_all)
  · obtain ⟨answer, hanswer, h⟩ := ok_of_bind h
    cases answer with
    | none => cases h
    | some r' =>
      dsimp only at h
      split at h
      · cases h
      · cases h
        obtain ⟨hrequired, hr, -⟩ := BankState.getReadyCommand_some hanswer
        rcases BankState.requiredType_cases hrequired with
          ⟨hsame, -⟩ | ⟨hpre, -⟩ | ⟨haccess, ⟨hact, -⟩ | ⟨hexit, -⟩⟩
        · exact .inl (by rw [hr, hsame])
        · exact .inr (.inl hpre)
        · exact .inr (.inr ⟨haccess, .inl hact⟩)
        · exact .inr (.inr ⟨haccess, .inr hexit⟩)

/-- A command for one bank gets that bank's answer, once the window lets an activation in. -/
theorem getReadyCommand_bank (hbank : cmd.isRankCmd = false) :
    ch.getReadyCommand cfg cmd clk = .ok (some r) ↔
      (ch.bankStates cmd.place).getReadyCommand cmd clk = .ok (some r) ∧
      (r.cmdType = .activate → ch.activationWindowOk cfg r.addr.rank clk = true) := by
  rw [getReadyCommand, if_neg (by simp [hbank])]
  cases (ch.bankStates cmd.place).getReadyCommand cmd clk with
  | error a => simp [Bind.bind, Except.bind]
  | ok answer =>
    rw [ok_bind]
    cases answer with
    | none => simp [pure, Except.pure]
    | some r' =>
      dsimp only
      split
      · next hfull =>
        refine ⟨nofun, ?_⟩
        rintro ⟨hr, hwindow⟩
        cases hr
        exact absurd (hwindow hfull.1) hfull.2
      · next hfree =>
        refine ⟨?_, fun h => h.1⟩
        intro h
        cases h
        refine ⟨rfl, fun hact => ?_⟩
        by_contra hfull
        exact hfree ⟨hact, hfull⟩

/-- The answer to a command for one bank is for that bank. -/
theorem getReadyCommand_addr (hbank : cmd.isRankCmd = false)
    (h : ch.getReadyCommand cfg cmd clk = .ok (some r)) : r.addr = cmd.addr :=
  (BankState.getReadyCommand_admits ((getReadyCommand_bank hbank).mp h).1).2.2.1

/-- An access to a bank that is awake never needs a command for the rank. -/
theorem isRankCmd_of_access (hawake : ∀ b, (ch.bankStates b).state ≠ .sref)
    (haccess : cmd.isReadWrite = true) (h : ch.getReadyCommand cfg cmd clk = .ok (some r)) :
    r.isRankCmd = false := by
  have hbank := Command.isRankCmd_of_isReadWrite haccess
  have hanswer := ((getReadyCommand_bank hbank).mp h).1
  rcases BankState.requiredType_cases (BankState.getReadyCommand_some hanswer).1 with
    ⟨hsame, -⟩ | ⟨hpre, -⟩ | ⟨-, ⟨hact, -⟩ | ⟨-, hsref⟩⟩
  · rw [Command.isRankCmd, hsame]
    exact hbank
  · simp [Command.isRankCmd, hpre]
  · simp [Command.isRankCmd, hact]
  · exact absurd hsref (hawake _)

/-- A command for a rank is answered with itself or with a precharge of an open bank. -/
theorem getReadyCommand_rank (hrank : cmd.isRankCmd = true)
    (h : ch.getReadyCommand cfg cmd clk = .ok (some r)) : r = cmd ∨
      r.cmdType = .precharge ∧ r.place ∈ cfg.banksOf cmd.addr.rank ∧
      (ch.bankStates r.place).state = .open := by
  unfold getReadyCommand at h
  rw [if_pos hrank] at h
  rcases readyInRank_some h with ⟨b, hb, r₀, hanswer, hne, rfl⟩ | ⟨-, hnil, hcons, -⟩
  · obtain ⟨hpre, hopen⟩ := precharge_of_rank hrank hanswer hne
    have hplace : Address.place {rank := cmd.addr.rank, bankgroup := b.bankgroup, bank :=
        b.bank} = b := by
      rw [Address.place, ← (Config.mem_banksOf.mp hb).1]
    refine .inr ⟨hpre, ?_, ?_⟩
    · rw [Command.place, hplace]
      exact hb
    · rw [Command.place, hplace]
      exact hopen
  · have hne : cfg.banksOf cmd.addr.rank ≠ [] := fun hempty => by cases hnil hempty
    obtain ⟨hsame, haddr, hhex⟩ := hcons hne
    cases r
    cases cmd
    exact .inl (by simp_all)

/-- A refresh of a rank is answered as soon as its banks are due for it and for a precharge. -/
theorem getReadyCommand_due (hcounts : cfg.banksOf cmd.addr.rank ≠ []) (hcmd : cmd.cmdType = .refresh)
    (hlength : ((cfg.banksOf cmd.addr.rank).length : Int) = cfg.banks)
    (hawake : ∀ b, (ch.bankStates b).state ≠ .sref)
    (hdue : ∀ b ∈ cfg.banksOf cmd.addr.rank,
      (ch.bankStates b).cmdTiming .precharge ≤ clk ∧ (ch.bankStates b).cmdTiming .refresh ≤ clk) :
    ∃ r, ch.getReadyCommand cfg cmd clk = .ok (some r) := by
  have hloop : ∀ (l : List Bank) (n : Int) (last : Option Command), (l ≠ [] ∨ last.isSome) →
      (∀ b ∈ l, b ∈ cfg.banksOf cmd.addr.rank) → n + l.length = cfg.banks →
      ∃ r, readyInRank cfg ch cmd clk l n last = .ok (some r) := by
    intro l
    induction l with
    | nil =>
      intro n last hlast _ hn
      obtain ⟨r, hr⟩ := Option.isSome_iff_exists.mp (hlast.resolve_left (by simp))
      exact ⟨r, by rw [readyInRank, if_pos (by simpa using hn), hr]⟩
    | cons b rest ih =>
      intro n last _ hl hn
      obtain ⟨hpre, href⟩ := hdue b (hl b List.mem_cons_self)
      have hrest := fun r => ih (n + 1) (some r) (.inr rfl)
        (fun b' hb' => hl b' (List.mem_cons_of_mem b hb'))
        (by simp only [List.length_cons] at hn; push_cast at hn; omega)
      cases hs : (ch.bankStates b).state with
      | «open» =>
        have hanswer : (ch.bankStates b).getReadyCommand cmd clk =
            .ok (some ⟨.precharge, cmd.addr, cmd.hexAddr⟩) := by
          rw [BankState.getReadyCommand]
          simp only [BankState.requiredType, hs, hcmd]
          show Except.ok (if _ then _ else _) = _
          rw [if_pos hpre]
        rw [readyInRank, hanswer, ok_bind]
        exact ⟨_, if_pos (by simp [hcmd])⟩
      | closed =>
        have hanswer : (ch.bankStates b).getReadyCommand cmd clk =
            .ok (some ⟨.refresh, cmd.addr, cmd.hexAddr⟩) := by
          rw [BankState.getReadyCommand]
          simp only [BankState.requiredType, hs, hcmd]
          show Except.ok (if _ then _ else _) = _
          rw [if_pos href]
        rw [readyInRank, hanswer, ok_bind]
        simpa [hcmd] using hrest _
      | sref => exact absurd hs (hawake b)
  unfold getReadyCommand
  rw [if_pos (by simp [Command.isRankCmd, hcmd])]
  exact hloop _ 0 none (.inl hcounts) (fun _ hb => hb) (by omega)

/-- An access is what was asked for. -/
theorem eq_of_getReadyCommand (h : ch.getReadyCommand cfg cmd clk = .ok (some r))
    (haccess : r.isReadWrite = true) : r = cmd := by
  have htype : ∀ {t : CommandType}, t = .precharge ∨ t = .activate ∨ t = .srefExit → r.cmdType ≠ t := by
    intro t ht hr
    rcases ht with rfl | rfl | rfl <;>
      simp [Command.isReadWrite, Command.isRead, Command.isWrite, hr] at haccess
  rcases getReadyCommand_cases h with hsame | hpre | ⟨-, hact | hexit⟩
  · exact hsame
  · exact absurd hpre (htype (.inl rfl))
  · exact absurd hact (htype (.inr (.inl rfl)))
  · exact absurd hexit (htype (.inr (.inr rfl)))

/-- While no bank refreshes itself, an access and a refresh always have an answer. -/
theorem getReadyCommand_ok (hawake : ∀ b, (ch.bankStates b).state ≠ .sref)
    (hcmd : cmd.isReadWrite = true ∨ cmd.isRefresh = true) :
    ∃ answer, ch.getReadyCommand cfg cmd clk = .ok answer := by
  have hbank : ∀ b, ∃ answer, (ch.bankStates b).getReadyCommand cmd clk = .ok answer := by
    intro b
    have hrequired : ∃ t, (ch.bankStates b).requiredType cmd = .ok t := by
      unfold Command.isReadWrite Command.isRead Command.isWrite Command.isRefresh at hcmd
      unfold BankState.requiredType
      have hb := hawake b
      cases hs : (ch.bankStates b).state <;> cases hc : cmd.cmdType <;> simp_all
    obtain ⟨t, ht⟩ := hrequired
    exact exists_ok_bind ht ⟨_, rfl⟩
  have hloop : ∀ (l : List Bank) (n : Int) (last : Option Command),
      ∃ answer, readyInRank cfg ch cmd clk l n last = .ok answer := by
    intro l
    induction l with
    | nil => exact fun n last => ⟨_, rfl⟩
    | cons b rest ih =>
      intro n last
      obtain ⟨answer, hanswer⟩ := hbank b
      refine exists_ok_bind hanswer ?_
      cases answer with
      | none => exact ih n none
      | some r₀ =>
        dsimp only
        split
        · exact ⟨_, rfl⟩
        · exact ih (n + 1) (some r₀)
  unfold getReadyCommand
  split
  · exact hloop _ _ _
  · obtain ⟨answer, hanswer⟩ := hbank cmd.place
    refine exists_ok_bind hanswer ?_
    cases answer with
    | none => exact ⟨_, rfl⟩
    | some r₀ =>
      dsimp only
      split
      · exact ⟨_, rfl⟩
      · exact ⟨_, rfl⟩

/-- A command that is ready does not end the process. -/
theorem updateTimingAndStates_ok (hready : Ready cfg ch cmd clk) :
    ∃ ch', ch.updateTimingAndStates cfg cmd clk = .ok ch' := by
  have hstate : ∃ ch', ch.updateState cfg cmd = .ok ch' := by
    have hadmits := hready.admits
    unfold Config.targets at hadmits
    unfold updateState
    split
    · next hrank =>
      rw [if_pos hrank] at hadmits
      obtain ⟨banks, hbanks⟩ := Lib.forEachM_ok (f := fun _ b => BankState.updateState b cmd)
        (s := ch.bankStates) (cfg.nodup_banksOf cmd.addr.rank) fun b hb => BankState.updateState_ok
          (hadmits b hb)
      exact exists_ok_bind hbanks ⟨_, rfl⟩
    · next hrank =>
      rw [if_neg hrank] at hadmits
      obtain ⟨s, hs⟩ := BankState.updateState_ok (hadmits cmd.place List.mem_cons_self)
      exact exists_ok_bind hs ⟨_, rfl⟩
  obtain ⟨ch', hch'⟩ := hstate
  exact exists_ok_bind hch' ⟨_, rfl⟩

end ChannelState

end Hsim.Dramsim3
