import Hsim.Dramsim3.BankState
import Hsim.Dramsim3.Timing
import Hsim.Lib.Cells
import Hsim.Lib.SlidingWindow
import Mathlib.Data.List.Nodup

/-! The banks of a channel, `ChannelState`.

A command changes its bank or all banks of its rank, and pushes back what may
follow, in every bank of the channel. Activations are counted in addition: at most
four of a rank in a window (thirty-two in a second one, for GDDR). -/
namespace Hsim.Dramsim3

/-- The address word of a command that has none. -/
def noAddr : UInt64 := 0xFFFFFFFFFFFFFFFF

structure ChannelState where
  rankIdleCycles : Int → Int := fun _ => 0
  rankIsSref : Int → Bool := fun _ => false
  bankStates : Bank → BankState := fun _ => {}
  refreshQ : List Command := []
  fourAw : Int → List Nat := fun _ => []
  thirtyTwoAw : Int → List Nat := fun _ => []

namespace Config
variable (cfg : Config)

/-- The other banks of a bank's group. -/
def otherBanks (b : Bank) : List Bank :=
  ((List.range cfg.banksPerGroup.toNat).filter fun k : Nat => (k : Int) ≠ b.bank).map fun k : Nat =>
    ⟨b.rank, b.bankgroup, k⟩

/-- The banks of the other groups of a bank's rank. -/
def otherGroups (b : Bank) : List Bank := (cfg.banksOf b.rank).filter fun c => c.bankgroup ≠ b.bankgroup

/-- The banks of the other ranks. -/
def otherRankBanks (rank : Int) : List Bank :=
  ((List.range cfg.ranks.toNat).filter fun i : Nat => (i : Int) ≠ rank).flatMap fun i : Nat => cfg.banksOf i

end Config

namespace ChannelState
variable (cfg : Config)

def isAllBankIdleInRank (ch : ChannelState) (rank : Int) : Bool :=
  (cfg.banksOf rank).all fun b => (ch.bankStates b).state ≠ .open

def bankNeedRefresh (ch : ChannelState) (rank bankgroup bank : Int) (need : Bool) : ChannelState :=
  if need then {ch with refreshQ := ch.refreshQ ++ [⟨.refreshBank, {
    rank := rank
    bankgroup := bankgroup
    bank := bank}, noAddr⟩]}
  else {ch with refreshQ := ch.refreshQ.eraseP fun c => c.place == ⟨rank, bankgroup, bank⟩}

def rankNeedRefresh (ch : ChannelState) (rank : Int) (need : Bool) : ChannelState :=
  if need then {ch with refreshQ := ch.refreshQ ++ [⟨.refresh, {rank := rank}, noAddr⟩]}
  else {ch with refreshQ := ch.refreshQ.eraseP fun c => c.addr.rank == rank}

/-! ### Activation windows -/

/-- `IsActivationWindowOk`, with `IsFAWReady` and `Is32AWReady`. -/
def activationWindowOk (ch : ChannelState) (rank : Int) (currTime : Nat) : Bool :=
  let tfawOk := Lib.windowReady 4 (ch.fourAw rank) currTime
  if cfg.protocol.isGddr then tfawOk && Lib.windowReady 32 (ch.thirtyTwoAw rank) currTime else tfawOk

def updateActivationTimes (ch : ChannelState) (rank : Int) (currTime : Nat) : ChannelState :=
  {ch with
    fourAw := Function.update ch.fourAw rank (Lib.slide (ch.fourAw rank) currTime (later currTime cfg.tFAW))
    thirtyTwoAw :=
      if cfg.protocol.isGddr then
        Function.update ch.thirtyTwoAw rank (Lib.slide (ch.thirtyTwoAw rank) currTime
          (later currTime cfg.t32AW))
      else ch.thirtyTwoAw}

/-! ### Commands -/

/-- The loop of `GetReadyCommand` over the banks of a rank: the banks that are ready so far, and
the last answer. -/
def readyInRank (ch : ChannelState) (cmd : Command) (clk : Nat) :
    List Bank → Int → Option Command → Except Abort (Option Command)
  | [], numReady, last => .ok (if numReady = cfg.banks then last else none)
  | b :: rest, numReady, _ => do
    match ← (ch.bankStates b).getReadyCommand cmd clk with
    | none => readyInRank ch cmd clk rest numReady none
    | some r =>
      if r.cmdType ≠ cmd.cmdType then
        return some {r with addr := {
          rank := cmd.addr.rank
          bankgroup := b.bankgroup
          bank := b.bank}}
      else readyInRank ch cmd clk rest (numReady + 1) (some r)

def getReadyCommand (ch : ChannelState) (cmd : Command) (clk : Nat) : Except Abort (Option Command) :=
  if cmd.isRankCmd then readyInRank cfg ch cmd clk (cfg.banksOf cmd.addr.rank) 0 none
  else do
    match ← (ch.bankStates cmd.place).getReadyCommand cmd clk with
    | none => return none
    | some r =>
      if r.cmdType = .activate ∧ ¬ ch.activationWindowOk cfg r.addr.rank clk then return none
      else return some r

def updateState (ch : ChannelState) (cmd : Command) : Except Abort ChannelState :=
  if cmd.isRankCmd then do
    let banks ← Lib.forEachM (fun _ b => b.updateState cmd) (cfg.banksOf cmd.addr.rank) ch.bankStates
    let ch := {ch with bankStates := banks}
    return if cmd.isRefresh then ch.rankNeedRefresh cmd.addr.rank false
      else if cmd.cmdType = .srefEnter then
        {ch with rankIsSref := Function.update ch.rankIsSref cmd.addr.rank true}
      else {ch with rankIsSref := Function.update ch.rankIsSref cmd.addr.rank false}
  else do
    let b ← (ch.bankStates cmd.place).updateState cmd
    let ch := {ch with bankStates := Function.update ch.bankStates cmd.place b}
    return if cmd.isRefresh then
        ch.bankNeedRefresh cmd.addr.rank cmd.addr.bankgroup cmd.addr.bank false
      else ch

/-- The table of one distance, applied to the banks at that distance. -/
def pushBack (ch : ChannelState) (banks : List Bank) (delays : Delays) (clk : Nat) : ChannelState :=
  {ch with bankStates := Lib.forEach (fun _ b => b.updateTimings delays clk) banks ch.bankStates}

def updateTiming (ch : ChannelState) (cmd : Command) (clk : Nat) : ChannelState :=
  if cmd.isRankCmd then ch.pushBack (cfg.banksOf cmd.addr.rank) (cfg.sameRank cmd.cmdType) clk
  else
    let ch := if cmd.cmdType = .activate then ch.updateActivationTimes cfg cmd.addr.rank clk else ch
    let ch := ch.pushBack [cmd.place] (cfg.sameBank cmd.cmdType) clk
    let ch := ch.pushBack (cfg.otherBanks cmd.place) (cfg.otherBanksSameBankgroup cmd.cmdType) clk
    let ch := ch.pushBack (cfg.otherGroups cmd.place) (cfg.otherBankgroupsSameRank cmd.cmdType) clk
    ch.pushBack (cfg.otherRankBanks cmd.addr.rank) (cfg.otherRanks cmd.cmdType) clk

def updateTimingAndStates (ch : ChannelState) (cmd : Command) (clk : Nat) : Except Abort ChannelState := do
  let ch ← ch.updateState cfg cmd
  return ch.updateTiming cfg cmd clk

end ChannelState

/-! ### The banks of a configuration -/

namespace Config
variable {cfg : Config} {b c : Bank} {rank : Int}

theorem mem_banksOf : b ∈ cfg.banksOf rank ↔
    b.rank = rank ∧ (0 ≤ b.bankgroup ∧ b.bankgroup < cfg.bankgroups) ∧
      0 ≤ b.bank ∧ b.bank < cfg.banksPerGroup := by
  simp only [banksOf, List.mem_flatMap, List.mem_map, List.mem_range]
  constructor
  · rintro ⟨j, hj, k, hk, rfl⟩
    refine ⟨rfl, ⟨?_, ?_⟩, ?_, ?_⟩ <;> dsimp only <;> omega
  · rintro ⟨rfl, ⟨hj, hj'⟩, hk, hk'⟩
    refine ⟨b.bankgroup.toNat, by omega, b.bank.toNat, by omega, ?_⟩
    rw [Int.toNat_of_nonneg hj, Int.toNat_of_nonneg hk]

theorem nodup_banksOf (cfg : Config) (rank : Int) : (cfg.banksOf rank).Nodup := by
  refine List.nodup_flatMap.mpr ⟨?_, ?_⟩
  · intro j _
    refine List.nodup_range.map fun k k' h => ?_
    simpa using congrArg Bank.bank h
  · refine List.nodup_range.imp fun hne x hx hx' => ?_
    obtain ⟨k, -, rfl⟩ := List.mem_map.mp hx
    obtain ⟨k', -, heq⟩ := List.mem_map.mp hx'
    exact hne (by simpa using (congrArg Bank.bankgroup heq).symm)

theorem length_banksOf (h : 0 ≤ cfg.bankgroups) (h' : 0 ≤ cfg.banksPerGroup) (rank : Int) :
    ((cfg.banksOf rank).length : Int) = cfg.banks := by
  simp [banksOf, banks, List.length_flatMap, h, h']

theorem mem_otherBanks : c ∈ cfg.otherBanks b ↔
    c.rank = b.rank ∧ c.bankgroup = b.bankgroup ∧ c.bank ≠ b.bank ∧
      0 ≤ c.bank ∧ c.bank < cfg.banksPerGroup := by
  simp only [otherBanks, List.mem_map, List.mem_filter, List.mem_range, decide_eq_true_eq]
  constructor
  · rintro ⟨k, ⟨hk, hne⟩, rfl⟩
    exact ⟨rfl, rfl, hne, by dsimp only; omega, by dsimp only; omega⟩
  · rintro ⟨hrank, hgroup, hne, hk, hk'⟩
    refine ⟨c.bank.toNat, ⟨by omega, by omega⟩, ?_⟩
    rw [Int.toNat_of_nonneg hk, ← hrank, ← hgroup]

theorem nodup_otherBanks (cfg : Config) (b : Bank) : (cfg.otherBanks b).Nodup := by
  refine (List.nodup_range.filter _).map fun k k' h => ?_
  simpa using congrArg Bank.bank h

theorem mem_otherGroups : c ∈ cfg.otherGroups b ↔ c ∈ cfg.banksOf b.rank ∧
    c.bankgroup ≠ b.bankgroup := by
  simp [otherGroups]

theorem nodup_otherGroups (cfg : Config) (b : Bank) : (cfg.otherGroups b).Nodup :=
  (cfg.nodup_banksOf _).filter _

theorem mem_otherRankBanks : c ∈ cfg.otherRankBanks rank ↔
    c ∈ cfg.banksOf c.rank ∧ c.rank ≠ rank ∧ 0 ≤ c.rank ∧ c.rank < cfg.ranks := by
  simp only [otherRankBanks, List.mem_flatMap, List.mem_filter, List.mem_range, decide_eq_true_eq]
  constructor
  · rintro ⟨i, ⟨hi, hne⟩, hc⟩
    have hi' : c.rank = i := (mem_banksOf.mp hc).1
    exact ⟨hi' ▸ hc, by rwa [hi'], by omega, by omega⟩
  · rintro ⟨hc, hne, h, h'⟩
    refine ⟨c.rank.toNat, ⟨by omega, by omega⟩, ?_⟩
    rwa [Int.toNat_of_nonneg h]

theorem nodup_otherRankBanks (cfg : Config) (rank : Int) : (cfg.otherRankBanks rank).Nodup := by
  refine List.nodup_flatMap.mpr ⟨fun i _ => cfg.nodup_banksOf i, ?_⟩
  refine (List.nodup_range.filter _).imp fun hne x hx hx' => ?_
  exact hne (by simpa using (mem_banksOf.mp hx).1.symm.trans (mem_banksOf.mp hx').1)

/-- What a command's tables say about a bank. -/
def delays (cfg : Config) (cmd : Command) (b : Bank) : Delays :=
  if cmd.isRankCmd then if b ∈ cfg.banksOf cmd.addr.rank then cfg.sameRank cmd.cmdType else []
  else if b = cmd.place then cfg.sameBank cmd.cmdType
  else if b ∈ cfg.otherBanks cmd.place then cfg.otherBanksSameBankgroup cmd.cmdType
  else if b ∈ cfg.otherGroups cmd.place then cfg.otherBankgroupsSameRank cmd.cmdType
  else if b ∈ cfg.otherRankBanks cmd.addr.rank then cfg.otherRanks cmd.cmdType
  else []

end Config

namespace ChannelState
variable {cfg : Config} {ch ch' : ChannelState} {cmd r : Command} {clk : Nat}

theorem pushBack_apply {banks : List Bank} (hbanks : banks.Nodup) (ch : ChannelState)
    (delays : Delays) (clk : Nat) (b : Bank) : (ch.pushBack banks delays clk).bankStates b =
      (ch.bankStates b).updateTimings (if b ∈ banks then delays else []) clk := by
  show Lib.forEach _ banks ch.bankStates b = _
  rw [Lib.forEach_apply _ hbanks]
  split <;> rfl

/-- **One table for each bank**: no bank is at two distances from a command. -/
theorem updateTiming_apply (cfg : Config) (ch : ChannelState) (cmd : Command) (clk : Nat) (b : Bank) :
    (ch.updateTiming cfg cmd clk).bankStates b =
      (ch.bankStates b).updateTimings (cfg.delays cmd b) clk := by
  unfold updateTiming
  split
  · next hrank => rw [pushBack_apply (cfg.nodup_banksOf _), Config.delays, if_pos hrank]
  · next hrank =>
    dsimp only
    rw [pushBack_apply (cfg.nodup_otherRankBanks _), pushBack_apply (cfg.nodup_otherGroups _),
      pushBack_apply (cfg.nodup_otherBanks _), pushBack_apply (List.nodup_singleton _), Config.delays,
      if_neg hrank]
    have hstart : (if cmd.cmdType = .activate then ch.updateActivationTimes cfg cmd.addr.rank clk
        else ch).bankStates b = ch.bankStates b := by split <;> rfl
    rw [hstart]
    have hnil : ∀ s : BankState, s.updateTimings [] clk = s := fun _ => rfl
    by_cases hself : b = cmd.place
    · have h₁ : b ∉ cfg.otherBanks cmd.place := fun h => (Config.mem_otherBanks.mp h).2.2.1
        (by rw [hself])
      have h₂ : b ∉ cfg.otherGroups cmd.place := fun h => (Config.mem_otherGroups.mp h).2 (by rw [hself])
      have h₃ : b ∉ cfg.otherRankBanks cmd.addr.rank := fun h =>
        (Config.mem_otherRankBanks.mp h).2.1 (by rw [hself]; rfl)
      simp only [hself ▸ h₁, hself ▸ h₂, hself ▸ h₃, hself, List.mem_singleton, if_true, if_false, hnil]
    · by_cases hbank : b ∈ cfg.otherBanks cmd.place
      · obtain ⟨hrank', hgroup, -⟩ := Config.mem_otherBanks.mp hbank
        have h₂ : b ∉ cfg.otherGroups cmd.place := fun h => (Config.mem_otherGroups.mp h).2 hgroup
        have h₃ : b ∉ cfg.otherRankBanks cmd.addr.rank := fun h =>
          (Config.mem_otherRankBanks.mp h).2.1 hrank'
        simp only [hself, hbank, h₂, h₃, List.mem_singleton, if_true, if_false, hnil]
      · by_cases hgroup : b ∈ cfg.otherGroups cmd.place
        · have hrank' := (Config.mem_banksOf.mp (Config.mem_otherGroups.mp hgroup).1).1
          have h₃ : b ∉ cfg.otherRankBanks cmd.addr.rank := fun h =>
            (Config.mem_otherRankBanks.mp h).2.1 hrank'
          simp only [hself, hbank, hgroup, h₃, List.mem_singleton, if_true, if_false, hnil]
        · simp only [hself, hbank, hgroup, List.mem_singleton, if_false, hnil]

end ChannelState

end Hsim.Dramsim3
