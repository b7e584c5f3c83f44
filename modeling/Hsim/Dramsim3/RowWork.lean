import Hsim.Dramsim3.Busy
import Mathlib.Algebra.BigOperators.Group.Finset.Piecewise
import Mathlib.Algebra.Group.Action.Defs
import Mathlib.Algebra.Order.BigOperators.Group.Finset

/-! What rows cost before the reads and writes.

A bank takes two commands at most before an access: one that closes its row and one that
opens that of the first command waiting for it. A row that this command needs stays open,
since an earlier command of its bank comes first in everything (`row_command`). -/
namespace Hsim.Dramsim3

namespace Config
variable {cfg : Config}

/-- The banks of a channel. -/
def allBanks (cfg : Config) : Finset Bank :=
  ((List.range cfg.ranks.toNat).flatMap fun rank : Nat => cfg.banksOf rank).toFinset

theorem mem_allBanks (hplaces : cfg.Places) (hranks : cfg.RanksExist) (addr : UInt64) :
    (cfg.mapping.addressMapping addr).place ∈ cfg.allBanks := by
  have hrank := hranks addr
  have hlow : (0 : Int) ≤ (cfg.mapping.addressMapping addr).rank := Int.natCast_nonneg _
  rw [allBanks, List.mem_toFinset, List.mem_flatMap]
  refine ⟨(cfg.mapping.addressMapping addr).rank.toNat, List.mem_range.mpr (by omega), ?_⟩
  rw [Int.toNat_of_nonneg hlow]
  exact hplaces addr

theorem banksOf_subset_allBanks {rank : Int} (hlow : 0 ≤ rank) (hhigh : rank < cfg.ranks) :
    (cfg.banksOf rank).toFinset ⊆ cfg.allBanks := by
  intro b hb
  rw [List.mem_toFinset] at hb
  rw [allBanks, List.mem_toFinset, List.mem_flatMap]
  refine ⟨rank.toNat, List.mem_range.mpr (by omega), ?_⟩
  rwa [Int.toNat_of_nonneg hlow]

end Config

namespace BankState

/-- The commands a bank still takes before its first access. -/
def rowSteps (b : BankState) (first : Option Command) : Nat :=
  if b.state = .open then if first.any (fun e => e.addr.row = b.openRow) then 0 else 2
  else 1

theorem rowSteps_le (b : BankState) (first : Option Command) : b.rowSteps first ≤ 2 := by
  unfold rowSteps
  split
  · split <;> omega
  · omega

theorem rowSteps_congr {b b' : BankState} (hstate : b'.state = b.state)
    (hrow : b'.openRow = b.openRow) (first : Option Command) :
    b'.rowSteps first = b.rowSteps first := by
  rw [rowSteps, rowSteps, hstate, hrow]

end BankState

namespace CommandQueue
variable {cfg : Config} {q q' : CommandQueue}

/-- The first command that waits for a bank. -/
def firstFor (cfg : Config) (q : CommandQueue) (b : Bank) : Option Command :=
  (q.queues (cfg.queueIndex b)).find? fun e => e.place = b

/-- Commands that come behind do not change what a bank has to do. -/
theorem rowSteps_prefix (hqueues : ∀ i, q.queues i <+: q'.queues i) (s : BankState) (b : Bank) :
    s.rowSteps (q'.firstFor cfg b) ≤ s.rowSteps (q.firstFor cfg b) := by
  cases hfirst : q.firstFor cfg b with
  | none =>
    unfold BankState.rowSteps
    split
    · rw [Option.any_none, if_neg Bool.false_ne_true]
      split <;> omega
    · exact le_rfl
  | some e =>
    obtain ⟨new, hnew⟩ := hqueues (cfg.queueIndex b)
    have hsame : q'.firstFor cfg b = some e := by
      rw [firstFor] at hfirst ⊢
      rw [← hnew, List.find?_append, hfirst]
      rfl
    rw [hsame]

/-- An entry with none of its bank before it is the first for its bank. -/
theorem firstFor_eq {entry : Command} {before after : List Command}
    (hqueue : q.queues (cfg.queueIndex entry.place) = before ++ entry :: after)
    (hnone : ∀ e ∈ before, e.place ≠ entry.place) : q.firstFor cfg entry.place = some entry := by
  rw [firstFor, hqueue, List.find?_append, List.find?_eq_none.mpr (by simpa using hnone)]
  simp

/-- An access that leaves its queue is of no concern to other banks. -/
theorem firstFor_erase {cmd : Command} {b : Bank} (herase : q.eraseRWCommand cfg cmd = .ok q')
    (hentries : ∀ e ∈ q.queues (cfg.queueIndex cmd.place), e.hexAddr = cmd.hexAddr →
      e.place = cmd.place) (hb : b ≠ cmd.place) : q'.firstFor cfg b = q.firstFor cfg b := by
  rw [Controller.eraseRWCommand_eq herase, firstFor, firstFor]
  by_cases hi : cfg.queueIndex b = cfg.queueIndex cmd.place
  · dsimp only
    rw [hi, Function.update_self]
    generalize q.queues (cfg.queueIndex cmd.place) = l at hentries
    induction l with
    | nil => rfl
    | cons e rest ih =>
      rw [List.eraseP_cons]
      cases hsame : cmd.hexAddr == e.hexAddr && cmd.cmdType == e.cmdType with
      | true =>
        have hplace : e.place = cmd.place := hentries e List.mem_cons_self (by simp_all)
        rw [cond_true, List.find?_cons_of_neg (by simpa [hplace] using hb.symm)]
      | false =>
        rw [cond_false, List.find?_cons, List.find?_cons,
          ih fun e he => hentries e (List.mem_cons_of_mem _ he)]
  · dsimp only
    rw [Function.update_of_ne hi]

end CommandQueue

/-- The commands that rows still cost, over all banks. -/
def rowWork (cfg : Config) (ch : ChannelState) (q : CommandQueue) : Nat :=
  ∑ b ∈ cfg.allBanks, (ch.bankStates b).rowSteps (q.firstFor cfg b)

section
variable {cfg : Config} {ch ch' : ChannelState} {q q' : CommandQueue} {cmd entry : Command} {clk : Nat}

theorem rowWork_prefix (hstates : ch'.bankStates = ch.bankStates)
    (hqueues : ∀ i, q.queues i <+: q'.queues i) :
    rowWork cfg ch' q' ≤ rowWork cfg ch q := by
  unfold rowWork
  rw [hstates]
  exact Finset.sum_le_sum fun b _ => CommandQueue.rowSteps_prefix hqueues _ b

/-- When a rank has just been refreshed, its rows cost one command each. -/
theorem rowWork_refreshed (hcounts : cfg.Counts) {rank : Int} (hlow : 0 ≤ rank)
    (hhigh : rank < cfg.ranks) (hclosed : ∀ b ∈ cfg.banksOf rank, (ch.bankStates b).state = .closed)
    (q : CommandQueue) :
    rowWork cfg ch q + cfg.banks.toNat ≤ 2 * cfg.allBanks.card := by
  have hsteps : ∀ b ∈ cfg.allBanks, (ch.bankStates b).rowSteps (q.firstFor cfg b) +
      (if b ∈ (cfg.banksOf rank).toFinset then 1 else 0) ≤ 2 := by
    intro b _
    split
    · next hb =>
      rw [List.mem_toFinset] at hb
      rw [BankState.rowSteps, if_neg (by simp [hclosed b hb])]
    · exact BankState.rowSteps_le _ _
  have hsum := Finset.sum_le_card_nsmul _ _ 2 hsteps
  have hinter : cfg.allBanks ∩ (cfg.banksOf rank).toFinset = (cfg.banksOf rank).toFinset :=
    Finset.inter_eq_right.mpr (Config.banksOf_subset_allBanks hlow hhigh)
  rw [Finset.sum_add_distrib, ← Finset.card_filter, Finset.filter_mem_eq_inter, hinter,
    List.toFinset_card_of_nodup (cfg.nodup_banksOf rank), Config.length_banksOf_toNat hcounts] at hsum
  rwa [smul_eq_mul, Nat.mul_comm] at hsum

/-- A command for one bank leaves the states of the others. -/
theorem rowSteps_other (hissued : ChannelState.Issued cfg ch cmd clk ch')
    (hbank : cmd.isRankCmd = false) {b : Bank}
    (hb : b ≠ cmd.place) (first : Option Command) :
    (ch'.bankStates b).rowSteps first = (ch.bankStates b).rowSteps first := by
  have hnot : b ∉ cfg.targets cmd := by
    rw [Config.targets, if_neg (by simp [hbank]), List.mem_singleton]
    exact hb
  refine BankState.rowSteps_congr (hissued.state_of_not_mem hnot) ?_ first
  rw [hissued.other b hnot, BankState.updateTimings_openRow]

/-- A command for one bank that lowers what this bank has to do. -/
theorem rowWork_lt (hissued : ChannelState.Issued cfg ch cmd clk ch') (hbank : cmd.isRankCmd = false)
    (hmem : cmd.place ∈ cfg.allBanks)
    (hless : (ch'.bankStates cmd.place).rowSteps (q.firstFor cfg cmd.place) <
      (ch.bankStates cmd.place).rowSteps (q.firstFor cfg cmd.place)) :
    rowWork cfg ch' q < rowWork cfg ch q := by
  refine Finset.sum_lt_sum ?_ ⟨cmd.place, hmem, hless⟩
  intro b _
  by_cases hb : b = cmd.place
  · rw [hb]
    exact hless.le
  · rw [rowSteps_other hissued hbank hb]

/-- An access leaves its bank two commands more to do at most. -/
theorem rowWork_access (hissued : ChannelState.Issued cfg ch cmd clk ch')
    (hbank : cmd.isRankCmd = false) (herase : q.eraseRWCommand cfg cmd = .ok q')
    (hentries : ∀ e ∈ q.queues (cfg.queueIndex cmd.place), e.hexAddr = cmd.hexAddr →
      e.place = cmd.place) :
    rowWork cfg ch' q' ≤ rowWork cfg ch q + 2 := by
  have hsteps : ∀ b ∈ cfg.allBanks, (ch'.bankStates b).rowSteps (q'.firstFor cfg b) ≤
      (ch.bankStates b).rowSteps (q.firstFor cfg b) + if b = cmd.place then 2 else 0 := by
    intro b _
    split
    · exact (BankState.rowSteps_le _ _).trans (Nat.le_add_left _ _)
    · next hb => rw [rowSteps_other hissued hbank hb,
        CommandQueue.firstFor_erase herase hentries hb, Nat.add_zero]
  refine (Finset.sum_le_sum hsteps).trans ?_
  rw [Finset.sum_add_distrib, Finset.sum_ite_eq']
  exact Nat.add_le_add_left (by split <;> omega) _

/-- **Row commands lead somewhere**: a command of a queue that is no access closes a row that the
first command of its bank does not need, or opens the one it needs. -/
theorem row_command (hawake : ∀ b, (ch.bankStates b).state ≠ .sref) {i : Int}
    (hoffers : CommandQueue.Offers cfg ch clk (q.queues i) cmd entry)
    (hentries : ∀ e ∈ q.queues i, e.isReadWrite = true) (hqueue : cfg.queueIndex entry.place = i)
    (hmem : entry.place ∈ cfg.allBanks) (hcmd : cmd.isReadWrite = false)
    (hissued : ChannelState.Issued cfg ch cmd clk ch') :
    (cmd.cmdType = .activate ∨ cmd.cmdType = .precharge) ∧ rowWork cfg ch' q < rowWork cfg ch q := by
  have hentry := hentries entry (Controller.Offers_mem hoffers)
  have hbank := ChannelState.isRankCmd_of_access hawake hentry hoffers.ready
  obtain ⟨hanswer, hwindow⟩ := (ChannelState.getReadyCommand_bank
    (Command.isRankCmd_of_isReadWrite hentry)).mp
    hoffers.ready
  obtain ⟨hrequired, hcmdEq, hdue⟩ := BankState.getReadyCommand_some hanswer
  have haddr : cmd.addr = entry.addr := by rw [hcmdEq]
  have hplace : cmd.place = entry.place := congrArg Address.place haddr
  obtain ⟨before, after, hsplit, harbitrate, -, hpassed⟩ := hoffers.place
  rw [BankState.requiredType_access (hawake _) hentry] at hrequired
  obtain ⟨s, hs, hstate⟩ := hissued.target cmd.place
    (by rw [Config.targets, if_neg (by simp [hbank])]; simp)
  rw [hplace] at hs hstate
  subst hqueue
  have hstep : ∀ {n : Nat}, (∀ e ∈ before, e.place ≠ entry.place) →
      (ch'.bankStates entry.place).rowSteps (some entry) = n →
      n < (ch.bankStates entry.place).rowSteps (some entry) → rowWork cfg ch' q < rowWork cfg ch q := by
    intro n hnone hafter hless
    refine rowWork_lt hissued hbank (hplace ▸ hmem) ?_
    rw [hplace, CommandQueue.firstFor_eq hsplit hnone, hafter]
    exact hless
  cases hphase : (ch.bankStates entry.place).state with
  | sref => exact absurd hphase (hawake _)
  | closed =>
    rw [if_pos hphase] at hrequired
    have hact : cmd.cmdType = .activate := (Except.ok.inj hrequired).symm
    refine ⟨.inl hact, hstep ?_ (n := 0) ?_ ?_⟩
    · -- An entry of the bank before this one would have been given its row.
      intro e he hsame
      have haccess := hentries e (by simp [hsplit, he])
      have hready : ch.getReadyCommand cfg e clk = .ok (some ⟨.activate, e.addr, e.hexAddr⟩) := by
        refine (ChannelState.getReadyCommand_bank (Command.isRankCmd_of_isReadWrite haccess)).mpr
          ⟨?_, fun _ => ?_⟩
        · rw [hsame, BankState.getReadyCommand, BankState.requiredType_access (hawake _) haccess,
            if_pos hphase, ok_bind, if_pos (hact ▸ hdue)]
          rfl
        · have hrank : e.addr.rank = entry.addr.rank := congrArg Bank.rank hsame
          rw [hrank, ← haddr]
          exact hwindow hact
      rcases hpassed e he _ hready with hpre | hwrite
      · cases hpre
      · cases hwrite
    · unfold BankState.updateState at hs
      rw [hphase, hact] at hs
      cases hs
      rw [hstate]
      simp [BankState.rowSteps, haddr]
    · simp [BankState.rowSteps, hphase]
  | «open» =>
    rw [if_neg (by simp [hphase])] at hrequired
    split at hrequired
    · have hsame : cmd.cmdType = entry.cmdType := (Except.ok.inj hrequired).symm
      rw [Command.isReadWrite, Command.isRead, Command.isWrite, hsame] at hcmd
      exact absurd hentry (ne_true_of_eq_false hcmd)
    · next hrow =>
      have hpre : cmd.cmdType = .precharge := (Except.ok.inj hrequired).symm
      refine ⟨.inr hpre, hstep ?_ (n := 1) ?_ ?_⟩
      · intro e he hsame
        have hfree := harbitrate hpre
        rw [CommandQueue.arbitratePrecharge, if_pos] at hfree
        · cases hfree
        · simpa using ⟨e, he, hsame⟩
      · unfold BankState.updateState at hs
        rw [hphase, hpre] at hs
        cases hs
        rw [hstate]
        simp [BankState.rowSteps]
      · simp [BankState.rowSteps, hphase, hrow]

end

end Hsim.Dramsim3
