import Hsim.Dramsim3.Command
import Hsim.Json

/-! One bank, `BankState`.

A bank is closed, has a row open, or refreshes itself. Asked for a command, it
answers with the command it needs first, if that is due; given one it does not
take, the process ends. -/
namespace Hsim.Dramsim3

namespace BankState

/-- `State`; nothing ever puts a bank into `PD`. -/
inductive Phase where
  | open
  | closed
  | sref
  deriving DecidableEq, Repr

end BankState

structure BankState where
  state : BankState.Phase := .closed
  /-- The earliest cycle for each command. -/
  cmdTiming : CommandType → Nat := fun _ => 0
  openRow : Int := -1
  rowHitCount : Int := 0

namespace BankState

/-- The `required_type` of `GetReadyCommand`. -/
def requiredType (b : BankState) (cmd : Command) : Except Abort CommandType :=
  match b.state, cmd.cmdType with
  | .closed, .read | .closed, .readPrecharge | .closed, .write | .closed, .writePrecharge => .ok .activate
  | .closed, .refresh | .closed, .refreshBank | .closed, .srefEnter => .ok cmd.cmdType
  | .open, .read | .open, .readPrecharge | .open, .write | .open, .writePrecharge =>
    .ok (if cmd.addr.row = b.openRow then cmd.cmdType else .precharge)
  | .open, .refresh | .open, .refreshBank | .open, .srefEnter => .ok .precharge
  | .sref, .read | .sref, .readPrecharge | .sref, .write | .sref, .writePrecharge => .ok .srefExit
  | _, _ => .error .unknownType

def getReadyCommand (b : BankState) (cmd : Command) (clk : Nat) : Except Abort (Option Command) := do
  let required ← b.requiredType cmd
  return if b.cmdTiming required ≤ clk then some ⟨required, cmd.addr, cmd.hexAddr⟩ else none

def updateState (b : BankState) (cmd : Command) : Except Abort BankState :=
  match b.state, cmd.cmdType with
  | .open, .read | .open, .write => .ok {b with rowHitCount := b.rowHitCount + 1}
  | .open, .readPrecharge | .open, .writePrecharge | .open, .precharge =>
    .ok {b with
      state := .closed
      openRow := -1
      rowHitCount := 0}
  | .closed, .refresh | .closed, .refreshBank => .ok b
  | .closed, .activate =>
    .ok {b with
      state := .open
      openRow := cmd.addr.row}
  | .closed, .srefEnter => .ok {b with state := .sref}
  | .sref, .srefExit => .ok {b with state := .closed}
  | _, _ => .error .illegalCommand

def updateTiming (b : BankState) (cmdType : CommandType) (time : Nat) : BankState :=
  {b with cmdTiming := Function.update b.cmdTiming cmdType (max (b.cmdTiming cmdType) time)}

/-- All entries of a table for a command issued at `clk`. -/
def updateTimings (b : BankState) (delays : List (CommandType × Int)) (clk : Nat) : BankState :=
  delays.foldl (fun b e => b.updateTiming e.1 (later clk e.2)) b

/-! ### What a bank takes -/

/-- The bank's state admits the command: an access needs its own row open. -/
def Admits (b : BankState) (cmd : Command) : Prop :=
  match b.state, cmd.cmdType with
  | .open, .read | .open, .readPrecharge | .open, .write | .open, .writePrecharge =>
    cmd.addr.row = b.openRow
  | .open, .precharge => True
  | .closed, .activate | .closed, .refresh | .closed, .refreshBank | .closed, .srefEnter => True
  | .sref, .srefExit => True
  | _, _ => False

theorem requiredType_admits {b : BankState} {cmd : Command} {t : CommandType}
    (h : b.requiredType cmd = .ok t) : b.Admits ⟨t, cmd.addr, cmd.hexAddr⟩ := by
  unfold requiredType at h
  unfold Admits
  by_cases hrow : cmd.addr.row = b.openRow <;> cases hs : b.state <;> cases hc : cmd.cmdType <;>
    simp only [hs, hc, hrow, if_true, if_false, reduceCtorEq, Except.ok.injEq] at h <;>
    subst h <;> simp [hrow]

/-- What a bank needs before it takes a command. -/
theorem requiredType_cases {b : BankState} {cmd : Command} {t : CommandType}
    (h : b.requiredType cmd = .ok t) :
    (t = cmd.cmdType ∧ b.state ≠ .sref) ∨ (t = .precharge ∧ b.state = .open) ∨
      (cmd.isReadWrite = true ∧ (t = .activate ∧ b.state = .closed ∨ t = .srefExit ∧
      b.state = .sref)) := by
  unfold requiredType at h
  by_cases hrow : cmd.addr.row = b.openRow <;> cases hs : b.state <;> cases hc : cmd.cmdType <;>
    simp only [hs, hc, hrow, if_true, if_false, reduceCtorEq, Except.ok.injEq] at h <;>
    subst h <;> simp [Command.isReadWrite, Command.isRead, Command.isWrite, hc]

/-- What an access needs of a bank that is awake. -/
theorem requiredType_access {b : BankState} {cmd : Command} (hawake : b.state ≠ .sref)
    (haccess : cmd.isReadWrite = true) : b.requiredType cmd = .ok
      (if b.state = .closed then .activate else if cmd.addr.row = b.openRow then cmd.cmdType else
      .precharge) := by
  unfold Command.isReadWrite Command.isRead Command.isWrite at haccess
  unfold requiredType
  cases hs : b.state <;> cases hc : cmd.cmdType <;> simp_all

/-- An answer is what the bank needs, once that is due. -/
theorem getReadyCommand_some {b : BankState} {cmd r : Command} {clk : Nat}
    (h : b.getReadyCommand cmd clk = .ok (some r)) :
    b.requiredType cmd = .ok r.cmdType ∧ r = ⟨r.cmdType, cmd.addr, cmd.hexAddr⟩ ∧
      b.cmdTiming r.cmdType ≤ clk := by
  obtain ⟨required, hrequired, h⟩ := ok_of_bind h
  have hdue := Except.ok.inj h
  split at hdue
  · next hle =>
    cases hdue
    exact ⟨hrequired, rfl, hle⟩
  · cases hdue

/-- What a bank answers with, it admits now. -/
theorem getReadyCommand_admits {b : BankState} {cmd r : Command} {clk : Nat}
    (h : b.getReadyCommand cmd clk = .ok (some r)) :
    b.Admits r ∧ b.cmdTiming r.cmdType ≤ clk ∧ r.addr = cmd.addr ∧ r.hexAddr = cmd.hexAddr := by
  obtain ⟨hrequired, hr, hdue⟩ := getReadyCommand_some h
  rw [hr]
  exact ⟨requiredType_admits hrequired, hdue, rfl, rfl⟩

/-- An admitted command does not end the process. -/
theorem updateState_ok {b : BankState} {cmd : Command} (h : b.Admits cmd) :
    ∃ b', b.updateState cmd = .ok b' := by
  unfold Admits at h
  unfold updateState
  split at h <;> simp_all

@[simp] theorem updateTimings_state (b : BankState) (delays : List (CommandType × Int)) (clk : Nat) :
    (b.updateTimings delays clk).state = b.state := by
  induction delays generalizing b with
  | nil => rfl
  | cons e rest ih => exact ih _

@[simp] theorem updateTimings_openRow (b : BankState) (delays : List (CommandType × Int))
    (clk : Nat) :
    (b.updateTimings delays clk).openRow = b.openRow := by
  induction delays generalizing b with
  | nil => rfl
  | cons e rest ih => exact ih _

/-- Times only move up. -/
theorem le_updateTimings (b : BankState) (delays : List (CommandType × Int)) (clk : Nat)
    (t : CommandType) :
    b.cmdTiming t ≤ (b.updateTimings delays clk).cmdTiming t := by
  induction delays generalizing b with
  | nil => exact le_rfl
  | cons e rest ih =>
    refine le_trans ?_ (ih (b.updateTiming e.1 (later clk e.2)))
    by_cases ht : t = e.1
    · subst ht
      simp [updateTiming]
    · simp [updateTiming, ht]

/-- Every entry of the table holds from now on. -/
theorem mem_updateTimings (b : BankState) {delays : List (CommandType × Int)} (clk : Nat)
    {t : CommandType}
    {d : Int} (h : (t, d) ∈ delays) : later clk d ≤ (b.updateTimings delays clk).cmdTiming t := by
  induction delays generalizing b with
  | nil => cases h
  | cons e rest ih =>
    rcases List.mem_cons.mp h with rfl | h
    · refine le_trans ?_ (le_updateTimings _ rest clk t)
      simp [updateTiming]
    · exact ih _ h

/-- No time moves up but through an entry of the table. -/
theorem updateTimings_le {b : BankState} {delays : List (CommandType × Int)} {clk bound : Nat}
    {t : CommandType} (hb : b.cmdTiming t ≤ bound) (h : ∀ d, (t, d) ∈ delays → later clk d ≤ bound) :
    (b.updateTimings delays clk).cmdTiming t ≤ bound := by
  induction delays generalizing b with
  | nil => exact hb
  | cons e rest ih =>
    refine ih ?_ fun d hd => h d (List.mem_cons_of_mem e hd)
    by_cases ht : t = e.1
    · subst ht
      simpa [updateTiming] using ⟨hb, h e.2 List.mem_cons_self⟩
    · simpa [updateTiming, ht] using hb

/-- Two banks at one distance from a command keep what they have in common. -/
theorem updateTimings_congr {b b' : BankState} {t : CommandType} (delays : List (CommandType × Int))
    (clk : Nat) (h : b.cmdTiming t = b'.cmdTiming t) :
    (b.updateTimings delays clk).cmdTiming t = (b'.updateTimings delays clk).cmdTiming t := by
  induction delays generalizing b b' with
  | nil => exact h
  | cons e rest ih =>
    refine ih ?_
    by_cases ht : t = e.1
    · subst ht
      simp [updateTiming, h]
    · simp [updateTiming, ht, h]

theorem updateTimings_of_not_mem {delays : List (CommandType × Int)} {t : CommandType} (b : BankState)
    (clk : Nat) (h : t ∉ delays.map Prod.fst) :
    (b.updateTimings delays clk).cmdTiming t = b.cmdTiming t := by
  induction delays generalizing b with
  | nil => rfl
  | cons e rest ih =>
    obtain ⟨hne, hrest⟩ := not_or.mp (List.mem_cons.not.mp h)
    have hfirst : (b.updateTiming e.1 (later clk e.2)).cmdTiming t = b.cmdTiming t := by
      simp [updateTiming, Function.update_of_ne hne]
    exact (ih _ hrest).trans hfirst

/-- A bank goes to sleep by one command. -/
theorem updateState_sref {b b' : BankState} {cmd : Command} (h : b.updateState cmd = .ok b') :
    b'.state = .sref ↔ cmd.cmdType = .srefEnter := by
  unfold updateState at h
  split at h <;> cases h <;> simp_all

/-- A state change leaves the times alone. -/
theorem updateState_cmdTiming {b b' : BankState} {cmd : Command} (h : b.updateState cmd = .ok b') :
    b'.cmdTiming = b.cmdTiming := by
  unfold updateState at h
  split at h <;> cases h <;> rfl

end BankState

end Hsim.Dramsim3
