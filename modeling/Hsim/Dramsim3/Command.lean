import Mathlib.Data.UInt
import Mathlib.Order.Lattice

/-! The vocabulary of the cycle-level memory simulator.

Requests are transactions on byte addresses; what goes over a channel are
commands to a bank or to a whole rank. Coordinates are signed in the source,
where `-1` marks one that a command does not have. -/
namespace Hsim.Dramsim3

/-- One bank of a channel. -/
structure Bank where
  rank : Int
  bankgroup : Int
  bank : Int
  deriving DecidableEq, Repr

structure Address where
  channel : Int := -1
  rank : Int := -1
  bankgroup : Int := -1
  bank : Int := -1
  row : Int := -1
  column : Int := -1
  deriving DecidableEq, Repr

/-- The bank an address lies in. -/
def Address.place (a : Address) : Bank := ⟨a.rank, a.bankgroup, a.bank⟩

/-- `CommandType`; `SIZE`, the type of an invalid command, is `none` of an `Option Command`. -/
inductive CommandType where
  | read
  | readPrecharge
  | write
  | writePrecharge
  | activate
  | precharge
  | refreshBank
  | refresh
  | srefEnter
  | srefExit
  deriving DecidableEq, Repr

structure Command where
  cmdType : CommandType
  addr : Address
  hexAddr : UInt64
  deriving DecidableEq, Repr

namespace Command

def isRefresh (c : Command) : Bool := c.cmdType == .refresh || c.cmdType == .refreshBank

def isRead (c : Command) : Bool := c.cmdType == .read || c.cmdType == .readPrecharge

def isWrite (c : Command) : Bool := c.cmdType == .write || c.cmdType == .writePrecharge

def isReadWrite (c : Command) : Bool := c.isRead || c.isWrite

/-- `IsRankCMD`. -/
def isRankCmd (c : Command) : Bool :=
  c.cmdType == .refresh || c.cmdType == .srefEnter || c.cmdType == .srefExit

def place (c : Command) : Bank := c.addr.place

theorem isRankCmd_of_isReadWrite {c : Command} (h : c.isReadWrite = true) : c.isRankCmd = false := by
  unfold isReadWrite isRead isWrite at h
  unfold isRankCmd
  cases hc : c.cmdType <;> simp_all

end Command

structure Transaction where
  addr : UInt64
  addedCycle : Nat := 0
  completeCycle : Nat := 0
  isWrite : Bool
  deriving DecidableEq, Repr

/-- The ways in which the simulator ends the process. -/
inductive Abort where
  /-- A bank is asked for what its state has no answer to. -/
  | unknownType
  /-- A bank is given a command its state does not take. -/
  | illegalCommand
  /-- A read is issued that nobody waits for. -/
  | notInReadQueue
  | notInWriteQueue
  | cannotFindCmd
  /-- A refresh interval of no cycles. -/
  | divisionByZero
  /-- A configuration that `Config` does not take. -/
  | badConfig
  deriving DecidableEq, Repr

theorem ok_bind {α β : Type} (a : α) (f : α → Except Abort β) : (Except.ok a >>= f) = f a := rfl

/-- A step that does not abort, and a rest that does not. -/
theorem exists_ok_bind {α β : Type} {x : Except Abort α} {f : α → Except Abort β} {a : α}
    (hx : x = .ok a) (hf : ∃ b, f a = .ok b) : ∃ b, x >>= f = .ok b := by
  rw [hx]
  exact hf

/-- A cycle count and an `int` added as unsigned words. -/
def later (clk : Nat) (delay : Int) : Nat := (((clk : Int) + delay) % 2 ^ 64).toNat

theorem later_le {clk : Nat} {delay : Int} (h : 0 ≤ delay) :
    (later clk delay : Int) ≤ clk + delay := by
  rw [later, Int.toNat_of_nonneg (Int.emod_nonneg _ (by decide))]
  omega

end Hsim.Dramsim3
