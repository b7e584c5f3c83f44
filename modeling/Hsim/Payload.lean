import Mathlib.Data.UInt
import Mathlib.Data.List.Infix

/-! Transactions and simulated time.

A `tlm_generic_payload` is a record: the standard attributes the simulator reads
(command, address, length) and the ones it adds (source and destination module,
layer label, burst, PIM command text, last flag). The object's identity is
`ptr`; every table of the simulator that is keyed by a payload pointer is keyed
by it here. Fields keep the source's widths.

Simulated time is in picoseconds, the resolution of the kernel. -/
namespace Hsim

/-- `sc_time`, in picoseconds. -/
abbrev Time := Nat

/-- `sc_time(n, SC_NS)`. -/
def ns (n : Nat) : Time := 1000 * n

/-- `sc_time(0.5, SC_NS)`. -/
def halfNs : Time := 500

/-- `PerformanceMetrics::to_ns`: nearest nanosecond, halves away from zero. The rounding is exact
here; the code divides doubles first, which moves some halves down. -/
def toNs (t : Time) : Int := ((t + 500) / 1000 : Nat)

/-- `static_cast<int64_t>(t.to_double() / 1000)`, the cycle the log prints, with an exact quotient
in place of the double. -/
def toCycle (t : Time) : Int := (t / 1000 : Nat)

theorem toNs_nonneg (t : Time) : 0 ≤ toNs t := Int.natCast_nonneg _

theorem toNs_mono {a b : Time} (h : a ≤ b) : toNs a ≤ toNs b := by
  unfold toNs
  exact_mod_cast Nat.div_le_div_right (Nat.add_le_add_right h 500)

theorem toCycle_mono {a b : Time} (h : a ≤ b) : toCycle a ≤ toCycle b := by
  unfold toCycle
  exact_mod_cast Nat.div_le_div_right h

/-- `tlm_command`. -/
inductive Command where
  | read
  | write
  | ignore
  | compute
  | pim
  deriving DecidableEq, Repr

/-- `DeviceType`: the modules a transaction names as source or destination. -/
inductive DeviceType where
  | host
  | npu
  | pim
  | dram
  | mcu
  | none
  deriving DecidableEq, Repr

/-- `tlm_generic_payload`. `ptr` is the object's address, 0 the null pointer. `stage`
is ghost: the control record that caused the transaction. No function reads it. -/
structure Payload where
  ptr : Nat
  command : Command
  address : UInt64 := 0
  dataLength : UInt32 := 0
  bstSize : UInt32 := 0
  bstId : UInt32 := 0
  srcId : DeviceType
  dstId : DeviceType
  layer : String := ""
  pimCmd : String := ""
  last : Bool := false
  stage : Nat := 0
  deriving DecidableEq, Repr

/-- A PIM compute command; everything else a memory wrapper is handed is memory traffic. -/
def Payload.isPim (t : Payload) : Bool := t.command == .pim

/-- `text.rfind(head, 0) == 0`. -/
def startsWith (text head : String) : Bool := head.toList.isPrefixOf text.toList

theorem startsWith_append (head rest : String) : startsWith (head ++ rest) head = true := by
  simp [startsWith, String.toList_append]

/-! ### The byte count of a macro request

A tensor-sized transfer carries its 64-bit byte count in two 32-bit attributes. -/

/-- `DramMacroModel::is_macro_request`. -/
def Payload.isMacroRequest (t : Payload) : Bool := t.pimCmd == "fast_memory"

/-- `DramMacroModel::macro_bytes`. -/
def Payload.macroBytes (t : Payload) : UInt64 :=
  (t.bstSize.toUInt64 <<< 32) ||| t.dataLength.toUInt64

/-- The bytes a wrapper charges a memory transaction with on arrival. -/
def Payload.chargedBytes (t : Payload) : UInt64 :=
  if t.isMacroRequest then t.macroBytes else t.dataLength.toUInt64

/-- The low word of a 64-bit count, as `issue_fast_memory` puts it in `data_length`. -/
def lowWord (bytes : UInt64) : UInt32 := (bytes &&& 0xffffffff).toUInt32

/-- The high word, as `issue_fast_memory` puts it in `bst_size`. -/
def highWord (bytes : UInt64) : UInt32 := (bytes >>> 32).toUInt32

theorem lowWord_toNat (bytes : UInt64) : (lowWord bytes).toNat = bytes.toNat % 2 ^ 32 := by
  have hmask : bytes.toNat &&& (0xffffffff : UInt64).toNat = bytes.toNat % 2 ^ 32 := by
    rw [show (0xffffffff : UInt64).toNat = 2 ^ 32 - 1 from rfl, Nat.and_two_pow_sub_one_eq_mod]
  rw [lowWord, UInt64.toNat_toUInt32, UInt64.toNat_and, hmask, Nat.mod_mod]

theorem highWord_toNat (bytes : UInt64) : (highWord bytes).toNat = bytes.toNat / 2 ^ 32 := by
  have hlt : bytes.toNat < 2 ^ 64 := bytes.toNat_lt
  rw [highWord, UInt64.toNat_toUInt32, UInt64.toNat_shiftRight, Nat.shiftRight_eq_div_pow]
  show bytes.toNat / 2 ^ 32 % 2 ^ 32 = bytes.toNat / 2 ^ 32
  omega

/-- A count split into the two words is read back whole. -/
theorem macroBytes_words (t : Payload) (bytes : UInt64) (hl : t.dataLength = lowWord bytes)
    (hh : t.bstSize = highWord bytes) : t.macroBytes = bytes := by
  have hlt : bytes.toNat < 2 ^ 64 := bytes.toNat_lt
  apply UInt64.toNat_inj.mp
  rw [Payload.macroBytes, hl, hh, UInt64.toNat_or, UInt64.toNat_shiftLeft, UInt32.toNat_toUInt64,
    UInt32.toNat_toUInt64, lowWord_toNat, highWord_toNat, Nat.shiftLeft_eq]
  have hshift : bytes.toNat / 2 ^ 32 * 2 ^ ((32 : UInt64).toNat % 64) % 2 ^ 64 =
      2 ^ 32 * (bytes.toNat / 2 ^ 32) := by
    show bytes.toNat / 2 ^ 32 * 2 ^ 32 % 2 ^ 64 = _
    omega
  rw [hshift, ← Nat.two_pow_add_eq_or_of_lt (Nat.mod_lt _ (by decide))]
  omega

/-- Numbers added up in 64 bits are their sum, in 64 bits. -/
theorem sum_ofNat (l : List Nat) : (l.map UInt64.ofNat).sum = UInt64.ofNat l.sum := by
  induction l with
  | nil => rfl
  | cons x l ih => rw [List.map_cons, List.sum_cons, List.sum_cons, ih, UInt64.ofNat_add]

/-! ### Episode ids inside layer labels -/

/-- `text.find(pattern, pos)`: the first occurrence at or after `pos`. -/
def findFrom (text pattern : List Char) (pos : Nat) : Option Nat :=
  ((text.drop pos).tails.findIdx? (pattern.isPrefixOf ·)).map (· + pos)

/-- `episode_id_from_layer` and `episode_id_from_draft_layer`: from the first
`sample` to the digits after the next `.iter`. -/
def episodeIdFromLayer (layer : String) : String :=
  let text := layer.toList
  match findFrom text "sample".toList 0 with
  | none => ""
  | some sample =>
    match findFrom text ".iter".toList sample with
    | none => ""
    | some iter =>
      let digits := ((text.drop (iter + 5)).takeWhile Char.isDigit).length
      String.ofList ((text.drop sample).take (iter + 5 + digits - sample))

end Hsim
