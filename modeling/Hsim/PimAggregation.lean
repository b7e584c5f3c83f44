import Hsim.HostTrace
import Mathlib.Tactic.Linarith
import Mathlib.Algebra.Order.BigOperators.Group.List
import Mathlib.Algebra.BigOperators.Ring.Finset
import Mathlib.Algebra.BigOperators.Ring.List

/-! The time of an aggregated PIM operation against that of its micro commands.

The macro transaction scales and rounds the whole stream once; the micro
transactions are scaled, rounded and raised to a nanosecond one by one. Every
micro command so carries an error of its own, and over a stream the errors add
up. -/
namespace Hsim.Host

/-- The engine time of a list of PIM commands. -/
def occupancy (transactions : List Payload) : Time := (transactions.map Bridge.computeDelay).sum

/-- A quantity of each command, added up over the tile-expanded stream. -/
def streamSum (profile : PIMCmdProfile) (tileCount : UInt32) (f : UInt32 → ℚ) : ℚ :=
  (profile.orderedCmdName.map fun name =>
    tileCount.toNat * (profile.get name).count.toNat * f (profile.get name).delay).sum

/-- The scaled time of the stream, half a nanosecond a command included, before any
rounding. -/
def exactTotalNs (profile : PIMCmdProfile) (tileCount : UInt32) : ℚ :=
  streamSum profile tileCount fun delay => (delay.toNat + 1 / 2) * profile.channelLatencyScale

/-- By how much a micro command takes longer than its part of the exact total: the
rounding of its delay, and the half nanosecond that is not scaled. -/
def roundingErrorNs (profile : PIMCmdProfile) (delay : UInt32) : ℚ :=
  let exact := delay.toNat * profile.channelLatencyScale
  (max 1 (round exact) - exact) + (1 - profile.channelLatencyScale) / 2

/-- The errors of a stream. -/
def accumulatedErrorNs (profile : PIMCmdProfile) (tileCount : UInt32) : ℚ :=
  streamSum profile tileCount (roundingErrorNs profile)

variable (profile : PIMCmdProfile) (tileCount : UInt32)

/-! ### Sums over a stream -/

theorem streamSum_add (f g : UInt32 → ℚ) : streamSum profile tileCount (fun d => f d + g d) =
    streamSum profile tileCount f + streamSum profile tileCount g := by
  simp only [streamSum, mul_add, List.sum_map_add]

theorem streamSum_mul (f : UInt32 → ℚ) (c : ℚ) :
    streamSum profile tileCount (fun d => f d * c) = streamSum profile tileCount f * c := by
  simp only [streamSum, ← mul_assoc, List.sum_map_mul_right]

theorem streamSum_mono {f g : UInt32 → ℚ} (h : ∀ d, f d ≤ g d) :
    streamSum profile tileCount f ≤ streamSum profile tileCount g := by
  refine List.sum_le_sum fun name _ => ?_
  exact mul_le_mul_of_nonneg_left (h _) (by positivity)

/-- The sum of a natural quantity is that natural. -/
theorem streamSum_natCast (f : UInt32 → Nat) : streamSum profile tileCount (fun d => (f d : ℚ)) =
    ((profile.orderedCmdName.map fun name =>
      tileCount.toNat * (profile.get name).count.toNat * f (profile.get name).delay).sum : Nat) := by
  simp [streamSum, Nat.cast_list_sum, Function.comp_def, List.map_map]

/-! ### What the two emissions take -/

theorem occupancy_append (a b : List Payload) : occupancy (a ++ b) = occupancy a + occupancy b := by
  simp [occupancy]

theorem occupancy_flatMap {α : Type} (xs : List α) (f : α → List Payload) :
    occupancy (xs.flatMap f) = (xs.map fun x => occupancy (f x)).sum := by
  induction xs with
  | nil => rfl
  | cons x xs ih => rw [List.flatMap_cons, occupancy_append, ih, List.map_cons, List.sum_cons]

theorem computeDelay_generateTrans (addr burstId burstSize : UInt32) (layer microCmd : String) :
    Bridge.computeDelay (generateTrans addr burstId burstSize layer microCmd) =
      ns addr.toNat + halfNs := rfl

/-- The micro commands' time, in picoseconds. -/
theorem occupancy_microTransactions (layer : String) :
    (occupancy (microTransactions profile tileCount layer) : ℚ) =
      streamSum profile tileCount (fun delay => (scaledDelay profile delay).toNat + 1 / 2) * 1000 := by
  have hname : ∀ name, occupancy ((List.range (profile.get name).count.toNat).map fun burst =>
      generateTrans (scaledDelay profile (profile.get name).delay) (.ofNat burst)
        (profile.get name).count layer name) =
      (profile.get name).count.toNat * (1000 * (scaledDelay profile (profile.get name).delay).toNat + 500) := by
    intro name
    simp [occupancy, computeDelay_generateTrans, Function.comp_def, ns, halfNs]
  have hps : ∀ delay : UInt32, ((scaledDelay profile delay).toNat + 1 / 2 : ℚ) * 1000 =
      (1000 * (scaledDelay profile delay).toNat + 500 : Nat) := by
    intro delay
    push_cast
    ring
  rw [← streamSum_mul]
  simp only [hps]
  rw [streamSum_natCast, microTransactions, occupancy_flatMap]
  simp only [occupancy_flatMap, hname]
  simp only [List.map_const', List.length_range, List.sum_replicate, nsmul_eq_mul, Nat.cast_id,
    mul_assoc, List.sum_map_mul_left]

/-! ### Rounding -/

theorem le_round (x : ℚ) : x - 1 / 2 ≤ round x := by
  rw [round]
  split
  · have hfloor := Rat.lt_floor_add_one (x + 1 / 2)
    push_cast at hfloor
    linarith
  · exact Rat.le_ceil

theorem round_le {x : ℚ} (hx : 0 ≤ x) : (round x : ℚ) ≤ x + 1 / 2 := by
  rw [round, if_pos hx]
  exact Rat.floor_le _

/-- Half less than a number rounds to its floor. -/
theorem round_sub_half {x : ℚ} (hx : 0 ≤ x) : max 0 (round (x - 1 / 2)) = x.floor := by
  have hfloor : 0 ≤ x.floor := Rat.le_floor_iff.mpr hx
  rw [round]
  split
  · rw [sub_add_cancel, max_eq_right hfloor]
  · next hhalf =>
    have hceil : (x - 1 / 2 - 1 / 2).ceil ≤ 0 := Rat.ceil_le_iff.mpr (by push_cast; linarith)
    have hzero : x.floor < 1 := Rat.floor_lt_iff.mpr (by push_cast; linarith)
    rw [max_eq_left hceil]
    omega

section
variable {profile} (hpos : 0 < profile.channelLatencyScale) (hle : profile.channelLatencyScale ≤ 1)
include hpos hle

/-- The rounded delay of a micro command fits its 32 bits. -/
theorem scaledDelay_toNat (delay : UInt32) : ((scaledDelay profile delay).toNat : ℚ) =
    max 1 ((round (delay.toNat * profile.channelLatencyScale) : Int) : ℚ) := by
  have hdelay : (delay.toNat : ℚ) * profile.channelLatencyScale ≤ delay.toNat :=
    mul_le_of_le_one_right (Nat.cast_nonneg _) hle
  have hround : round (delay.toNat * profile.channelLatencyScale) < 2 ^ 32 := by
    have hup := round_le (mul_nonneg (Nat.cast_nonneg delay.toNat) hpos.le)
    have hlt : (delay.toNat : ℚ) + 1 ≤ 2 ^ 32 := by exact_mod_cast delay.toNat_lt
    have : (round (delay.toNat * profile.channelLatencyScale) : ℚ) < 2 ^ 32 := by linarith
    exact_mod_cast this
  have hnat : (scaledDelay profile delay).toNat =
      (max 1 (round (delay.toNat * profile.channelLatencyScale))).toNat := by
    rw [scaledDelay, UInt32.toNat_ofNat']
    omega
  have hcast : ((max 1 (round (delay.toNat * profile.channelLatencyScale))).toNat : Int) =
      max 1 (round (delay.toNat * profile.channelLatencyScale)) := by omega
  rw [hnat, ← Int.cast_natCast, hcast]
  push_cast
  rfl

/-- The micro commands take the exact total and the errors. -/
theorem microTotal_eq : streamSum profile tileCount
    (fun delay => ((scaledDelay profile delay).toNat + 1 / 2 : ℚ)) =
      exactTotalNs profile tileCount + accumulatedErrorNs profile tileCount := by
  rw [exactTotalNs, accumulatedErrorNs, ← streamSum_add]
  congr 1
  funext delay
  rw [scaledDelay_toNat hpos hle, roundingErrorNs]
  push_cast
  ring

end

/-! ### The macro -/

/-- The number of commands of a stream, and the sum of their latencies. -/
def commandCount : Nat := (profile.orderedCmdName.map fun name =>
  tileCount.toNat * (profile.get name).count.toNat * 1).sum

def latencySum : Nat := (profile.orderedCmdName.map fun name =>
  tileCount.toNat * (profile.get name).count.toNat * (profile.get name).delay.toNat).sum

theorem commandCount_cast :
    (commandCount profile tileCount : ℚ) = streamSum profile tileCount fun _ => 1 := by
  rw [commandCount, ← streamSum_natCast profile tileCount fun _ => 1]
  simp

theorem latencySum_cast :
    (latencySum profile tileCount : ℚ) = streamSum profile tileCount fun d => (d.toNat : ℚ) :=
  (streamSum_natCast profile tileCount UInt32.toNat).symm

/-- Both sums over some layers, added up in 64 bits. -/
theorem summedDelayNs_eq (layers : UInt32) : summedDelayNs profile tileCount layers =
    UInt64.ofNat (latencySum profile tileCount * layers.toNat) := by
  rw [summedDelayNs, latencySum, ← List.sum_map_mul_right, ← sum_ofNat, List.map_map]
  congr 2
  funext name
  simp only [Function.comp_apply, ← UInt64.ofNat_uInt32ToNat, ← UInt64.ofNat_mul]
  congr 1
  ring

theorem microCommandCount_eq (layers : UInt32) : microCommandCount profile tileCount layers =
    UInt64.ofNat (commandCount profile tileCount * layers.toNat) := by
  rw [microCommandCount, commandCount, ← List.sum_map_mul_right, ← sum_ofNat, List.map_map]
  congr 2
  funext name
  simp only [Function.comp_apply, ← UInt64.ofNat_uInt32ToNat, ← UInt64.ofNat_mul]
  congr 1
  ring

/-- The exact total, from the two sums. -/
theorem exactTotalNs_eq : exactTotalNs profile tileCount =
    ((latencySum profile tileCount : ℚ) + 1 / 2 * commandCount profile tileCount) *
      profile.channelLatencyScale := by
  rw [latencySum_cast, commandCount_cast, mul_comm (1 / 2 : ℚ), ← streamSum_mul, ← streamSum_add,
    ← streamSum_mul, exactTotalNs]
  simp only [one_mul]

theorem exactTotalNs_nonneg (hpos : 0 < profile.channelLatencyScale) :
    0 ≤ exactTotalNs profile tileCount := by
  rw [exactTotalNs_eq]
  positivity

/-- Without an overflow the macro's delay is the floor of the exact total, in 32 bits. -/
theorem macroDelayNs_eq (hpos : 0 < profile.channelLatencyScale)
    (hsum : latencySum profile tileCount < 2 ^ 64) (hcount : commandCount profile tileCount < 2 ^ 64) :
    (macroDelayNs profile tileCount 1).toUInt32.toNat =
      (exactTotalNs profile tileCount).floor.toNat % 2 ^ 32 := by
  rw [macroDelayNs, summedDelayNs_eq, microCommandCount_eq, UInt32.toNat_one, Nat.mul_one, Nat.mul_one,
    UInt64.toNat_ofNat_of_lt' hsum, UInt64.toNat_ofNat_of_lt' hcount, ← exactTotalNs_eq,
    round_sub_half (exactTotalNs_nonneg profile tileCount hpos), UInt64.toNat_toUInt32,
    UInt64.toNat_ofNat']
  omega

/-! ### Agreement -/

section
variable {profile} (hpos : 0 < profile.channelLatencyScale) (hle : profile.channelLatencyScale ≤ 1)
include hpos hle

/-- A micro command takes at least a nanosecond and a half, and at least its scaled
latency. -/
theorem commandCount_le : 3 / 2 * (commandCount profile tileCount : ℚ) ≤ streamSum profile tileCount
    (fun delay => ((scaledDelay profile delay).toNat + 1 / 2 : ℚ)) := by
  rw [commandCount_cast, mul_comm, ← streamSum_mul]
  refine streamSum_mono _ _ fun delay => ?_
  rw [scaledDelay_toNat hpos hle]
  have := le_max_left 1 ((round (delay.toNat * profile.channelLatencyScale) : Int) : ℚ)
  linarith

/-- The exact total is at most a third above the micro commands' time. -/
theorem exactTotalNs_le : 3 / 4 * exactTotalNs profile tileCount ≤ streamSum profile tileCount
    (fun delay => ((scaledDelay profile delay).toNat + 1 / 2 : ℚ)) := by
  rw [exactTotalNs, mul_comm, ← streamSum_mul]
  refine streamSum_mono _ _ fun delay => ?_
  rw [scaledDelay_toNat hpos hle]
  have hone := le_max_left 1 ((round (delay.toNat * profile.channelLatencyScale) : Int) : ℚ)
  have hround := le_max_right 1 ((round (delay.toNat * profile.channelLatencyScale) : Int) : ℚ)
  have hbelow := le_round (delay.toNat * profile.channelLatencyScale)
  linarith

/-- A stream that takes at most 2^32 ns overflows no 64-bit sum. -/
theorem no_overflow (h : streamSum profile tileCount
    (fun delay => ((scaledDelay profile delay).toNat + 1 / 2 : ℚ)) ≤ 2 ^ 32) :
    latencySum profile tileCount < 2 ^ 64 ∧ commandCount profile tileCount < 2 ^ 64 := by
  have hcount : commandCount profile tileCount < 2 ^ 32 := by
    have := commandCount_le tileCount hpos hle
    have hlt : (commandCount profile tileCount : ℚ) < 2 ^ 32 := by linarith
    exact_mod_cast hlt
  have hlatency : latencySum profile tileCount ≤ commandCount profile tileCount * 2 ^ 32 := by
    rw [latencySum, commandCount, ← List.sum_map_mul_right]
    refine List.sum_le_sum fun name _ => ?_
    rw [mul_one]
    exact Nat.mul_le_mul_left _ (profile.get name).delay.toNat_lt.le
  omega

omit hpos hle in
/-- A delay that is a total's floor modulo 2^32, and is near a time that is not far below
the total, is the floor itself. -/
theorem window_iff {total micro : ℚ} {delay : Nat} (hnonneg : 0 ≤ total)
    (hquarter : 3 / 4 * total ≤ micro) (hdelay : delay < 2 ^ 32)
    (heq : micro ≤ 2 ^ 32 → delay = total.floor.toNat % 2 ^ 32) :
    ((delay : ℚ) ≤ micro ∧ micro ≤ delay + 1) ↔
      total < 2 ^ 32 ∧ total.floor ≤ micro ∧ micro ≤ total.floor + 1 := by
  obtain ⟨k, hk⟩ := Int.eq_ofNat_of_zero_le (Rat.le_floor_iff.mpr hnonneg : 0 ≤ total.floor)
  have hfloor := Rat.floor_le total
  have hfloorLt := Rat.lt_floor_add_one total
  have hdelayLe : (delay : ℚ) + 1 ≤ 2 ^ 32 := by exact_mod_cast hdelay
  rw [hk] at hfloor hfloorLt ⊢
  rw [hk, Int.toNat_natCast] at heq
  push_cast at hfloor hfloorLt ⊢
  constructor
  · rintro ⟨hlow, hhigh⟩
    have hmod := heq (by linarith)
    have hthree : 3 * k ≤ 4 * (delay + 1) := by
      have : (3 * k : ℚ) ≤ 4 * (delay + 1) := by linarith
      exact_mod_cast this
    have hsame : delay = k := by omega
    rw [hsame] at hlow hhigh hdelayLe
    exact ⟨by linarith, hlow, hhigh⟩
  · rintro ⟨hsmall, hlow, hhigh⟩
    have hkLt : k < 2 ^ 32 := by
      have : (k : ℚ) < 2 ^ 32 := by linarith
      exact_mod_cast this
    have hkLe : (k : ℚ) + 1 ≤ 2 ^ 32 := by exact_mod_cast hkLt
    have hsame : delay = k := by
      rw [heq (by linarith)]
      omega
    rw [hsame]
    exact ⟨hlow, hhigh⟩

/-- The macro transaction takes as long as the micro transactions, to half a nanosecond,
while the total fits the 32-bit delay and the errors of the micro commands carry the
exact total no further than the next whole nanoseconds. -/
theorem within_half_iff_errors (layer opName : String) :
    |(occupancy [macroTransaction profile tileCount 1 layer opName] : Int) -
        occupancy (microTransactions profile tileCount layer)| ≤ halfNs ↔
      exactTotalNs profile tileCount < 2 ^ 32 ∧
        0 ≤ Int.fract (exactTotalNs profile tileCount) + accumulatedErrorNs profile tileCount ∧
        Int.fract (exactTotalNs profile tileCount) + accumulatedErrorNs profile tileCount ≤ 1 := by
  generalize hmicro : streamSum profile tileCount
    (fun delay => ((scaledDelay profile delay).toNat + 1 / 2 : ℚ)) = micro
  generalize hdelay : (macroDelayNs profile tileCount 1).toUInt32.toNat = delay
  have htotal := microTotal_eq tileCount hpos hle
  have hquarter := exactTotalNs_le tileCount hpos hle
  rw [hmicro] at htotal hquarter
  -- in nanoseconds, the macro's time is half past its delay
  have hwindow : |(occupancy [macroTransaction profile tileCount 1 layer opName] : Int) -
      occupancy (microTransactions profile tileCount layer)| ≤ halfNs ↔
      (delay : ℚ) ≤ micro ∧ micro ≤ delay + 1 := by
    have hone : occupancy [macroTransaction profile tileCount 1 layer opName] = 1000 * delay + 500 := by
      rw [← hdelay]
      rfl
    have hmany := occupancy_microTransactions profile tileCount layer
    rw [hmicro] at hmany
    rw [hone, ← Int.cast_le (R := ℚ), Int.cast_abs, abs_le]
    push_cast
    rw [hmany, halfNs]
    push_cast
    constructor
    · intro h
      constructor <;> linarith
    · intro h
      constructor <;> linarith
  have hdelayEq : micro ≤ 2 ^ 32 →
      delay = (exactTotalNs profile tileCount).floor.toNat % 2 ^ 32 := by
    intro hmicroLe
    obtain ⟨hsum, hcount⟩ := no_overflow tileCount hpos hle (hmicro ▸ hmicroLe)
    rw [← hdelay, macroDelayNs_eq profile tileCount hpos hsum hcount]
  have hdelayLt : delay < 2 ^ 32 := hdelay ▸ UInt32.toNat_lt _
  have hfract : Int.fract (exactTotalNs profile tileCount) =
      exactTotalNs profile tileCount - (exactTotalNs profile tileCount).floor := rfl
  rw [hwindow, window_iff (exactTotalNs_nonneg profile tileCount hpos) hquarter hdelayLt hdelayEq,
    hfract, htotal]
  constructor
  · rintro ⟨hsmall, hlow, hhigh⟩
    exact ⟨hsmall, by linarith, by linarith⟩
  · rintro ⟨hsmall, hlow, hhigh⟩
    exact ⟨hsmall, by linarith, by linarith⟩

end

/-! ### Where nothing is rounded -/

/-- The scaled latency of every command that is issued is a whole number of nanoseconds,
and not zero. -/
def ScalesExactly (profile : PIMCmdProfile) : Prop :=
  ∀ name ∈ profile.orderedCmdName, (profile.get name).count ≠ 0 →
    ∃ k : Nat, 1 ≤ k ∧ (profile.get name).delay.toNat * profile.channelLatencyScale = k

theorem round_natCast (k : Nat) : round (k : ℚ) = k := by
  have hfloor : ⌊(k : ℚ) + 1 / 2⌋ = k := by
    rw [Int.floor_eq_iff]
    constructor <;> norm_num
  rw [round, if_pos (Nat.cast_nonneg k)]
  exact hfloor

/-- A measure of the commands that are issued. -/
theorem streamSum_congr {f g : UInt32 → ℚ} (h : ∀ name ∈ profile.orderedCmdName,
    (profile.get name).count ≠ 0 → f (profile.get name).delay = g (profile.get name).delay) :
    streamSum profile tileCount f = streamSum profile tileCount g := by
  refine congrArg List.sum (List.map_congr_left fun name hname => ?_)
  by_cases hcount : (profile.get name).count = 0
  · simp [hcount]
  · rw [h name hname hcount]

/-- Of `n` halves, scaled and cut to a whole number, all are left but for one or two. -/
theorem halves_kept_iff (n : Nat) (scale : ℚ) :
    (n : Int) ≤ 2 * ⌊n * scale / 2⌋ + 2 ↔ n * (1 - scale) ≤ if Even n then 2 else 1 := by
  obtain ⟨m, rfl | rfl⟩ := Nat.even_or_odd' n
  · have hkept : ((2 * m : Nat) : Int) ≤ 2 * ⌊((2 * m : Nat) : ℚ) * scale / 2⌋ + 2 ↔
        (m : Int) - 1 ≤ ⌊((2 * m : Nat) : ℚ) * scale / 2⌋ := by omega
    rw [hkept, Int.le_floor, if_pos (even_two_mul m)]
    push_cast
    constructor <;> intro h <;> linarith
  · have hkept : ((2 * m + 1 : Nat) : Int) ≤ 2 * ⌊((2 * m + 1 : Nat) : ℚ) * scale / 2⌋ + 2 ↔
        (m : Int) ≤ ⌊((2 * m + 1 : Nat) : ℚ) * scale / 2⌋ := by omega
    rw [hkept, Int.le_floor, if_neg (Nat.not_even_two_mul_add_one m)]
    push_cast
    constructor <;> intro h <;> linarith

section
variable {profile} (hexact : ScalesExactly profile)
include hexact

/-- The scaled latencies add up to a whole number. -/
theorem scaledSum_eq : ∃ total : Nat,
    (streamSum profile tileCount fun d => d.toNat * profile.channelLatencyScale) = total := by
  have hround : (streamSum profile tileCount fun d => d.toNat * profile.channelLatencyScale) =
      streamSum profile tileCount fun d =>
        ((round (d.toNat * profile.channelLatencyScale)).toNat : ℚ) := by
    refine streamSum_congr profile tileCount fun name hname hcount => ?_
    obtain ⟨k, -, hk⟩ := hexact name hname hcount
    rw [hk, round_natCast, Int.toNat_natCast]
  exact ⟨_, hround.trans (streamSum_natCast profile tileCount _)⟩

/-- Only the half nanoseconds of the commands are left, which the micro commands do not
scale. -/
theorem accumulatedErrorNs_eq : accumulatedErrorNs profile tileCount =
    commandCount profile tileCount * ((1 - profile.channelLatencyScale) / 2) := by
  rw [commandCount_cast, ← streamSum_mul, accumulatedErrorNs]
  refine streamSum_congr profile tileCount fun name hname hcount => ?_
  obtain ⟨k, hk, heq⟩ := hexact name hname hcount
  have hmax : max 1 (k : Int) = k := max_eq_right (by exact_mod_cast hk)
  rw [roundingErrorNs, heq, round_natCast, hmax, Int.cast_natCast]
  ring

/-- The part of the exact total that is not whole is that of the scaled half nanoseconds. -/
theorem fract_exactTotalNs : Int.fract (exactTotalNs profile tileCount) =
    Int.fract (commandCount profile tileCount * profile.channelLatencyScale / 2) := by
  obtain ⟨total, htotal⟩ := scaledSum_eq tileCount hexact
  have hsplit : exactTotalNs profile tileCount =
      commandCount profile tileCount * profile.channelLatencyScale / 2 + total := by
    rw [exactTotalNs_eq, latencySum_cast, ← htotal, streamSum_mul]
    ring
  rw [hsplit, Int.fract_add_natCast]

end

/-- An operation of one command, issued `count` times a tile. -/
def oneCommand (delay count : UInt32) (scale : Rat) : PIMCmdProfile where
  cmdMap := [("mac", {
    delay := delay
    count := count})]
  orderedCmdName := ["mac"]
  channelLatencyScale := scale

end Hsim.Host
