import Hsim.Lib.Ranks
import Mathlib.Algebra.Order.Field.Rat
import Mathlib.Data.UInt
import Mathlib.Tactic.Linarith

/-! The 95th percentile of the queue waits, `percentile95`.

The samples are sorted, and the one at the rounded-up 95% of their number, counted
from one, is taken. With the product `size * 0.95` exact this is the nearest-rank
percentile: the least sample that 95% of all samples do not exceed. -/
namespace Hsim.Metrics

/-- `ceil(size * 0.95) - 1`. -/
def percentileIndex (size : Nat) : Nat := ((size : Rat) * (19 / 20)).ceil.toNat - 1

/-- `none` for a position outside of the samples. -/
def percentile95 (samples : List UInt64) : Option UInt64 :=
  if samples.isEmpty then some 0
  else
    let samples := samples.mergeSort
    samples[min (percentileIndex samples.length) (samples.length - 1)]?

/-! ### The index -/

/-- The index is the last one below 95% of the size. -/
theorem percentileIndex_bounds {size : Nat} (h : 0 < size) :
    (percentileIndex size : Rat) < size * (19 / 20) ∧
    (size : Rat) * (19 / 20) ≤ percentileIndex size + 1 := by
  have hsize : (0 : Rat) < size := Nat.cast_pos.mpr h
  have hpos : 0 < ((size : Rat) * (19 / 20)).ceil := by
    rw [Rat.lt_ceil_iff]
    push_cast
    positivity
  have hindex : (percentileIndex size : Int) = ((size : Rat) * (19 / 20)).ceil - 1 := by
    rw [percentileIndex]
    omega
  have hcast : (percentileIndex size : Rat) = (((size : Rat) * (19 / 20)).ceil : Rat) - 1 := by
    exact_mod_cast congrArg (Int.cast : Int → Rat) hindex
  have hlow := Rat.ceil_lt (x := (size : Rat) * (19 / 20))
  have hhigh := Rat.le_ceil (x := (size : Rat) * (19 / 20))
  constructor <;> linarith

/-- The index is in range, and the minimum with the last index is idle. -/
theorem percentileIndex_lt {size : Nat} (h : 0 < size) : percentileIndex size < size := by
  have hsize : (0 : Rat) < size := Nat.cast_pos.mpr h
  have hlt : (percentileIndex size : Rat) < size := by linarith [(percentileIndex_bounds h).1]
  exact_mod_cast hlt

/-! ### The sample -/

/-- The sample is the one at the index among the sorted samples. -/
theorem percentile95_eq {samples : List UInt64} (h : samples ≠ []) :
    ∃ hi : percentileIndex samples.length < (samples.mergeSort (· ≤ ·)).length,
      percentile95 samples = some (samples.mergeSort (· ≤ ·))[percentileIndex samples.length] := by
  have hlt := percentileIndex_lt (List.length_pos_iff.mpr h)
  have hlength : (samples.mergeSort (· ≤ ·)).length = samples.length := List.length_mergeSort samples
  have hi : percentileIndex samples.length < (samples.mergeSort (· ≤ ·)).length := by rwa [hlength]
  have hmin : min (percentileIndex samples.length) (samples.length - 1) = percentileIndex samples.length :=
    min_eq_left (by omega)
  refine ⟨hi, ?_⟩
  rw [percentile95, if_neg (by simpa using h)]
  dsimp only
  rw [hlength, hmin]
  exact List.getElem?_eq_getElem hi

/-- **`percentile95` is the nearest-rank percentile.** The index is in range, and the
sample there is one that at least 95% of the samples do not exceed and fewer than 95% stay
below. -/
theorem percentile95_nearestRank {samples : List UInt64} (h : samples ≠ []) :
    percentileIndex samples.length < samples.length ∧
      ∃ value ∈ samples, percentile95 samples = some value ∧
        (samples.length : Rat) * (19 / 20) ≤ samples.countP (· ≤ value) ∧
        (samples.countP (· < value) : Rat) < samples.length * (19 / 20) := by
  have hsize := List.length_pos_iff.mpr h
  obtain ⟨hlow, hhigh⟩ := percentileIndex_bounds hsize
  obtain ⟨hi, hvalue⟩ := percentile95_eq h
  have hsorted : (samples.mergeSort (· ≤ ·)).Pairwise (· ≤ ·) := List.pairwise_mergeSort' (· ≤ ·) samples
  have hperm : (samples.mergeSort (· ≤ ·)).Perm samples := List.mergeSort_perm samples _
  have hle := Lib.lt_countP_le hsorted hi
  have hlt := Lib.countP_lt_le hsorted hi
  rw [hperm.countP_eq] at hle hlt
  refine ⟨percentileIndex_lt hsize, _, hperm.mem_iff.mp (List.getElem_mem hi), hvalue, ?_, ?_⟩
  · have hcount : ((percentileIndex samples.length + 1 : Nat) : Rat) ≤ _ := Nat.cast_le.mpr hle
    push_cast at hcount
    exact hhigh.trans hcount
  · have hcount : ((_ : Nat) : Rat) ≤ percentileIndex samples.length := Nat.cast_le.mpr hlt
    exact hcount.trans_lt hlow

/-- Twenty samples, of which the largest is above the percentile. -/
def twentyWaits : List UInt64 := List.replicate 12 40 ++ [90] ++ List.replicate 6 7 ++ [52]

theorem percentile95_nearestRank_twentyWaits :
    percentileIndex twentyWaits.length < twentyWaits.length ∧
      ∃ value ∈ twentyWaits, percentile95 twentyWaits = some value ∧
        (twentyWaits.length : Rat) * (19 / 20) ≤ twentyWaits.countP (· ≤ value) ∧
        (twentyWaits.countP (· < value) : Rat) < twentyWaits.length * (19 / 20) :=
  percentile95_nearestRank (by decide)

end Hsim.Metrics
