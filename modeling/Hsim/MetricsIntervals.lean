import Hsim.Metrics
import Mathlib.Data.Int.ConditionallyCompleteOrder
import Mathlib.Data.Int.Interval
import Mathlib.Data.Finset.Card
import Mathlib.Order.ConditionallyCompleteLattice.Basic

/-! Busy time.

The report measures how long a device was busy as the length of the union of its
service intervals: the nanoseconds that lie in one of them. For intervals that
follow each other that length is the sum of their lengths, and for two sets of
intervals that do not overlap it is the sum of the two. -/
namespace Hsim.Metrics

/-- `static_cast<uint64_t>(end_ns - start_ns)`. -/
def lengthNs (startNs endNs : Int) : UInt64 := UInt64.ofInt (endNs - startNs)

def Interval.length (i : Interval) : UInt64 := lengthNs i.startNs i.endNs

/-- The order of the sort: by start, then by end. -/
def Interval.le (a b : Interval) : Bool :=
  if a.startNs = b.startNs then a.endNs ≤ b.endNs else a.startNs < b.startNs

/-- The scan over the sorted intervals, with the stretch it is extending. -/
def sweep (total : UInt64) (activeStart activeEnd : Int) : List Interval → UInt64
  | [] => total + lengthNs activeStart activeEnd
  | i :: rest =>
    if activeEnd < i.startNs then
      sweep (total + lengthNs activeStart activeEnd) i.startNs i.endNs rest
    else sweep total activeStart (max activeEnd i.endNs) rest

def intervalUnionNs (intervals : List Interval) : UInt64 :=
  match (intervals.filter fun i => ¬ i.endNs ≤ i.startNs).mergeSort Interval.le with
  | [] => 0
  | i :: rest => sweep 0 i.startNs i.endNs (i :: rest)

/-! ### The nanoseconds covered -/

/-- The nanoseconds that lie in one of the intervals. -/
noncomputable def covered : List Interval → Finset Int
  | [] => ∅
  | i :: rest => Finset.Ico i.startNs i.endNs ∪ covered rest

theorem mem_covered {intervals : List Interval} {x : Int} :
    x ∈ covered intervals ↔ ∃ i ∈ intervals, i.startNs ≤ x ∧ x < i.endNs := by
  induction intervals with
  | nil => simp [covered]
  | cons i rest ih => simp [covered, ih]

theorem covered_append (a b : List Interval) : covered (a ++ b) = covered a ∪ covered b := by
  ext x
  simp only [Finset.mem_union, mem_covered, List.mem_append, or_and_right, exists_or]

theorem covered_perm {a b : List Interval} (h : a.Perm b) : covered a = covered b := by
  ext x
  simp only [mem_covered, h.mem_iff]

/-- An interval without a nanosecond covers nothing. -/
theorem covered_filter (intervals : List Interval) :
    covered (intervals.filter fun i => ¬ i.endNs ≤ i.startNs) = covered intervals := by
  ext x
  simp only [mem_covered, List.mem_filter, decide_eq_true_eq]
  constructor
  · rintro ⟨i, ⟨hi, -⟩, hx⟩
    exact ⟨i, hi, hx⟩
  · rintro ⟨i, hi, hx⟩
    exact ⟨i, ⟨hi, by omega⟩, hx⟩

theorem lengthNs_eq_card {a b : Int} (h : a ≤ b) :
    lengthNs a b = UInt64.ofNat (Finset.Ico a b).card := by
  have hcast : b - a = ((b - a).toNat : Int) := by omega
  apply UInt64.toNat_inj.mp
  rw [Int.card_Ico, lengthNs, UInt64.ofInt, UInt64.toNat_ofNat', UInt64.toNat_ofNat', hcast]
  omega

/-- The scan counts what its active stretch and the rest of the list cover. -/
theorem sweep_eq_card (total : UInt64) (a b : Int) (intervals : List Interval) (hab : a ≤ b)
    (ha : ∀ i ∈ intervals, a ≤ i.startNs) (hproper : ∀ i ∈ intervals, i.startNs ≤ i.endNs)
    (hsorted : intervals.Pairwise (·.startNs ≤ ·.startNs)) :
    sweep total a b intervals =
      total + UInt64.ofNat (Finset.Ico a b ∪ covered intervals).card := by
  induction intervals generalizing total a b with
  | nil => simp [sweep, covered, lengthNs_eq_card hab]
  | cons i rest ih =>
    obtain ⟨hi, hrest⟩ := List.pairwise_cons.mp hsorted
    have hproper' : ∀ j ∈ rest, j.startNs ≤ j.endNs :=
      fun j hj => hproper j (List.mem_cons_of_mem i hj)
    have hstart : a ≤ i.startNs := ha i List.mem_cons_self
    have hend : i.startNs ≤ i.endNs := hproper i List.mem_cons_self
    simp only [sweep]
    split
    · -- a gap: everything that is left starts behind the active stretch
      rename_i hgap
      have hdisjoint : Disjoint (Finset.Ico a b) (covered (i :: rest)) := by
        rw [Finset.disjoint_left]
        intro x hx hx'
        obtain ⟨j, hj, hjx⟩ := mem_covered.mp hx'
        have hij : i.startNs ≤ j.startNs := by
          rcases List.mem_cons.mp hj with rfl | hj
          · exact le_rfl
          · exact hi j hj
        have := (Finset.mem_Ico.mp hx).2
        omega
      rw [ih _ _ _ hend hi hproper' hrest, Finset.card_union_of_disjoint hdisjoint,
        UInt64.ofNat_add, ← lengthNs_eq_card hab, UInt64.add_assoc]
      rfl
    · rename_i hno
      have hjoin : Finset.Ico a b ∪ Finset.Ico i.startNs i.endNs =
          Finset.Ico a (max b i.endNs) := by
        ext x
        simp only [Finset.mem_union, Finset.mem_Ico]
        omega
      rw [ih _ _ _ (by omega) (fun j hj => hstart.trans (hi j hj)) hproper' hrest, ← hjoin,
        covered, Finset.union_assoc]

theorem Interval.le_trans (a b c : Interval) (hab : Interval.le a b = true)
    (hbc : Interval.le b c = true) : Interval.le a c = true := by
  simp only [Interval.le] at *
  split at hab <;> split at hbc <;> split <;> simp only [decide_eq_true_eq] at * <;> omega

theorem Interval.le_total (a b : Interval) : (Interval.le a b || Interval.le b a) = true := by
  simp only [Interval.le]
  split <;> split <;> simp only [Bool.or_eq_true, decide_eq_true_eq] <;> omega

theorem Interval.start_le {a b : Interval} (h : Interval.le a b = true) :
    a.startNs ≤ b.startNs := by
  simp only [Interval.le] at h
  split at h <;> simp only [decide_eq_true_eq] at h <;> omega

/-- The reported length is the number of nanoseconds covered. -/
theorem intervalUnionNs_eq_card (intervals : List Interval) :
    intervalUnionNs intervals = UInt64.ofNat (covered intervals).card := by
  let kept := intervals.filter fun i => ¬ i.endNs ≤ i.startNs
  have hperm : (kept.mergeSort Interval.le).Perm kept := List.mergeSort_perm kept Interval.le
  have hcovered : covered (kept.mergeSort Interval.le) = covered intervals :=
    (covered_perm hperm).trans (covered_filter intervals)
  have hproper : ∀ i ∈ kept.mergeSort Interval.le, i.startNs ≤ i.endNs := by
    intro i hi
    have hkept := (List.mem_filter.mp (hperm.mem_iff.mp hi)).2
    simp only [decide_eq_true_eq] at hkept
    omega
  have hsorted : (kept.mergeSort Interval.le).Pairwise (·.startNs ≤ ·.startNs) :=
    (List.pairwise_mergeSort Interval.le_trans Interval.le_total kept).imp Interval.start_le
  rw [intervalUnionNs, ← hcovered]
  generalize kept.mergeSort Interval.le = sorted at hproper hsorted
  cases sorted with
  | nil => rfl
  | cons i rest =>
    have hfirst : ∀ j ∈ i :: rest, i.startNs ≤ j.startNs := by
      intro j hj
      rcases List.mem_cons.mp hj with rfl | hj
      · exact le_rfl
      · exact (List.pairwise_cons.mp hsorted).1 j hj
    have hi := hproper i List.mem_cons_self
    show sweep 0 i.startNs i.endNs (i :: rest) = _
    rw [sweep_eq_card 0 _ _ _ hi hfirst hproper hsorted, UInt64.zero_add, covered,
      ← Finset.union_assoc, Finset.union_self]

/-- Intervals that do not overlap; they may touch. -/
def Interval.Apart (i j : Interval) : Prop := i.endNs ≤ j.startNs ∨ j.endNs ≤ i.startNs

/-- Two sets of intervals that do not overlap are together busy for the sum of the two. -/
theorem intervalUnionNs_append {a b : List Interval} (h : ∀ i ∈ a, ∀ j ∈ b, i.Apart j) :
    intervalUnionNs (a ++ b) = intervalUnionNs a + intervalUnionNs b := by
  have hdisjoint : Disjoint (covered a) (covered b) := by
    rw [Finset.disjoint_left]
    intro x hx hx'
    obtain ⟨i, hi, hix⟩ := mem_covered.mp hx
    obtain ⟨j, hj, hjx⟩ := mem_covered.mp hx'
    rcases h i hi j hj with hij | hji <;> omega
  rw [intervalUnionNs_eq_card, intervalUnionNs_eq_card, intervalUnionNs_eq_card, covered_append,
    Finset.card_union_of_disjoint hdisjoint, UInt64.ofNat_add]

/-- Intervals one after the other, possibly touching. -/
def InOrder (intervals : List Interval) : Prop := intervals.Pairwise (·.endNs ≤ ·.startNs)

/-- Intervals that follow each other are busy for the sum of their lengths. -/
theorem intervalUnionNs_inOrder (intervals : List Interval)
    (hproper : ∀ i ∈ intervals, i.startNs ≤ i.endNs) (h : InOrder intervals) :
    intervalUnionNs intervals = (intervals.map Interval.length).sum := by
  induction intervals with
  | nil =>
    rw [intervalUnionNs_eq_card]
    rfl
  | cons i rest ih =>
    obtain ⟨hi, hrest⟩ := List.pairwise_cons.mp h
    have hproper' : ∀ j ∈ rest, j.startNs ≤ j.endNs :=
      fun j hj => hproper j (List.mem_cons_of_mem i hj)
    have hone : intervalUnionNs [i] = i.length := by
      rw [intervalUnionNs_eq_card, Interval.length,
        lengthNs_eq_card (hproper i List.mem_cons_self), covered, covered, Finset.union_empty]
    have hapart : ∀ j ∈ [i], ∀ l ∈ rest, j.Apart l := by
      intro j hj l hl
      obtain rfl := List.mem_singleton.mp hj
      exact .inl (hi l hl)
    rw [← List.singleton_append, intervalUnionNs_append hapart, hone, ih hproper' hrest]
    simp

/-! ### What the report writes -/

/-- `busy_ns` of `write_traffic_json`. -/
def TrafficStats.busyNs (t : TrafficStats) : UInt64 := intervalUnionNs t.serviceIntervals

/-- `device_busy_ns` of `write_device_json`. -/
def DeviceStats.deviceBusyNs (stats : DeviceStats) : UInt64 :=
  intervalUnionNs (stats.memory.serviceIntervals ++ stats.compute.serviceIntervals)

end Hsim.Metrics
