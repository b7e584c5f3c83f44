import Hsim.MetricsIntervals
import Mathlib.Algebra.Order.Field.Rat
import Mathlib.Data.Set.Card
import Mathlib.Tactic.Linarith
import Mathlib.Tactic.Positivity

/-! The overlap of the actors.

`write_json` reports how long the NPU and the PIM were busy at the same time. The
two lists of intervals are each merged into stretches that are apart, and a scan
with a pointer into each list adds up what the stretches have in common. What
comes out is the number of nanoseconds that lie in an interval of both lists, so
the three figures of the report satisfy inclusion and exclusion. -/
namespace Hsim.Metrics

/-! ### Merging -/

/-- The loop body of `normalize`. The back of `merged` is the head of the list here. -/
def mergeInterval (merged : List Interval) (i : Interval) : List Interval :=
  if i.endNs ≤ i.startNs then merged
  else
    match merged with
    | [] => [i]
    | back :: earlier =>
      if back.endNs < i.startNs then i :: back :: earlier
      else {back with endNs := max back.endNs i.endNs} :: earlier

def normalize (intervals : List Interval) : List Interval :=
  ((intervals.mergeSort Interval.le).foldl mergeInterval []).reverse

/-- The scan over the merged intervals. Every round takes an interval off one of the two
lists, the one that ends first. -/
def intersect (total : UInt64) : List Interval → List Interval → UInt64
  | l :: left, r :: right =>
    let start := max l.startNs r.startNs
    let finish := min l.endNs r.endNs
    let total := if start < finish then total + lengthNs start finish else total
    if l.endNs < r.endNs then intersect total left (r :: right)
    else intersect total (l :: left) right
  | _, _ => total
termination_by lhs rhs => lhs.length + rhs.length

def intervalIntersectionNs (lhs rhs : List Interval) : UInt64 :=
  intersect 0 (normalize lhs) (normalize rhs)

/-- Intervals with a nanosecond in them, one after the other with a gap between any two. -/
structure Stretches (intervals : List Interval) : Prop where
  proper : ∀ i ∈ intervals, i.startNs < i.endNs
  apart : intervals.Pairwise (·.endNs < ·.startNs)

/-- What the merging loop has built: stretches, the last one in front, and none that
starts behind `bound`. -/
structure Merged (merged : List Interval) (bound : Int) : Prop where
  proper : ∀ i ∈ merged, i.startNs < i.endNs
  apart : merged.Pairwise (fun i j => j.endNs < i.startNs)
  started : ∀ i ∈ merged, i.startNs ≤ bound

theorem Merged.step {merged : List Interval} {bound : Int} {i : Interval} (h : Merged merged bound)
    (hi : bound ≤ i.startNs) :
    Merged (mergeInterval merged i) i.startNs ∧
      covered (mergeInterval merged i) = covered merged ∪ Finset.Ico i.startNs i.endNs := by
  have hstarted : ∀ j ∈ merged, j.startNs ≤ i.startNs := fun j hj => (h.started j hj).trans hi
  unfold mergeInterval
  split
  · next hempty =>
    refine ⟨⟨h.proper, h.apart, hstarted⟩, ?_⟩
    rw [Finset.Ico_eq_empty (by omega), Finset.union_empty]
  · next hproper =>
    cases merged with
    | nil => exact ⟨⟨by simpa using hproper, by simp, by simp⟩, by simp [covered]⟩
    | cons back earlier =>
      obtain ⟨hback, hearlier⟩ := List.pairwise_cons.mp h.apart
      have hbackProper := h.proper back List.mem_cons_self
      have hbackStart := hstarted back List.mem_cons_self
      dsimp only
      split
      · next hgap =>
        refine ⟨⟨?_, ?_, ?_⟩, ?_⟩
        · intro j hj
          rcases List.mem_cons.mp hj with rfl | hj
          · omega
          · exact h.proper j hj
        · refine List.pairwise_cons.mpr ⟨fun j hj => ?_, h.apart⟩
          rcases List.mem_cons.mp hj with rfl | hj
          · exact hgap
          · exact (hback j hj).trans_le hbackStart
        · intro j hj
          rcases List.mem_cons.mp hj with rfl | hj
          · exact le_rfl
          · exact hstarted j hj
        · rw [covered, Finset.union_comm]
      · next hjoin =>
        refine ⟨⟨?_, ?_, ?_⟩, ?_⟩
        · intro j hj
          rcases List.mem_cons.mp hj with rfl | hj
          · show back.startNs < max back.endNs i.endNs
            omega
          · exact h.proper j (List.mem_cons_of_mem _ hj)
        · exact List.pairwise_cons.mpr ⟨hback, hearlier⟩
        · intro j hj
          rcases List.mem_cons.mp hj with rfl | hj
          · exact hbackStart
          · exact hstarted j (List.mem_cons_of_mem _ hj)
        · have hunion : Finset.Ico back.startNs (max back.endNs i.endNs) =
              Finset.Ico back.startNs back.endNs ∪ Finset.Ico i.startNs i.endNs := by
            ext x
            simp only [Finset.mem_union, Finset.mem_Ico]
            omega
          rw [covered, covered, hunion, Finset.union_right_comm]

theorem Merged.fold {intervals merged : List Interval} {bound : Int} (h : Merged merged bound)
    (hbound : ∀ i ∈ intervals, bound ≤ i.startNs)
    (hsorted : intervals.Pairwise (·.startNs ≤ ·.startNs)) :
    (∃ bound', Merged (intervals.foldl mergeInterval merged) bound') ∧
      covered (intervals.foldl mergeInterval merged) = covered merged ∪ covered intervals := by
  induction intervals generalizing merged bound with
  | nil => exact ⟨⟨bound, h⟩, by simp [covered]⟩
  | cons i rest ih =>
    obtain ⟨hi, hrest⟩ := List.pairwise_cons.mp hsorted
    obtain ⟨hstep, hcovered⟩ := h.step (hbound i List.mem_cons_self)
    obtain ⟨hmerged, hcovered'⟩ := ih hstep hi hrest
    refine ⟨hmerged, ?_⟩
    rw [List.foldl_cons, hcovered', hcovered, covered, Finset.union_assoc]

/-- Merging leaves stretches that cover the same nanoseconds. -/
theorem normalize_stretches (intervals : List Interval) :
    Stretches (normalize intervals) ∧ covered (normalize intervals) = covered intervals := by
  have hperm := List.mergeSort_perm intervals Interval.le
  have hsorted : (intervals.mergeSort Interval.le).Pairwise (·.startNs ≤ ·.startNs) :=
    (List.pairwise_mergeSort Interval.le_trans Interval.le_total intervals).imp Interval.start_le
  rw [← covered_perm hperm, normalize]
  generalize intervals.mergeSort Interval.le = sorted at hsorted
  have hfold : (∃ bound, Merged (sorted.foldl mergeInterval []) bound) ∧
      covered (sorted.foldl mergeInterval []) = covered sorted := by
    cases sorted with
    | nil => exact ⟨⟨0, ⟨by simp, by simp, by simp⟩⟩, rfl⟩
    | cons i rest =>
      have hempty : Merged [] i.startNs := ⟨by simp, by simp, by simp⟩
      have hbound : ∀ j ∈ i :: rest, i.startNs ≤ j.startNs := by
        intro j hj
        rcases List.mem_cons.mp hj with rfl | hj
        · exact le_rfl
        · exact (List.pairwise_cons.mp hsorted).1 j hj
      simpa [covered] using hempty.fold hbound hsorted
  obtain ⟨⟨bound, hmerged⟩, hcovered⟩ := hfold
  refine ⟨⟨fun i hi => hmerged.proper i (List.mem_reverse.mp hi), ?_⟩, ?_⟩
  · exact List.pairwise_reverse.mpr hmerged.apart
  · rw [covered_perm (List.reverse_perm _), hcovered]

/-! ### The scan -/

/-- The stretch that ends first meets the other list in its first stretch only. -/
theorem inter_front {l r : Interval} {left right : List Interval}
    (hleft : ∀ i ∈ left, l.endNs ≤ i.startNs) (hright : ∀ i ∈ right, r.endNs ≤ i.startNs)
    (hle : l.endNs ≤ r.endNs) :
    (covered (l :: left) ∩ covered (r :: right)).card =
      (Finset.Ico (max l.startNs r.startNs) (min l.endNs r.endNs)).card +
        (covered left ∩ covered (r :: right)).card := by
  have hfront : Finset.Ico l.startNs l.endNs ∩ covered (r :: right) =
      Finset.Ico (max l.startNs r.startNs) (min l.endNs r.endNs) := by
    ext x
    simp only [Finset.mem_inter, Finset.mem_Ico, mem_covered]
    constructor
    · rintro ⟨hx, i, hi, hix⟩
      rcases List.mem_cons.mp hi with rfl | hi
      · omega
      · have := hright i hi
        omega
    · intro hx
      exact ⟨by omega, r, List.mem_cons_self, by omega⟩
  have hdisjoint : Disjoint (Finset.Ico l.startNs l.endNs ∩ covered (r :: right))
      (covered left ∩ covered (r :: right)) := by
    rw [Finset.disjoint_left]
    intro x hx hx'
    obtain ⟨i, hi, hix⟩ := mem_covered.mp (Finset.mem_inter.mp hx').1
    have hstart := hleft i hi
    have hend := (Finset.mem_Ico.mp (Finset.mem_inter.mp hx).1).2
    omega
  rw [covered, Finset.union_inter_distrib_right, Finset.card_union_of_disjoint hdisjoint, hfront]

/-- What a round adds. -/
theorem add_common (total : UInt64) (a b : Int) :
    (if a < b then total + lengthNs a b else total) = total + UInt64.ofNat (Finset.Ico a b).card := by
  split
  · next h => rw [lengthNs_eq_card h.le]
  · next h =>
    rw [Finset.Ico_eq_empty h, Finset.card_empty]
    simp

/-- The scan counts what the stretches have in common. -/
theorem intersect_eq_card (total : UInt64) (lhs rhs : List Interval) (hl : Stretches lhs)
    (hr : Stretches rhs) :
    intersect total lhs rhs = total + UInt64.ofNat (covered lhs ∩ covered rhs).card := by
  induction total, lhs, rhs using intersect.induct with
  | case1 total l left r right start finish added hlt ih =>
    obtain ⟨hleft, hleft'⟩ := List.pairwise_cons.mp hl.apart
    have hright := (List.pairwise_cons.mp hr.apart).1
    have hrest : Stretches left := ⟨fun i hi => hl.proper i (List.mem_cons_of_mem _ hi), hleft'⟩
    have hadded : added = total + UInt64.ofNat (Finset.Ico start finish).card := add_common total _ _
    rw [intersect, if_pos hlt]
    change intersect added left (r :: right) = _
    rw [ih hrest hr, hadded, inter_front (fun i hi => (hleft i hi).le) (fun i hi => (hright i hi).le)
      hlt.le, UInt64.ofNat_add, ← UInt64.add_assoc]
  | case2 total l left r right start finish added hge ih =>
    obtain ⟨hright, hright'⟩ := List.pairwise_cons.mp hr.apart
    have hleft := (List.pairwise_cons.mp hl.apart).1
    have hrest : Stretches right := ⟨fun i hi => hr.proper i (List.mem_cons_of_mem _ hi), hright'⟩
    have hcard : (covered (l :: left) ∩ covered (r :: right)).card =
        (Finset.Ico start finish).card + (covered (l :: left) ∩ covered right).card := by
      rw [Finset.inter_comm, inter_front (fun i hi => (hright i hi).le) (fun i hi => (hleft i hi).le)
        (not_lt.mp hge), Finset.inter_comm (covered right), max_comm, min_comm]
    have hadded : added = total + UInt64.ofNat (Finset.Ico start finish).card := add_common total _ _
    rw [intersect, if_neg hge]
    change intersect added (l :: left) right = _
    rw [ih hl hrest, hadded, hcard, UInt64.ofNat_add, ← UInt64.add_assoc]
  | case3 total lhs rhs hnot =>
    have hempty : covered lhs ∩ covered rhs = ∅ := by
      cases lhs with
      | nil => simp [covered]
      | cons l left =>
        cases rhs with
        | nil => simp [covered]
        | cons r right => exact absurd rfl (hnot l left r right rfl)
    rw [hempty, Finset.card_empty]
    simp [intersect]

theorem intervalIntersectionNs_eq_card (lhs rhs : List Interval) :
    intervalIntersectionNs lhs rhs = UInt64.ofNat (covered lhs ∩ covered rhs).card := by
  obtain ⟨hl, hlhs⟩ := normalize_stretches lhs
  obtain ⟨hr, hrhs⟩ := normalize_stretches rhs
  rw [intervalIntersectionNs, intersect_eq_card 0 _ _ hl hr, hlhs, hrhs, UInt64.zero_add]

/-! ### Times of a run -/

/-- The endpoints are times that `int64_t` has and none is before the start. -/
structure Interval.InRange (i : Interval) : Prop where
  startNs : 0 ≤ i.startNs ∧ i.startNs < 2 ^ 63
  endNs : 0 ≤ i.endNs ∧ i.endNs < 2 ^ 63

/-- The endpoints are between the start and `bound`. -/
structure Interval.Within (bound : Nat) (i : Interval) : Prop where
  startNs : 0 ≤ i.startNs ∧ i.startNs ≤ bound
  endNs : 0 ≤ i.endNs ∧ i.endNs ≤ bound

theorem Interval.InRange.within {i : Interval} (h : i.InRange) : i.Within (2 ^ 63) := by
  obtain ⟨⟨hstart, hstart'⟩, hend, hend'⟩ := h
  exact ⟨⟨hstart, by omega⟩, hend, by omega⟩

theorem coe_covered (intervals : List Interval) :
    (covered intervals : Set Int) = {t : Int | ∃ i ∈ intervals, i.startNs ≤ t ∧ t < i.endNs} := by
  ext t
  simp [mem_covered]

theorem coe_covered_inter (lhs rhs : List Interval) :
    ((covered lhs ∩ covered rhs : Finset Int) : Set Int) =
      {t : Int | (∃ i ∈ lhs, i.startNs ≤ t ∧ t < i.endNs) ∧
        ∃ i ∈ rhs, i.startNs ≤ t ∧ t < i.endNs} := by
  rw [Finset.coe_inter, coe_covered, coe_covered]
  rfl

theorem card_covered_le {bound : Nat} {intervals : List Interval} (h : ∀ i ∈ intervals, i.Within bound) :
    (covered intervals).card ≤ bound := by
  have hsubset : covered intervals ⊆ Finset.Ico 0 (bound : Int) := by
    intro t ht
    obtain ⟨i, hi, hit⟩ := mem_covered.mp ht
    have hstart := (h i hi).startNs
    have hend := (h i hi).endNs
    rw [Finset.mem_Ico]
    omega
  calc (covered intervals).card ≤ (Finset.Ico 0 (bound : Int)).card := Finset.card_le_card hsubset
    _ = bound := by simp

theorem toNat_intervalUnionNs {bound : Nat} (hbound : bound < 2 ^ 64) {intervals : List Interval}
    (h : ∀ i ∈ intervals, i.Within bound) :
    (intervalUnionNs intervals).toNat = (covered intervals).card := by
  have hcard := card_covered_le h
  rw [intervalUnionNs_eq_card, UInt64.toNat_ofNat_of_lt' (show _ < 2 ^ 64 by omega)]

theorem toNat_intervalIntersectionNs {bound : Nat} (hbound : bound < 2 ^ 64) {lhs rhs : List Interval}
    (h : ∀ i ∈ lhs, i.Within bound) :
    (intervalIntersectionNs lhs rhs).toNat = (covered lhs ∩ covered rhs).card := by
  have hcard := card_covered_le h
  have hinter : (covered lhs ∩ covered rhs).card ≤ (covered lhs).card :=
    Finset.card_le_card Finset.inter_subset_left
  rw [intervalIntersectionNs_eq_card, UInt64.toNat_ofNat_of_lt' (show _ < 2 ^ 64 by omega)]

/-- **`interval_union_ns` measures the union**, whatever the order of the list. -/
theorem intervalUnionNs_measure (intervals : List Interval) (h : ∀ i ∈ intervals, i.InRange) :
    (intervalUnionNs intervals).toNat =
        {t : Int | ∃ i ∈ intervals, i.startNs ≤ t ∧ t < i.endNs}.ncard ∧
      ∀ reordered : List Interval, reordered.Perm intervals →
        intervalUnionNs reordered = intervalUnionNs intervals := by
  refine ⟨?_, fun reordered hperm => ?_⟩
  · rw [toNat_intervalUnionNs (show 2 ^ 63 < 2 ^ 64 by decide) fun i hi => (h i hi).within, ← coe_covered,
      Set.ncard_coe_finset]
  · rw [intervalUnionNs_eq_card, intervalUnionNs_eq_card, covered_perm hperm]

/-- Nested, touching, inverted and repeated members. -/
def tangle : List Interval := [⟨4, 9⟩, ⟨0, 3⟩, ⟨3, 4⟩, ⟨8, 5⟩, ⟨5, 6⟩, ⟨0, 3⟩, ⟨12, 15⟩]

theorem tangle_inRange : ∀ i ∈ tangle, i.InRange := by
  intro i hi
  simp only [tangle, List.mem_cons, List.not_mem_nil, or_false] at hi
  rcases hi with rfl | rfl | rfl | rfl | rfl | rfl | rfl <;> exact ⟨by decide, by decide⟩

theorem intervalUnionNs_measure_tangle : (intervalUnionNs tangle).toNat = 12 := by
  rw [(intervalUnionNs_measure tangle tangle_inRange).1, ← coe_covered, Set.ncard_coe_finset]
  decide

/-- **`interval_intersection_ns` measures what the unions have in common**, in either
order. -/
theorem intervalIntersectionNs_measure (lhs rhs : List Interval) (h : ∀ i ∈ lhs, i.InRange) :
    (intervalIntersectionNs lhs rhs).toNat =
        {t : Int | (∃ i ∈ lhs, i.startNs ≤ t ∧ t < i.endNs) ∧
          ∃ i ∈ rhs, i.startNs ≤ t ∧ t < i.endNs}.ncard ∧
      intervalIntersectionNs rhs lhs = intervalIntersectionNs lhs rhs := by
  refine ⟨?_, ?_⟩
  · rw [← coe_covered_inter, Set.ncard_coe_finset,
      toNat_intervalIntersectionNs (show 2 ^ 63 < 2 ^ 64 by decide) fun i hi => (h i hi).within]
  · rw [intervalIntersectionNs_eq_card, intervalIntersectionNs_eq_card, Finset.inter_comm]

theorem intervalIntersectionNs_measure_tangle :
    (intervalIntersectionNs tangle [⟨2, 13⟩]).toNat = 8 := by
  rw [(intervalIntersectionNs_measure tangle [⟨2, 13⟩] tangle_inRange).1, ← coe_covered_inter,
    Set.ncard_coe_finset]
  decide

/-! ### What the report writes -/

/-- `percent`, exactly. -/
def percent (numerator denominator : UInt64) : Rat :=
  if denominator = 0 then 0 else 100 * numerator.toNat / denominator.toNat

/-- The figures of `npu_pim_overlap`. -/
structure Overlap where
  npuActiveNs : UInt64
  pimActiveNs : UInt64
  overlapNs : UInt64
  unionNs : UInt64

/-- As `write_json` computes them. -/
def npuPimOverlap (npuIntervals pimComputeIntervals : List Interval) : Overlap :=
  let npuActiveNs := intervalUnionNs npuIntervals
  let pimActiveNs := intervalUnionNs pimComputeIntervals
  let overlapNs := intervalIntersectionNs npuIntervals pimComputeIntervals
  { npuActiveNs := npuActiveNs
    pimActiveNs := pimActiveNs
    overlapNs := overlapNs
    unionNs := npuActiveNs + pimActiveNs - overlapNs }

def Overlap.npuCoveredByPimPct (o : Overlap) : Rat := percent o.overlapNs o.npuActiveNs

def Overlap.pimHiddenByNpuPct (o : Overlap) : Rat := percent o.overlapNs o.pimActiveNs

def Overlap.intersectionOverUnionPct (o : Overlap) : Rat := percent o.overlapNs o.unionNs

theorem percent_range {numerator denominator : UInt64} (h : numerator ≤ denominator) :
    0 ≤ percent numerator denominator ∧ percent numerator denominator ≤ 100 := by
  unfold percent
  split
  · exact ⟨le_rfl, by decide⟩
  · next hzero =>
    have hpos : (0 : Rat) < denominator.toNat := by
      have hne : denominator.toNat ≠ 0 := fun hnat => hzero (UInt64.toNat_inj.mp hnat)
      exact_mod_cast Nat.pos_of_ne_zero hne
    have hle : (numerator.toNat : Rat) ≤ denominator.toNat := by
      exact_mod_cast UInt64.le_iff_toNat_le.mp h
    refine ⟨by positivity, ?_⟩
    rw [div_le_iff₀ hpos]
    linarith

/-- **The figures of the overlap agree.** The overlap is part of both activities, the
unsigned sum and difference do not wrap, and they give the length of the union of all
intervals, which is no longer than the simulation (`simulation_ns` is a nonnegative
`int64_t`). -/
theorem overlap_report (npu pim : List Interval) (simulationNs : Nat) (hsimulation : simulationNs < 2 ^ 63)
    (hnpu : ∀ i ∈ npu, i.Within simulationNs) (hpim : ∀ i ∈ pim, i.Within simulationNs) :
    let o := npuPimOverlap npu pim
    o.overlapNs.toNat ≤ min o.npuActiveNs.toNat o.pimActiveNs.toNat ∧
    o.npuActiveNs.toNat + o.pimActiveNs.toNat < 2 ^ 64 ∧
    o.unionNs.toNat + o.overlapNs.toNat = o.npuActiveNs.toNat + o.pimActiveNs.toNat ∧
    o.unionNs = intervalUnionNs (npu ++ pim) ∧ o.unionNs.toNat ≤ simulationNs ∧
    (0 ≤ o.npuCoveredByPimPct ∧ o.npuCoveredByPimPct ≤ 100) ∧
    (0 ≤ o.pimHiddenByNpuPct ∧ o.pimHiddenByNpuPct ≤ 100) ∧
    (0 ≤ o.intersectionOverUnionPct ∧ o.intersectionOverUnionPct ≤ 100) := by
  intro o
  have hbound : simulationNs < 2 ^ 64 := by omega
  have hboth : ∀ i ∈ npu ++ pim, i.Within simulationNs := by
    intro i hi
    rcases List.mem_append.mp hi with hi | hi
    · exact hnpu i hi
    · exact hpim i hi
  have hnpuNs : o.npuActiveNs.toNat = (covered npu).card := toNat_intervalUnionNs hbound hnpu
  have hpimNs : o.pimActiveNs.toNat = (covered pim).card := toNat_intervalUnionNs hbound hpim
  have hoverlap : o.overlapNs.toNat = (covered npu ∩ covered pim).card :=
    toNat_intervalIntersectionNs hbound hnpu
  have hunion : (intervalUnionNs (npu ++ pim)).toNat = (covered npu ∪ covered pim).card := by
    rw [toNat_intervalUnionNs hbound hboth, covered_append]
  have hexcluded := Finset.card_union_add_card_inter (covered npu) (covered pim)
  have hnpuLe := card_covered_le hnpu
  have hpimLe := card_covered_le hpim
  have hunionLe := card_covered_le hboth
  rw [covered_append] at hunionLe
  have hfirst : (covered npu ∩ covered pim).card ≤ (covered npu).card :=
    Finset.card_le_card Finset.inter_subset_left
  have hsecond : (covered npu ∩ covered pim).card ≤ (covered pim).card :=
    Finset.card_le_card Finset.inter_subset_right
  have hleNpu : o.overlapNs ≤ o.npuActiveNs := by
    rw [UInt64.le_iff_toNat_le]
    omega
  have hlePim : o.overlapNs ≤ o.pimActiveNs := by
    rw [UInt64.le_iff_toNat_le]
    omega
  have hsum : (o.npuActiveNs + o.pimActiveNs).toNat = o.npuActiveNs.toNat + o.pimActiveNs.toNat := by
    rw [UInt64.toNat_add]
    omega
  have hdifference : o.unionNs.toNat = o.npuActiveNs.toNat + o.pimActiveNs.toNat - o.overlapNs.toNat := by
    show (o.npuActiveNs + o.pimActiveNs - o.overlapNs).toNat = _
    rw [UInt64.toNat_sub_of_le _ _ (by rw [UInt64.le_iff_toNat_le]; omega), hsum]
  have hleUnion : o.overlapNs ≤ o.unionNs := by
    rw [UInt64.le_iff_toNat_le]
    omega
  refine ⟨by omega, by omega, by omega, ?_, by omega, percent_range hleNpu,
    percent_range hlePim, percent_range hleUnion⟩
  apply UInt64.toNat_inj.mp
  omega

theorem overlap_report_tangle :
    (npuPimOverlap tangle [⟨2, 13⟩]).unionNs = intervalUnionNs (tangle ++ [⟨2, 13⟩]) := by
  have htangle : ∀ i ∈ tangle, i.Within 15 := by
    intro i hi
    simp only [tangle, List.mem_cons, List.not_mem_nil, or_false] at hi
    rcases hi with rfl | rfl | rfl | rfl | rfl | rfl | rfl <;> exact ⟨by decide, by decide⟩
  have hone : ∀ i ∈ [(⟨2, 13⟩ : Interval)], i.Within 15 := by
    intro i hi
    obtain rfl := List.mem_singleton.mp hi
    exact ⟨by decide, by decide⟩
  exact (overlap_report tangle _ 15 (by decide) htangle hone).2.2.2.1

end Hsim.Metrics
