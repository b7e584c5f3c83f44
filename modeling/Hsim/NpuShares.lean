import Mathlib.Algebra.BigOperators.Ring.List
import Hsim.NpuWorkload

/-! The compute time of a layer, split by shares.

Without the analytical model every operation but the last gets its share of the
layer's time, rounded down, and the last what is left. The product of time and
share and the total of the shares are 32-bit numbers. Where neither wraps the
split is the intended one, and with a total that does not wrap a wrapped product
never gives the right quotient. -/
namespace Hsim.NpuTraceReplayer

/-! ### Floors -/

/-- Floors of shares take no more than there is. -/
theorem sum_floor_le (c total : Nat) (shares : List Nat) (h : shares.sum ≤ total) :
    (shares.map fun share => c * share / total).sum ≤ c := by
  rcases Nat.eq_zero_or_pos total with rfl | hpos
  · simp
  · have hsum : (shares.map fun share => c * share / total).sum * total ≤ c * shares.sum := by
      clear h
      induction shares with
      | nil => simp
      | cons share shares ih =>
        rw [List.map_cons, List.sum_cons, List.sum_cons, Nat.add_mul, Nat.mul_add]
        exact Nat.add_le_add (Nat.div_mul_le_self _ _) ih
    have hall : c * shares.sum ≤ c * total := Nat.mul_le_mul_left c h
    exact Nat.le_of_mul_le_mul_right (hsum.trans hall) hpos

/-- A product that has lost a carry gives too small a quotient. -/
theorem wrapped_quotient_iff {p total : Nat} (hpos : 0 < total) (hlt : total < 2 ^ 32) :
    p % 2 ^ 32 / total = p / total ↔ p < 2 ^ 32 := by
  constructor
  · intro heq
    by_contra hwraps
    have hcarry : 1 ≤ p / 2 ^ 32 := (Nat.le_div_iff_mul_le (by decide)).mpr (by omega)
    have hless : p % 2 ^ 32 + total ≤ p := by
      have hp := Nat.div_add_mod p (2 ^ 32)
      have hmul : 2 ^ 32 * 1 ≤ 2 ^ 32 * (p / 2 ^ 32) := Nat.mul_le_mul_left _ hcarry
      omega
    have hquotient := Nat.div_le_div_right (c := total) hless
    rw [Nat.add_div_right _ hpos] at hquotient
    omega
  · intro hfits
    rw [Nat.mod_eq_of_lt hfits]

/-! ### The times of a layer -/

/-- The time a segment computes, of one operation. -/
def Segment.timeOf (op : Nat) : Segment → Nat
  | .compute i ns => if i = op then ns.toNat else 0
  | _ => 0

/-- The time a segment computes. -/
def Segment.time : Segment → Nat
  | .compute _ ns => ns.toNat
  | _ => 0

section
variable (cfg : Config)

/-- The shares over the integers. -/
def Config.shareTotal : Nat := (cfg.layerProfile.operations.map (·.computeShare.toNat)).sum

/-- An operation's share of the layer's time, over the integers. -/
def Config.shareOf (op : ModelOperationInfo) : Nat :=
  cfg.profile.computeNsPerLayer.toNat * op.computeShare.toNat / cfg.shareTotal

/-- The intended split. -/
def Config.exactTimes : List Nat :=
  let others := cfg.layerProfile.operations.dropLast.map cfg.shareOf
  others ++ [cfg.profile.computeNsPerLayer.toNat - others.sum]

/-- One layer of the replay splits its time exactly. The total says that the subtraction
for the last operation does not wrap. -/
structure Config.SplitsExactly (l : Launch) (m : Mode) (layer : String) : Prop where
  /-- No division by zero. -/
  divides : (cfg.replayLayer l m layer).2 = false
  times : ∀ (i ns : Nat), cfg.exactTimes[i]? = some ns →
    ((cfg.replayLayer l m layer).1.map (·.timeOf i)).sum = m.multiplier.toNat * ns
  total : ((cfg.replayLayer l m layer).1.map (·.time)).sum =
    m.multiplier.toNat * cfg.profile.computeNsPerLayer.toNat

/-- The modes of `replay_trace`. -/
def Config.Replays (m : Mode) : Prop :=
  m = cfg.detailed ∨ m = cfg.fast 1 ∨ m = cfg.fast cfg.layerProfile.layerCount

/-- The products fit in 32 bits. -/
def Config.ProductsFit : Prop :=
  ∀ op ∈ cfg.layerProfile.operations.dropLast,
    cfg.profile.computeNsPerLayer.toNat * op.computeShare.toNat < 2 ^ 32

/-- The times the loop over the operations assigns, `none` where it traps. -/
def Config.computeTimes (l : Launch) : List ModelOperationInfo → UInt64 → Option (List UInt64)
  | [], _ => some []
  | op :: rest, assigned =>
    (cfg.perLayerCompute l rest.isEmpty assigned op).bind fun c =>
      (Config.computeTimes l rest (assigned + c)).map (c :: ·)

end

/-! ### From the segments to the times -/

/-- A measure of segments that counts computation only. -/
structure Counts (f : Segment → Nat) : Prop where
  other : ∀ g, (∀ i ns, g ≠ .compute i ns) → f g = 0
  zero : ∀ i, f (.compute i 0) = 0

theorem counts_timeOf (op : Nat) : Counts (·.timeOf op) := by
  constructor
  · intro g hg
    cases g with
    | compute i ns => exact absurd rfl (hg i ns)
    | _ => rfl
  · simp [Segment.timeOf]

theorem counts_time : Counts (·.time) := by
  constructor
  · intro g hg
    cases g with
    | compute i ns => exact absurd rfl (hg i ns)
    | _ => rfl
  · simp [Segment.time]

section
variable (cfg : Config) (l : Launch) (m : Mode) {f : Segment → Nat} (hf : Counts f)
include hf

/-- Segments without computation. -/
theorem count_traffic {segments : List Segment} (h : ∀ i ns, Segment.compute i ns ∉ segments) :
    (segments.map f).sum = 0 := by
  have hzero : ∀ g ∈ segments, f g = 0 := fun g hg => hf.other g fun i ns heq => h i ns (heq ▸ hg)
  rw [List.sum_eq_zero]
  simpa using hzero

theorem count_reads (layer : String) (i : Nat) (op : ModelOperationInfo) :
    ((cfg.reads l m layer i op).map f).sum = 0 :=
  count_traffic hf (by simp [Config.reads, Mode.transfer])

theorem count_writes (layer : String) (i : Nat) (op : ModelOperationInfo) :
    ((cfg.writes l m layer i op).map f).sum = 0 :=
  count_traffic hf (by simp [Config.writes, Mode.transfer])

/-- A computation that is passed over takes no time. -/
theorem count_compute (i : Nat) (c : UInt64) :
    ((m.compute i c).map f).sum = f (.compute i (c * m.multiplier.toUInt64)) := by
  unfold Mode.compute
  dsimp only
  split
  · next hskip => simp [hskip.2, hf.zero]
  · simp

/-- The loop over the operations, as what it assigns. -/
theorem replayOps_times (layer : String) {ops : List ModelOperationInfo} (i : Nat) {assigned : UInt64}
    {times : List UInt64} (h : cfg.computeTimes l ops assigned = some times) :
    (cfg.replayOps l m layer i ops assigned).2.isSome ∧
      ((cfg.replayOps l m layer i ops assigned).1.map f).sum =
        ((times.zipIdx i).map fun c => f (.compute c.2 (c.1 * m.multiplier.toUInt64))).sum := by
  induction ops generalizing i assigned times with
  | nil =>
    cases h
    exact ⟨rfl, rfl⟩
  | cons op rest ih =>
    obtain ⟨c, hc, h⟩ := Option.bind_eq_some_iff.mp h
    obtain ⟨times, hrest, rfl⟩ := Option.map_eq_some_iff.mp h
    obtain ⟨hsome, hsum⟩ := ih (i + 1) hrest
    rw [Config.replayOps, hc]
    refine ⟨hsome, ?_⟩
    rw [List.map_append, List.map_append, List.map_append, List.sum_append, List.sum_append,
      List.sum_append, count_reads cfg l m hf, count_writes cfg l m hf, count_compute m hf, hsum]
    simp

/-- A layer takes the time of its operations. -/
theorem replayLayer_times (layer : String) {times : List UInt64}
    (h : cfg.computeTimes l cfg.layerProfile.operations 0 = some times) :
    (cfg.replayLayer l m layer).2 = false ∧
      ((cfg.replayLayer l m layer).1.map f).sum =
        (times.zipIdx.map fun c => f (.compute c.2 (c.1 * m.multiplier.toUInt64))).sum := by
  obtain ⟨hsome, hsum⟩ := replayOps_times cfg l m hf layer 0 h
  rw [Config.replayLayer]
  rcases hrun : cfg.replayOps l m layer 0 cfg.layerProfile.operations 0 with ⟨segments, _ | assigned⟩
  · rw [hrun] at hsome
    cases hsome
  · rw [hrun] at hsum
    have hother : ∀ g : Segment, (∀ i ns, g ≠ .compute i ns) → f g = 0 := hf.other
    refine ⟨rfl, ?_⟩
    rw [← hsum]
    simp [Mode.transfer, hother]

end

/-- The time of one position. -/
theorem sum_timeOf (times : List UInt64) (scale : UInt64) (i j : Nat) :
    ((times.zipIdx i).map fun c => (Segment.compute c.2 (c.1 * scale)).timeOf (i + j)).sum =
      (times[j]?.map fun ns => (ns * scale).toNat).getD 0 := by
  induction times generalizing i j with
  | nil => rfl
  | cons ns times ih =>
    rw [List.zipIdx_cons, List.map_cons, List.sum_cons]
    cases j with
    | zero =>
      have hlater : ((times.zipIdx (i + 1)).map fun c =>
          (Segment.compute c.2 (c.1 * scale)).timeOf (i + 0)).sum = 0 := by
        refine List.sum_eq_zero fun x hx => ?_
        obtain ⟨c, hc, rfl⟩ := List.mem_map.mp hx
        have hle := (List.mem_zipIdx hc).1
        exact if_neg (by omega)
      rw [hlater]
      simp [Segment.timeOf]
    | succ j =>
      have hnot : (Segment.compute i (ns * scale)).timeOf (i + (j + 1)) = 0 := if_neg (by omega)
      rw [hnot, Nat.zero_add, List.getElem?_cons_succ, ← ih (i + 1) j, Nat.add_right_comm, Nat.add_assoc]

theorem sum_time (times : List UInt64) (scale : UInt64) (i : Nat) :
    ((times.zipIdx i).map fun c => (Segment.compute c.2 (c.1 * scale)).time).sum =
      (times.map fun ns => (ns * scale).toNat).sum := by
  induction times generalizing i with
  | nil => rfl
  | cons ns times ih =>
    rw [List.zipIdx_cons, List.map_cons, List.sum_cons, List.map_cons, List.sum_cons, ih]
    rfl

/-! ### The times the shares give -/

section
variable (cfg : Config) (l : Launch) (hmode : cfg.profile.analyticalComputeEnabled = false)

/-- An operation's share as the code computes it. -/
def Config.shareTime (op : ModelOperationInfo) : UInt64 :=
  (cfg.profile.computeNsPerLayer * op.computeShare / cfg.totalComputeShare).toUInt64

/-- The times of the operations: their shares, and for the last what the others leave. -/
def Config.assignedTimes : List UInt64 :=
  let others := cfg.layerProfile.operations.dropLast.map cfg.shareTime
  others ++ [cfg.profile.computeNsPerLayer.toUInt64 - others.sum]

include hmode

theorem computeTimes_of_total (htotal : cfg.totalComputeShare ≠ 0) {ops : List ModelOperationInfo}
    (hops : ops ≠ []) (assigned : UInt64) :
    cfg.computeTimes l ops assigned =
      some (ops.dropLast.map cfg.shareTime ++
        [cfg.profile.computeNsPerLayer.toUInt64 - (assigned + (ops.dropLast.map cfg.shareTime).sum)]) := by
  induction ops generalizing assigned with
  | nil => exact absurd rfl hops
  | cons op rest ih =>
    rw [Config.computeTimes, Config.perLayerCompute, if_neg (by simp [hmode])]
    cases rest with
    | nil => simp [Config.computeTimes]
    | cons next rest =>
      rw [if_neg (by simp), if_neg htotal, Option.bind_some, ih (List.cons_ne_nil _ _)]
      simp [Config.shareTime, UInt64.add_assoc]

theorem computeTimes_operations (hvalid : cfg.layerProfile.Valid) (htotal : cfg.totalComputeShare ≠ 0) :
    cfg.computeTimes l cfg.layerProfile.operations 0 = some cfg.assignedTimes := by
  rw [computeTimes_of_total cfg l hmode htotal hvalid.operations, UInt64.zero_add, Config.assignedTimes]

omit hmode in
theorem toNat_totalComputeShare : cfg.totalComputeShare.toNat = cfg.shareTotal % 2 ^ 32 := by
  unfold Config.totalComputeShare Config.shareTotal
  induction cfg.layerProfile.operations with
  | nil => rfl
  | cons op ops ih =>
    rw [List.map_cons, List.sum_cons, List.map_cons, List.sum_cons, UInt32.toNat_add, ih, Nat.add_mod_mod]

omit hmode in
theorem toNat_shareTime (op : ModelOperationInfo) :
    (cfg.shareTime op).toNat =
      cfg.profile.computeNsPerLayer.toNat * op.computeShare.toNat % 2 ^ 32 / (cfg.shareTotal % 2 ^ 32) := by
  rw [Config.shareTime, UInt32.toNat_toUInt64, UInt32.toNat_div, UInt32.toNat_mul, toNat_totalComputeShare]

omit hmode in
/-- The condition, one operation at a time. -/
theorem productsFit_iff (hpos : 0 < cfg.shareTotal) (hshares : cfg.shareTotal < 2 ^ 32) :
    cfg.ProductsFit ↔ ∀ op ∈ cfg.layerProfile.operations.dropLast,
      (cfg.shareTime op).toNat = cfg.shareOf op := by
  refine forall₂_congr fun op _ => ?_
  rw [toNat_shareTime, Config.shareOf, Nat.mod_eq_of_lt hshares]
  exact (wrapped_quotient_iff hpos hshares).symm

end

section
variable {cfg : Config} (l : Launch) {m : Mode}

theorem Config.Replays.multiplier_pos (hvalid : cfg.layerProfile.Valid) (hm : cfg.Replays m) :
    0 < m.multiplier.toNat := by
  rcases hm with rfl | rfl | rfl
  · exact Nat.one_pos
  · exact Nat.one_pos
  · exact Lib.toNat_pos hvalid.layers

theorem shareTotal_pos (hvalid : cfg.layerProfile.Valid) : 0 < cfg.shareTotal := by
  obtain ⟨op, rest, hops⟩ := List.exists_cons_of_ne_nil hvalid.operations
  have hshare := hvalid.shares op (by rw [hops]; exact List.mem_cons_self)
  have hpos : 0 < op.computeShare.toNat := Lib.toNat_pos hshare
  rw [Config.shareTotal, hops, List.map_cons, List.sum_cons]
  omega

/-- A time below 2^32 is not wrapped by the number of layers. -/
theorem toNat_scaled {ns : UInt64} (h : ns.toNat < 2 ^ 32) :
    (ns * m.multiplier.toUInt64).toNat = m.multiplier.toNat * ns.toNat := by
  have hmul : ns.toNat * m.multiplier.toNat < 2 ^ 32 * 2 ^ 32 :=
    Nat.mul_lt_mul_of_lt_of_le h (Nat.le_of_lt m.multiplier.toNat_lt) (by decide)
  rw [UInt64.toNat_mul, UInt32.toNat_toUInt64, Nat.mod_eq_of_lt (by omega), Nat.mul_comm]

/-- The shares but the last leave something of the layer's time, or nothing. -/
theorem sum_shareOf_le (cfg : Config) : (cfg.layerProfile.operations.dropLast.map cfg.shareOf).sum ≤
    cfg.profile.computeNsPerLayer.toNat := by
  have hsub : (cfg.layerProfile.operations.dropLast.map (·.computeShare.toNat)).sum ≤ cfg.shareTotal :=
    ((List.dropLast_sublist _).map _).sum_le_sum fun _ _ => Nat.zero_le _
  have hle := sum_floor_le cfg.profile.computeNsPerLayer.toNat cfg.shareTotal _ hsub
  rw [List.map_map] at hle
  exact hle

theorem sum_exactTimes : cfg.exactTimes.sum = cfg.profile.computeNsPerLayer.toNat := by
  have hle := sum_shareOf_le cfg
  rw [Config.exactTimes, List.sum_append, List.sum_singleton]
  omega

/-- The code's times are the intended ones, once each share is. -/
theorem assignedTimes_exact (hall : ∀ op ∈ cfg.layerProfile.operations.dropLast,
    (cfg.shareTime op).toNat = cfg.shareOf op) : cfg.assignedTimes.map UInt64.toNat = cfg.exactTimes := by
  have hothers : (cfg.layerProfile.operations.dropLast.map cfg.shareTime).map UInt64.toNat =
      cfg.layerProfile.operations.dropLast.map cfg.shareOf := by
    rw [List.map_map]
    exact List.map_congr_left hall
  have hle := sum_shareOf_le cfg
  have hlt := cfg.profile.computeNsPerLayer.toNat_lt
  have hsum : (cfg.layerProfile.operations.dropLast.map cfg.shareTime).sum.toNat =
      (cfg.layerProfile.operations.dropLast.map cfg.shareOf).sum := by
    rw [Lib.toNat_sum, hothers]
    omega
  rw [Config.assignedTimes, Config.exactTimes, List.map_append, hothers, List.map_singleton,
    UInt64.toNat_sub_of_le, hsum, UInt32.toNat_toUInt64]
  rw [UInt64.le_iff_toNat_le, hsum, UInt32.toNat_toUInt64]
  exact hle

/-- What a layer computes, from the times of its operations. -/
theorem replayLayer_assigned (hmode : cfg.profile.analyticalComputeEnabled = false)
    (hvalid : cfg.layerProfile.Valid) (htotal : cfg.totalComputeShare ≠ 0) (m : Mode) (layer : String) :
    (cfg.replayLayer l m layer).2 = false ∧
      (∀ i, ((cfg.replayLayer l m layer).1.map (·.timeOf i)).sum =
        (cfg.assignedTimes[i]?.map fun ns => (ns * m.multiplier.toUInt64).toNat).getD 0) ∧
      ((cfg.replayLayer l m layer).1.map (·.time)).sum =
        (cfg.assignedTimes.map fun ns => (ns * m.multiplier.toUInt64).toNat).sum := by
  have htimes := computeTimes_operations cfg l hmode hvalid htotal
  refine ⟨(replayLayer_times cfg l m counts_time layer htimes).1, fun i => ?_, ?_⟩
  · rw [(replayLayer_times cfg l m (counts_timeOf i) layer htimes).2]
    have hone := sum_timeOf cfg.assignedTimes m.multiplier.toUInt64 0 i
    rw [Nat.zero_add] at hone
    exact hone
  · rw [(replayLayer_times cfg l m counts_time layer htimes).2, sum_time]

section
variable {l} (hmode : cfg.profile.analyticalComputeEnabled = false) (hvalid : cfg.layerProfile.Valid)
  {layer : String}
include hmode hvalid

/-- An exact split computes every share exactly. -/
theorem Config.SplitsExactly.share (h : cfg.SplitsExactly l m layer) (htotal : cfg.totalComputeShare ≠ 0)
    (hscale : 0 < m.multiplier.toNat) :
    ∀ op ∈ cfg.layerProfile.operations.dropLast, (cfg.shareTime op).toNat = cfg.shareOf op := by
  intro op hmem
  obtain ⟨i, hi, rfl⟩ := List.getElem_of_mem hmem
  have hexact : cfg.exactTimes[i]? = some (cfg.shareOf cfg.layerProfile.operations.dropLast[i]) := by
    rw [Config.exactTimes, List.getElem?_append_left (by simpa using hi)]
    rw [List.getElem?_map, List.getElem?_eq_getElem hi, Option.map_some]
  have hassigned : cfg.assignedTimes[i]? = some (cfg.shareTime cfg.layerProfile.operations.dropLast[i]) := by
    rw [Config.assignedTimes, List.getElem?_append_left (by simpa using hi)]
    rw [List.getElem?_map, List.getElem?_eq_getElem hi, Option.map_some]
  have hsmall : (cfg.shareTime cfg.layerProfile.operations.dropLast[i]).toNat < 2 ^ 32 := by
    rw [Config.shareTime, UInt32.toNat_toUInt64]
    exact UInt32.toNat_lt _
  have htime := h.times i _ hexact
  rw [(replayLayer_assigned l hmode hvalid htotal m layer).2.1 i, hassigned, Option.map_some,
    Option.getD_some, toNat_scaled hsmall] at htime
  exact Nat.eq_of_mul_eq_mul_left hscale htime

/-- Exact shares make an exact split. -/
theorem splitsExactly_of_shares (htotal : cfg.totalComputeShare ≠ 0)
    (hall : ∀ op ∈ cfg.layerProfile.operations.dropLast, (cfg.shareTime op).toNat = cfg.shareOf op) :
    cfg.SplitsExactly l m layer := by
  obtain ⟨hdivides, hone, hsum⟩ := replayLayer_assigned l hmode hvalid htotal m layer
  have hexact := assignedTimes_exact hall
  have hlayer : (cfg.assignedTimes.map UInt64.toNat).sum = cfg.profile.computeNsPerLayer.toNat := by
    rw [hexact, sum_exactTimes]
  have hscaled : ∀ ns ∈ cfg.assignedTimes,
      (ns * m.multiplier.toUInt64).toNat = m.multiplier.toNat * ns.toNat := by
    intro ns hns
    have hc := cfg.profile.computeNsPerLayer.toNat_lt
    have hle := List.le_sum_of_mem (List.mem_map_of_mem (f := UInt64.toNat) hns)
    exact toNat_scaled (by omega)
  refine ⟨hdivides, fun i ns hi => ?_, ?_⟩
  · rw [← hexact, List.getElem?_map] at hi
    obtain ⟨c, hget, rfl⟩ := Option.map_eq_some_iff.mp hi
    rw [hone i, hget, Option.map_some, Option.getD_some]
    exact hscaled c (List.mem_of_getElem? hget)
  · rw [hsum, ← hlayer, List.map_congr_left hscaled, ← List.sum_map_mul_left]

end

/-- **The split of a layer's compute time is exact where the products fit.** Every accepted
model whose shares add up to less than 2^32, every launch and mode of the replay. -/
theorem split_exact_iff (hmode : cfg.profile.analyticalComputeEnabled = false) (files : Files)
    (fileName : String) (hload : loadModelLayerProfile files fileName = .ok cfg.layerProfile)
    (hshares : cfg.shareTotal < 2 ^ 32) (hm : cfg.Replays m) (layer : String) :
    cfg.SplitsExactly l m layer ↔ cfg.ProductsFit := by
  have hvalid := loadModelLayerProfile_valid hload
  have hpos := shareTotal_pos hvalid
  have htotal : cfg.totalComputeShare ≠ 0 := by
    rw [ne_eq, ← UInt32.toNat_inj, toNat_totalComputeShare, Nat.mod_eq_of_lt hshares]
    exact hpos.ne'
  rw [productsFit_iff cfg hpos hshares]
  constructor
  · exact fun h => h.share hmode hvalid htotal (hm.multiplier_pos hvalid)
  · exact fun hall => splitsExactly_of_shares hmode hvalid htotal hall

end

/-- A model of two operations that share a layer evenly. -/
def halvesFile (share : UInt32) : Json :=
  let op (name : String) : Json := .obj [("name", .str name), ("compute_share", .int share.toNat)]
  .obj [("decoder_layers", .int 1), ("operations", .arr [op "q_proj", op "k_proj"])]

/-- The NPU of that model, at a tenth of a millisecond a layer. -/
def halves (share : UInt32) : Config where
  profile := {
    enabled := true
    computeNsPerLayer := 100000
    analyticalComputeEnabled := false}
  layerProfile := {
    name := "halves"
    layerCount := 1
    operations := [{
      name := "q_proj"
      computeShare := share}, {
      name := "k_proj"
      computeShare := share}]}
  dramReqBytes := 64
  memory := .dram
  operationComputeNs := fun _ _ => 0

/-- Shares of one half each give each operation half of the time. -/
theorem split_exact_halves :
    (halves 1).exactTimes = [50000, 50000] ∧
      (halves 1).SplitsExactly {} (halves 1).detailed "target_npu.run0.layer0" := by
  refine ⟨by decide, (split_exact_iff {} rfl (fun _ => .ok (halvesFile 1)) "halves" rfl (by decide)
    (.inl rfl) _).mpr ?_⟩
  unfold Config.ProductsFit
  decide

/-- The same halves as 50000 of 100000: the product is 705032704 in 32 bits, and the first
operation gets 7050 ns. -/
theorem halves_not_split :
    loadModelLayerProfile (fun _ => .ok (halvesFile 50000)) "halves" = .ok (halves 50000).layerProfile ∧
      (halves 50000).exactTimes = [50000, 50000] ∧
      (((halves 50000).replayLayer {} (halves 50000).detailed "target_npu.run0.layer0").1.map
        (·.timeOf 0)).sum = 7050 ∧
      ¬ (halves 50000).SplitsExactly {} (halves 50000).detailed "target_npu.run0.layer0" := by
  have htime : (((halves 50000).replayLayer {} (halves 50000).detailed "target_npu.run0.layer0").1.map
      (·.timeOf 0)).sum = 7050 := by decide
  refine ⟨rfl, by decide, htime, fun h => ?_⟩
  have hexact := h.times 0 50000 (by decide)
  rw [htime] at hexact
  exact absurd hexact (by decide)

end Hsim.NpuTraceReplayer
