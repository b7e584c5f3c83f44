import Hsim.DraftTiling
import Hsim.PimAggregation

/-! The collapsed macro against one macro a layer.

With granularity `macro` the delay of all layers is rounded once, with `layer`
that of one layer is rounded for each of them. Both go into the payload as 32-bit
numbers. Rounding alone keeps the two within half a nanosecond a layer; what the
32 bits drop is the same for both only while the layers together do not reach
past the next multiple of 2^32 nanoseconds. -/
namespace Hsim.Host

/-! ### Low words of floors -/

/-- What a time leaves over multiples of 2^32. -/
def lowNs (x : ℚ) : ℚ := x - 2 ^ 32 * ⌊x / 2 ^ 32⌋

theorem lowNs_nonneg (x : ℚ) : 0 ≤ lowNs x := by
  have hle := Int.floor_le (x / 2 ^ 32)
  rw [lowNs]
  linarith

theorem lowNs_lt (x : ℚ) : lowNs x < 2 ^ 32 := by
  have hlt := Int.lt_floor_add_one (x / 2 ^ 32)
  rw [lowNs]
  linarith

/-- Some layers, in whole multiples and what is left over. -/
theorem floor_layers (x : ℚ) (layers : Nat) :
    ⌊layers * x⌋ = ⌊layers * lowNs x⌋ + 2 ^ 32 * (layers * ⌊x / 2 ^ 32⌋) := by
  have hsplit : (layers * x : ℚ) = layers * lowNs x + (2 ^ 32 * (layers * ⌊x / 2 ^ 32⌋) : Int) := by
    rw [lowNs]
    push_cast
    ring
  rw [hsplit, Int.floor_add_intCast]

/-- The floor of some layers is that many floors, and less than one more for each. -/
theorem floor_layers_bounds (x : ℚ) {layers : Nat} (hlayers : 1 ≤ layers) :
    layers * ⌊x⌋ ≤ ⌊layers * x⌋ ∧ ⌊layers * x⌋ ≤ layers * ⌊x⌋ + layers - 1 := by
  have hlow := Int.floor_le x
  have hhigh := Int.lt_floor_add_one x
  have hpos : (0 : ℚ) < layers := by exact_mod_cast hlayers
  constructor
  · rw [Int.le_floor]
    push_cast
    exact mul_le_mul_of_nonneg_left hlow hpos.le
  · rw [Int.le_sub_one_iff, Int.floor_lt]
    push_cast
    calc (layers : ℚ) * x < layers * (⌊x⌋ + 1) := mul_lt_mul_of_pos_left hhigh hpos
      _ = layers * ⌊x⌋ + layers := by ring

/-- The carried delays are near each other exactly while the layers together stay below
the next multiple. -/
theorem carried_iff (x : ℚ) {layers : Nat} (hlayers : 1 ≤ layers) (hlt : layers < 2 ^ 32) :
    (-1 ≤ ⌊layers * x⌋ % 2 ^ 32 - layers * (⌊x⌋ % 2 ^ 32) ∧
        ⌊layers * x⌋ % 2 ^ 32 - layers * (⌊x⌋ % 2 ^ 32) ≤ layers) ↔
      layers * lowNs x < 2 ^ 32 := by
  have hone := floor_layers x 1
  rw [Nat.cast_one, one_mul, one_mul, Int.natCast_one, one_mul] at hone
  have hlow : 0 ≤ ⌊lowNs x⌋ := Int.floor_nonneg.mpr (lowNs_nonneg x)
  have hhigh : ⌊lowNs x⌋ < 2 ^ 32 := Int.floor_lt.mpr (by exact_mod_cast lowNs_lt x)
  obtain ⟨hmany, hfew⟩ := floor_layers_bounds (lowNs x) hlayers
  have hall := floor_layers x layers
  have hfloor : ⌊(layers : ℚ) * lowNs x⌋ < 2 ^ 32 ↔ layers * lowNs x < 2 ^ 32 := by
    rw [Int.floor_lt]
    norm_num
  have hword : ⌊x⌋ % 2 ^ 32 = ⌊lowNs x⌋ := by omega
  have hwords : ⌊layers * x⌋ % 2 ^ 32 = ⌊layers * lowNs x⌋ % 2 ^ 32 := by omega
  have hnonneg : 0 ≤ layers * ⌊lowNs x⌋ := by positivity
  rw [hword, hwords, ← hfloor]
  omega

/-! ### The delays of the two granularities -/

section
variable (profile : PIMCmdProfile) (tileCount layers : UInt32)

/-- The scaled time of some layers, from 64-bit sums. -/
def wrappedTotalNs : ℚ :=
  ((latencySum profile tileCount * layers.toNat % 2 ^ 64 : Nat) +
    1 / 2 * (commandCount profile tileCount * layers.toNat % 2 ^ 64 : Nat)) * profile.channelLatencyScale

/-- The 64-bit sums over some layers do not wrap. -/
def SumsFit : Prop :=
  latencySum profile tileCount * layers.toNat < 2 ^ 64 ∧ commandCount profile tileCount * layers.toNat < 2 ^ 64

variable {profile} (hpos : 0 < profile.channelLatencyScale)
include hpos

/-- The delay in the payload. -/
theorem carriedDelay_eq : ((macroDelayNs profile tileCount layers).toUInt32.toNat : Int) =
    ⌊wrappedTotalNs profile tileCount layers⌋ % 2 ^ 32 := by
  have hnonneg : 0 ≤ wrappedTotalNs profile tileCount layers := by
    unfold wrappedTotalNs
    positivity
  have hfloor : 0 ≤ (wrappedTotalNs profile tileCount layers).floor := Rat.le_floor_iff.mpr hnonneg
  have hdelay : (macroDelayNs profile tileCount layers).toNat =
      (wrappedTotalNs profile tileCount layers).floor.toNat % 2 ^ 64 := by
    rw [macroDelayNs, summedDelayNs_eq, microCommandCount_eq, UInt64.toNat_ofNat', UInt64.toNat_ofNat']
    show (UInt64.ofNat (max 0 (round (wrappedTotalNs profile tileCount layers - 1 / 2))).toNat).toNat = _
    rw [round_sub_half hnonneg, UInt64.toNat_ofNat']
  show _ = (wrappedTotalNs profile tileCount layers).floor % 2 ^ 32
  rw [UInt64.toNat_toUInt32, hdelay]
  omega

omit hpos in
/-- Without a wrap the time of some layers is that many times one layer's. -/
theorem wrappedTotalNs_eq (hfits : SumsFit profile tileCount layers) :
    wrappedTotalNs profile tileCount layers = layers.toNat * exactTotalNs profile tileCount := by
  rw [wrappedTotalNs, Nat.mod_eq_of_lt hfits.1, Nat.mod_eq_of_lt hfits.2, exactTotalNs_eq]
  push_cast
  ring

omit hpos in
theorem SumsFit.one {tileCount layers : UInt32} (h : SumsFit profile tileCount layers) (hlayers : layers ≠ 0) :
    SumsFit profile tileCount 1 := by
  have hone : 1 ≤ layers.toNat := Lib.toNat_pos hlayers
  have hsum : latencySum profile tileCount ≤ latencySum profile tileCount * layers.toNat :=
    Nat.le_mul_of_pos_right _ hone
  have hcount : commandCount profile tileCount ≤ commandCount profile tileCount * layers.toNat :=
    Nat.le_mul_of_pos_right _ hone
  rw [SumsFit, UInt32.toNat_one, Nat.mul_one, Nat.mul_one]
  exact ⟨hsum.trans_lt h.1, hcount.trans_lt h.2⟩

theorem delays_near_iff (hlayers : layers ≠ 0) (hfits : SumsFit profile tileCount layers) :
    (-1 ≤ ((macroDelayNs profile tileCount layers).toUInt32.toNat : Int) -
          layers.toNat * (macroDelayNs profile tileCount 1).toUInt32.toNat ∧
        ((macroDelayNs profile tileCount layers).toUInt32.toNat : Int) -
          layers.toNat * (macroDelayNs profile tileCount 1).toUInt32.toNat ≤ layers.toNat) ↔
      layers.toNat * lowNs (exactTotalNs profile tileCount) < 2 ^ 32 := by
  have hlayer : wrappedTotalNs profile tileCount 1 = _ := wrappedTotalNs_eq tileCount 1 (hfits.one hlayers)
  rw [UInt32.toNat_one, Nat.cast_one, one_mul] at hlayer
  rw [carriedDelay_eq tileCount layers hpos, carriedDelay_eq tileCount 1 hpos,
    wrappedTotalNs_eq tileCount layers hfits, hlayer]
  exact carried_iff _ (Lib.toNat_pos hlayers) layers.toNat_lt

end

/-! ### The emissions -/

open TraceGenerator (SpeculativeControl loadSpeculativeControlTrace)

namespace Config
variable (cfg : Config)

/-- The configuration in fast mode with a granularity. -/
def granular (g : Granularity) : Config := {cfg with
  syntheticPim := {cfg.syntheticPim with
    fastLayerMode := true
    fastLayerGranularity := g}}

/-- What the loop over the layers issues for one operation of a work item. -/
def layersTransactions (control : SpeculativeControl) (work : DraftWorkItem) (op : ModelOperationInfo) :
    Except String (List Payload) := do
  let layers ← (List.range cfg.simulatedLayerCount.toNat).mapM fun layerId =>
    cfg.operationTransactions control work layerId op
  return layers.flatten

/-- Collapsed and layer by layer an operation occupies the engine for the same time, to
half a nanosecond a layer and half of one more. -/
def GranularitiesAgree (control : SpeculativeControl) (work : DraftWorkItem) (op : ModelOperationInfo) :
    Prop :=
  ∃ collapsed perLayer, (cfg.granular .macro_).layersTransactions control work op = .ok collapsed ∧
    (cfg.granular .layer).layersTransactions control work op = .ok perLayer ∧
    |(occupancy collapsed : Int) - occupancy perLayer| ≤
      (cfg.draftLayerProfile.layerCount.toNat + 1) * halfNs

variable {cfg} {work : DraftWorkItem} {op : ModelOperationInfo}
  {profile : PIMCmdProfile} {outputTile tiles : UInt32}
  (hentry : cfg.operation? op = some (profile, outputTile))
  (htiles : cfg.draftAttentionTiles op work = .ok tiles)
include hentry htiles

theorem granular_transactions (control : SpeculativeControl) (g : Granularity) (layerId : Nat) : ∃ layer,
    (cfg.granular g).operationTransactions control work layerId op =
      .ok [macroTransaction profile (outputTile * tiles) (cfg.granular g).layerMultiplier layer op.name] := by
  have haggregate : (cfg.granular g).aggregateMicro = true := Bool.or_true _
  have hentry : (cfg.granular g).operation? op = some (profile, outputTile) := hentry
  have htiles : (cfg.granular g).draftAttentionTiles op work = .ok tiles := htiles
  unfold operationTransactions
  rw [hentry]
  dsimp only
  rw [htiles, haggregate]
  exact ⟨_, rfl⟩

/-- Each layer of the loop is one macro. -/
theorem occupancy_layers (control : SpeculativeControl) (g : Granularity) : ∃ transactions,
    (cfg.granular g).layersTransactions control work op = .ok transactions ∧
    occupancy transactions = (cfg.granular g).simulatedLayerCount.toNat *
      (1000 * (macroDelayNs profile (outputTile * tiles)
        (cfg.granular g).layerMultiplier).toUInt32.toNat + 500) := by
  have hids : ∀ ids : List Nat, ∃ layers, (ids.mapM fun layerId =>
      (cfg.granular g).operationTransactions control work layerId op) = .ok layers ∧
      occupancy layers.flatten = ids.length * (1000 * (macroDelayNs profile (outputTile * tiles)
        (cfg.granular g).layerMultiplier).toUInt32.toNat + 500) := by
    intro ids
    induction ids with
    | nil => exact ⟨[], rfl, by rw [List.length_nil, Nat.zero_mul]; rfl⟩
    | cons id ids ih =>
      obtain ⟨layers, hlayers, hsum⟩ := ih
      obtain ⟨layer, hone⟩ := granular_transactions hentry htiles control g id
      refine ⟨[macroTransaction profile (outputTile * tiles) (cfg.granular g).layerMultiplier layer
        op.name] :: layers, ?_, ?_⟩
      · rw [List.mapM_cons, hone, hlayers]
        rfl
      · have hmacro : occupancy [macroTransaction profile (outputTile * tiles)
            (cfg.granular g).layerMultiplier layer op.name] = 1000 * (macroDelayNs profile
              (outputTile * tiles) (cfg.granular g).layerMultiplier).toUInt32.toNat + 500 := rfl
        rw [List.flatten_cons, occupancy_append, hsum, hmacro, List.length_cons]
        ring
  obtain ⟨layers, hlayers, hsum⟩ := hids (List.range (cfg.granular g).simulatedLayerCount.toNat)
  rw [List.length_range] at hsum
  refine ⟨layers.flatten, ?_, hsum⟩
  rw [layersTransactions, hlayers]
  rfl

/-- The bound in terms of the delays in the payloads. -/
theorem agree_iff_near (control : SpeculativeControl) :
    cfg.GranularitiesAgree control work op ↔
      -1 ≤ ((macroDelayNs profile (outputTile * tiles)
          cfg.draftLayerProfile.layerCount).toUInt32.toNat : Int) -
          cfg.draftLayerProfile.layerCount.toNat *
            (macroDelayNs profile (outputTile * tiles) 1).toUInt32.toNat ∧
        ((macroDelayNs profile (outputTile * tiles)
          cfg.draftLayerProfile.layerCount).toUInt32.toNat : Int) -
          cfg.draftLayerProfile.layerCount.toNat *
            (macroDelayNs profile (outputTile * tiles) 1).toUInt32.toNat ≤
          cfg.draftLayerProfile.layerCount.toNat := by
  obtain ⟨collapsed, hcollapsed, hone⟩ := occupancy_layers hentry htiles control .macro_
  obtain ⟨perLayer, hperLayer, hmany⟩ := occupancy_layers hentry htiles control .layer
  have hunique : cfg.GranularitiesAgree control work op ↔
      |(occupancy collapsed : Int) - occupancy perLayer| ≤
        (cfg.draftLayerProfile.layerCount.toNat + 1) * halfNs := by
    constructor
    · rintro ⟨collapsed', perLayer', hcollapsed', hperLayer', hnear⟩
      cases hcollapsed.symm.trans hcollapsed'
      cases hperLayer.symm.trans hperLayer'
      exact hnear
    · exact fun hnear => ⟨collapsed, perLayer, hcollapsed, hperLayer, hnear⟩
  have hone : occupancy collapsed = 1000 * (macroDelayNs profile (outputTile * tiles)
      cfg.draftLayerProfile.layerCount).toUInt32.toNat + 500 := hone.trans (Nat.one_mul _)
  have hmany : occupancy perLayer = cfg.draftLayerProfile.layerCount.toNat *
      (1000 * (macroDelayNs profile (outputTile * tiles) 1).toUInt32.toNat + 500) := hmany
  rw [hunique, hone, hmany, abs_le, halfNs]
  push_cast
  rw [mul_add, mul_left_comm]
  omega

/-- **The granularities agree where the layers together lose no more than one layer does.**
Every configuration, operation with a profile, work item and positive scale for which the
64-bit sums do not wrap. -/
theorem granularity_iff (control : SpeculativeControl) (hlayers : cfg.draftLayerProfile.layerCount ≠ 0)
    (hpos : 0 < profile.channelLatencyScale)
    (hfits : SumsFit profile (outputTile * tiles) cfg.draftLayerProfile.layerCount) :
    cfg.GranularitiesAgree control work op ↔ cfg.draftLayerProfile.layerCount.toNat *
      lowNs (exactTotalNs profile (outputTile * tiles)) < 2 ^ 32 :=
  (agree_iff_near hentry htiles control).trans (delays_near_iff _ _ hpos hlayers hfits)

end Config

/-- A model of one operation, of one command that is issued 200 times. -/
def deepDraft (delay : UInt32) : Config where
  syntheticPim := {enabled := true}
  draftLayerProfile := {
    name := "model"
    layerCount := 32
    operations := [{name := "q_proj"}]}
  pimProfile := [("q_proj", oneCommand delay 200 1)]
  tileCntByLayer := [("q_proj", 1)]
  draftProfileLayer := ""

/-- 200 commands of 1000 ns in each of 32 layers. -/
theorem granularities_agree_deepDraft : ∃ controls, ∃ control ∈ controls, ∃ work ∈ draftWorkItems control,
    loadSpeculativeControlTrace {} [TraceGenerator.warmRecord 1 10 11] = .ok controls ∧
    (deepDraft 1000).GranularitiesAgree control work {name := "q_proj"} := by
  obtain ⟨controls, control, hcontrol, work, hwork, hload⟩ := warmWork_loaded
  refine ⟨controls, control, hcontrol, work, hwork, hload, ?_⟩
  refine (Config.granularity_iff rfl rfl control (by decide) (by decide) ⟨by decide, by decide⟩).mpr ?_
  decide +kernel

/-- 200 commands of a millisecond: the collapsed macro has lost 2^32 ns. -/
theorem collapsed_delay_narrowed :
    ∃ controls, ∃ control ∈ controls, ∃ work ∈ draftWorkItems control,
      loadSpeculativeControlTrace {} [TraceGenerator.warmRecord 1 10 11] = .ok controls ∧
      (0 < (oneCommand 1000000 200 1).channelLatencyScale ∧
        (oneCommand 1000000 200 1).channelLatencyScale ≤ 1) ∧
      (macroDelayNs (oneCommand 1000000 200 1) 1 32).toUInt32 = 2105035904 ∧
      (macroDelayNs (oneCommand 1000000 200 1) 1 1).toUInt32 = 200000100 ∧
      ¬ (deepDraft 1000000).GranularitiesAgree control work {name := "q_proj"} := by
  obtain ⟨controls, control, hcontrol, work, hwork, hload⟩ := warmWork_loaded
  refine ⟨controls, control, hcontrol, work, hwork, hload, by decide +kernel, by decide +kernel,
    by decide +kernel, ?_⟩
  intro hagree
  exact absurd ((Config.agree_iff_near rfl rfl control).mp hagree) (by decide +kernel)

end Hsim.Host
