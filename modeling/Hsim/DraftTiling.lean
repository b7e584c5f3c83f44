import Hsim.DraftStage

/-! The tiles of an attention product.

The context of a work item grows with its depth and its tree step, and `qkt` and
`sv` have one tile for each `attention_context_tile_tokens` of it, rounded up.
Context, rounding and the product with the output tiles are 32-bit numbers. The
tile size is the one divisor of a model profile that its loader does not check. -/
namespace Hsim.Host

open TraceGenerator (SpeculativeControl Line loadSpeculativeControlTrace)

/-- The context of a work item over the integers. -/
def DraftWorkItem.context (control : SpeculativeControl) (work : DraftWorkItem) : Nat :=
  control.draftKvCacheTokens.toNat + work.branchDepth.toNat + work.treeStep.toNat

/-- The sum in the work item is the one of its own fields. -/
theorem contextTokens_eq {control : SpeculativeControl} {work : DraftWorkItem}
    (h : work ∈ draftWorkItems control) :
    work.contextTokens = control.draftKvCacheTokens + work.branchDepth + work.treeStep := by
  unfold draftWorkItems at h
  split at h
  · obtain ⟨treeStep, -, h⟩ := List.mem_flatMap.mp h
    obtain ⟨⟨fanOut, branchDepth⟩, -, h⟩ := List.mem_flatMap.mp h
    obtain ⟨branchIndex, -, rfl⟩ := List.mem_map.mp h
    rfl
  · obtain ⟨proposal, -, rfl⟩ := List.mem_map.mp h
    exact (UInt32.add_zero _).symm

theorem toNat_contextTokens {control : SpeculativeControl} {work : DraftWorkItem}
    (h : work ∈ draftWorkItems control) :
    work.contextTokens.toNat = work.context control % 2 ^ 32 := by
  rw [contextTokens_eq h, UInt32.toNat_add, UInt32.toNat_add, Nat.mod_add_mod, DraftWorkItem.context]

/-- Rounding up in 32 bits. Below two tiles the wrapped quotient is one all the same. -/
theorem tiles_wrapped_iff {n size : Nat} (hpos : 0 < size) (hlt : size < 2 ^ 32) :
    max 1 ((n + size - 1) % 2 ^ 32 / size) = max 1 ((n + size - 1) / size) ↔
      n ≤ size ∨ n + size ≤ 2 ^ 32 := by
  rcases Nat.lt_or_ge (n + size - 1) (2 ^ 32) with hfits | hover
  · rw [Nat.mod_eq_of_lt hfits]
    exact iff_of_true rfl (.inr (by omega))
  · -- what wraps away is more than a tile
    have hless : (n + size - 1) % 2 ^ 32 / size + 1 ≤ (n + size - 1) / size := by
      have hle : (n + size - 1) % 2 ^ 32 + size ≤ n + size - 1 := by omega
      calc (n + size - 1) % 2 ^ 32 / size + 1
          = ((n + size - 1) % 2 ^ 32 + size) / size := (Nat.add_div_right _ hpos).symm
        _ ≤ (n + size - 1) / size := Nat.div_le_div_right hle
    have hone : (n + size - 1) / size ≤ 1 ↔ n ≤ size := by
      rw [← Nat.lt_succ_iff, Nat.div_lt_iff_lt_mul hpos]
      omega
    omega

/-- The rounding of the code. -/
theorem toNat_tiles {control : SpeculativeControl} {work : DraftWorkItem}
    (h : work ∈ draftWorkItems control) {size : UInt32} (hpos : 0 < size.toNat) :
    (max 1 ((work.contextTokens + size - 1) / size)).toNat =
      max 1 ((work.context control + size.toNat - 1) % 2 ^ 32 / size.toNat) := by
  have hone : (1 : UInt32).toNat = 1 := rfl
  have hsize := size.toNat_lt
  rw [Lib.toNat_max, UInt32.toNat_div, UInt32.toNat_sub, UInt32.toNat_add, toNat_contextTokens h, hone]
  congr 2
  omega

namespace Config
variable (cfg : Config) (control : SpeculativeControl) (work : DraftWorkItem) (op : ModelOperationInfo)

/-- The intended number of tiles. -/
def attentionTiles : Nat :=
  if op.name = "qkt" ∨ op.name = "sv" then
    let size := cfg.draftLayerProfile.attentionContextTileTokens.toNat
    max 1 ((work.context control + size - 1) / size)
  else 1

/-- The tiles are defined and the intended ones, and their product with the output tiles
of the operation, if it has a profile, does not wrap. -/
def TilesExactly : Prop :=
  ∃ tiles, cfg.draftAttentionTiles op work = .ok tiles ∧
    tiles.toNat = cfg.attentionTiles control work op ∧
    ∀ profile outputTile, cfg.operation? op = some (profile, outputTile) →
      (outputTile * tiles).toNat = outputTile.toNat * tiles.toNat

/-- An attention product has a tile size, its context rounds up in 32 bits or has one tile,
and all its tiles are less than 2^32. -/
def TilesFit : Prop :=
  op.name = "qkt" ∨ op.name = "sv" →
    let size := cfg.draftLayerProfile.attentionContextTileTokens.toNat
    size ≠ 0 ∧ (work.context control ≤ size ∨ work.context control + size ≤ 2 ^ 32) ∧
      ∀ profile outputTile, cfg.operation? op = some (profile, outputTile) →
        outputTile.toNat * max 1 ((work.context control + size - 1) / size) < 2 ^ 32

variable {control work} in
/-- **Attention tiling is exact where the tiles fit.** Every profile, control record, work
item of it and operation. -/
theorem tiles_exact_iff (hwork : work ∈ draftWorkItems control) :
    cfg.TilesExactly control work op ↔ cfg.TilesFit control work op := by
  by_cases hattention : op.name = "qkt" ∨ op.name = "sv"
  · have hnot : ¬ (op.name ≠ "qkt" ∧ op.name ≠ "sv") := by rwa [← not_or, not_not]
    rw [TilesExactly, TilesFit, imp_iff_right hattention]
    unfold draftAttentionTiles attentionTiles
    dsimp only
    simp only [if_neg hnot, if_pos hattention]
    by_cases hzero : cfg.draftLayerProfile.attentionContextTileTokens = 0
    · simp [hzero]
    · have hpos : 0 < cfg.draftLayerProfile.attentionContextTileTokens.toNat :=
        Lib.toNat_pos hzero
      have htiles := toNat_tiles hwork hpos
      have hiff := tiles_wrapped_iff (n := work.context control) hpos (UInt32.toNat_lt _)
      simp only [if_neg hzero, Except.ok.injEq, exists_eq_left', Lib.toNat_mul_iff]
      rw [htiles, hiff]
      constructor
      · rintro ⟨hcontext, hproduct⟩
        refine ⟨hpos.ne', hcontext, fun profile outputTile hentry => ?_⟩
        rw [← hiff.mpr hcontext]
        exact hproduct profile outputTile hentry
      · rintro ⟨-, hcontext, hproduct⟩
        refine ⟨hcontext, fun profile outputTile hentry => ?_⟩
        rw [hiff.mpr hcontext]
        exact hproduct profile outputTile hentry
  · have hother : op.name ≠ "qkt" ∧ op.name ≠ "sv" := not_or.mp hattention
    refine iff_of_true ⟨1, ?_, ?_, fun profile outputTile _ => ?_⟩ fun h => absurd h hattention
    · unfold draftAttentionTiles
      exact if_pos hother
    · exact (if_neg hattention).symm
    · rw [UInt32.mul_one]
      exact (Nat.mul_one _).symm

end Config

/-- The model file of `attentionDraft`. -/
def attentionFile (tileTokens : UInt32) : Json :=
  .obj [("decoder_layers", .int 1), ("attention_context_tile_tokens", .int tileTokens.toNat),
    ("operations", .arr [.obj [("name", .str "qkt")]])]

/-- The loader accepts a record with a work item. -/
def warmWork : Bool :=
  (loadSpeculativeControlTrace {} [TraceGenerator.warmRecord 1 10 11]).toOption.any fun controls =>
    controls.any fun control => (draftWorkItems control).any fun _ => true

theorem warmWork_loaded : ∃ controls, ∃ control ∈ controls, ∃ work ∈ draftWorkItems control,
    loadSpeculativeControlTrace {} [TraceGenerator.warmRecord 1 10 11] = .ok controls := by
  have hwarm : warmWork = true := by decide +kernel
  obtain ⟨controls, hload, hany⟩ := ok_of_any hwarm
  obtain ⟨control, hcontrol, hany⟩ := List.any_eq_true.mp hany
  obtain ⟨work, hwork, -⟩ := List.any_eq_true.mp hany
  exact ⟨controls, control, hcontrol, work, hwork, hload⟩

/-- The loader accepts a record with a work item whose context takes several tiles. -/
def treeContext : Bool :=
  (loadSpeculativeControlTrace {} [treeRecord]).toOption.any fun controls =>
    controls.any fun control => (draftWorkItems control).any fun work => work.context control = 302

theorem treeContext_loaded : ∃ controls, ∃ control ∈ controls, ∃ work ∈ draftWorkItems control,
    loadSpeculativeControlTrace {} [treeRecord] = .ok controls ∧ work.context control = 302 := by
  have htree : treeContext = true := by decide +kernel
  obtain ⟨controls, hload, hany⟩ := ok_of_any htree
  obtain ⟨control, hcontrol, hany⟩ := List.any_eq_true.mp hany
  obtain ⟨work, hwork, heq⟩ := List.any_eq_true.mp hany
  exact ⟨controls, control, hcontrol, work, hwork, hload, of_decide_eq_true heq⟩

/-- A context of 302 tokens takes three tiles of 128, of an operation with two tiles. -/
theorem tiles_exact_treeDraft : ∃ controls, ∃ control ∈ controls, ∃ work ∈ draftWorkItems control,
    loadSpeculativeControlTrace {} [treeRecord] = .ok controls ∧ work.context control = 302 ∧
    treeDraft.draftAttentionTiles {name := "qkt"} work = .ok 3 ∧
    treeDraft.TilesExactly control work {name := "qkt"} := by
  obtain ⟨controls, control, hcontrol, work, hwork, hload, hcontext⟩ := treeContext_loaded
  have hexact : treeDraft.TilesExactly control work {name := "qkt"} := by
    refine (treeDraft.tiles_exact_iff _ hwork).mpr fun _ => ⟨by decide, .inr ?_, ?_⟩
    · rw [hcontext]
      decide
    · intro profile outputTile hentry
      cases hentry
      rw [hcontext]
      decide
  refine ⟨controls, control, hcontrol, work, hwork, hload, hcontext, ?_, hexact⟩
  obtain ⟨tiles, hok, htiles, -⟩ := hexact
  have hthree : treeDraft.attentionTiles control work {name := "qkt"} = 3 := by
    unfold Config.attentionTiles
    rw [hcontext]
    decide
  rw [hok, UInt32.toNat_inj.mp (htiles.trans hthree : tiles.toNat = (3 : UInt32).toNat)]

/-- A tile size of zero is accepted, and divided by. -/
theorem tiles_of_no_tokens : ∃ controls, ∃ control ∈ controls, ∃ work ∈ draftWorkItems control,
    loadModelLayerProfile (fun _ => .ok (attentionFile 0)) "model" =
        .ok (attentionDraft 0).draftLayerProfile ∧
      loadSpeculativeControlTrace {} [TraceGenerator.warmRecord 1 10 11] = .ok controls ∧
      (attentionDraft 0).draftAttentionTiles {name := "qkt"} work = .error "integer division by zero" ∧
      ¬ (attentionDraft 0).TilesExactly control work {name := "qkt"} := by
  obtain ⟨controls, control, hcontrol, work, hwork, hload⟩ := warmWork_loaded
  have hdivides : (attentionDraft 0).draftAttentionTiles {name := "qkt"} work =
      .error "integer division by zero" :=
    (attentionDraft 0).draftAttentionTiles_zero work rfl (.inl rfl)
  refine ⟨controls, control, hcontrol, work, hwork, rfl, hload, hdivides, ?_⟩
  rintro ⟨tiles, hok, -⟩
  rw [hdivides] at hok
  cases hok

end Hsim.Host
