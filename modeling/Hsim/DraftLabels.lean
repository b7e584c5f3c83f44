import Hsim.DraftStage
import Hsim.Labels

/-! The labels of the draft's macros.

A macro is an operation of the draft model for one work item of a stage, in one
layer or in all of them. Its label spells these coordinates between literal
separators, and every number is followed by a character that is no digit, so the
coordinates can be read back; the operation's name comes last and may be any
text. -/
namespace Hsim.Host

open TraceGenerator (SpeculativeControl)

/-! ### Coordinates -/

/-- The work item of a macro, as its label has it. -/
inductive WorkPosition where
  | branch (treeStep branchDepth branchIndex : UInt32)
  | proposal (index : UInt32)
  deriving DecidableEq, Repr

/-- What a macro is for. `layer` is `none` for a macro of all layers. -/
@[ext]
structure Coordinates where
  sampleIndex : UInt32
  iteration : UInt32
  work : WorkPosition
  layer : Option UInt32
  operation : String
  deriving DecidableEq, Repr

def WorkPosition.label : WorkPosition → String
  | .branch treeStep branchDepth branchIndex =>
    ".tree_step" ++ toString treeStep.toNat ++ ".depth" ++ toString branchDepth.toNat ++
      ".branch" ++ toString branchIndex.toNat
  | .proposal index => ".proposal" ++ toString index.toNat

def layerLabel : Option UInt32 → String
  | none => ".macro"
  | some id => ".layer" ++ toString id.toNat

def Coordinates.label (x : Coordinates) : String :=
  "draft_pim." ++ ("sample" ++ toString x.sampleIndex.toNat ++ ".iter" ++ toString x.iteration.toNat) ++
    x.work.label ++ layerLabel x.layer ++ ".op." ++ x.operation

/-- A work item and what follows it. -/
theorem WorkPosition.label_inj {v w : WorkPosition} {a b : List Char} (ha : NoDigit a) (hb : NoDigit b)
    (h : v.label.toList ++ a = w.label.toList ++ b) : v = w ∧ a = b := by
  cases v with
  | branch treeStep depth index =>
    cases w with
    | branch treeStep' depth' index' =>
      simp only [label, String.toList_append, List.append_assoc, List.append_cancel_left_eq] at h
      obtain ⟨hstep, hdepth⟩ := number_inj (by simp [NoDigit]) (by simp [NoDigit]) h
      rw [List.append_cancel_left_eq] at hdepth
      obtain ⟨hdepth, hindex⟩ := number_inj (by simp [NoDigit]) (by simp [NoDigit]) hdepth
      rw [List.append_cancel_left_eq] at hindex
      obtain ⟨hindex, hrest⟩ := number_inj ha hb hindex
      exact ⟨by rw [hstep, hdepth, hindex], hrest⟩
    | proposal index' => simp [label] at h
  | proposal index =>
    cases w with
    | branch treeStep' depth' index' => simp [label] at h
    | proposal index' =>
      simp only [label, String.toList_append, List.append_assoc, List.append_cancel_left_eq] at h
      obtain ⟨hindex, hrest⟩ := number_inj ha hb h
      exact ⟨by rw [hindex], hrest⟩

/-- A layer, or the mark of all, and what follows it. -/
theorem layerLabel_inj {v w : Option UInt32} {a b : List Char} (ha : NoDigit a) (hb : NoDigit b)
    (h : (layerLabel v).toList ++ a = (layerLabel w).toList ++ b) : v = w ∧ a = b := by
  cases v with
  | none =>
    cases w with
    | none => exact ⟨rfl, (List.append_cancel_left_eq ..).mp h⟩
    | some id => simp [layerLabel] at h
  | some id =>
    cases w with
    | none => simp [layerLabel] at h
    | some id' =>
      simp only [layerLabel, String.toList_append, List.append_assoc, List.append_cancel_left_eq] at h
      obtain ⟨hid, hrest⟩ := number_inj ha hb h
      exact ⟨by rw [hid], hrest⟩

theorem layerLabel_noDigit (layer : Option UInt32) (text : List Char) :
    NoDigit ((layerLabel layer).toList ++ text) := by
  cases layer <;> simp [layerLabel, NoDigit]

theorem WorkPosition.label_noDigit (work : WorkPosition) (text : List Char) :
    NoDigit (work.label.toList ++ text) := by
  cases work <;> simp [label, NoDigit]

/-- **A label tells the coordinates of its macro.** -/
theorem Coordinates.label_injective : Function.Injective Coordinates.label := by
  intro x y h
  have hchars := congrArg String.toList h
  simp only [label, String.toList_append, List.append_assoc, List.append_cancel_left_eq] at hchars
  obtain ⟨hsample, hchars⟩ := number_inj (by simp [NoDigit]) (by simp [NoDigit]) hchars
  rw [List.append_cancel_left_eq] at hchars
  obtain ⟨hiteration, hchars⟩ :=
    number_inj (WorkPosition.label_noDigit _ _) (WorkPosition.label_noDigit _ _) hchars
  obtain ⟨hwork, hchars⟩ :=
    WorkPosition.label_inj (layerLabel_noDigit _ _) (layerLabel_noDigit _ _) hchars
  obtain ⟨hlayer, hchars⟩ := layerLabel_inj (by simp [NoDigit]) (by simp [NoDigit]) hchars
  rw [List.append_cancel_left_eq] at hchars
  exact Coordinates.ext hsample hiteration hwork hlayer (String.toList_inj.mp hchars)

theorem Coordinates.label_draft (x : Coordinates) : PimWrapper.isDraft x.label = true := by
  simp only [label, String.append_assoc]
  exact startsWith_append _ _

/-! ### The macros of a stage -/

/-- What a numbering leaves alone. -/
theorem map_mapIdx_kept {α β : Type} {f : Nat → α → α} {g : α → β} (h : ∀ i a, g (f i a) = g a)
    (l : List α) : (l.mapIdx f).map g = l.map g := by
  refine List.ext_getElem? fun i => ?_
  rw [List.getElem?_map, List.getElem?_mapIdx, List.getElem?_map, Option.map_map]
  exact congrArg (Option.map · l[i]?) (funext (h i))

def workPosition (control : SpeculativeControl) (work : DraftWorkItem) : WorkPosition :=
  if control.algorithm = "ssd" then .branch work.treeStep work.branchDepth work.branchIndex
  else .proposal work.branchDepth

theorem workPosition_label (control : SpeculativeControl) (work : DraftWorkItem) :
    (workPosition control work).label = workLabel control work := by
  unfold workPosition workLabel
  split <;> rfl

namespace Config
variable (cfg : Config)

def coordinates (control : SpeculativeControl) (work : DraftWorkItem) (layerId : Nat)
    (op : ModelOperationInfo) : Coordinates where
  sampleIndex := control.sampleIndex
  iteration := control.iteration
  work := workPosition control work
  layer := if cfg.collapseLayers then none else some (.ofNat layerId)
  operation := op.name

/-- The macros of a record, in the order of the loops. -/
def macros (control : SpeculativeControl) : List Coordinates :=
  (draftWorkItems control).flatMap fun work =>
    (List.range cfg.simulatedLayerCount.toNat).flatMap fun layerId =>
      cfg.draftLayerProfile.operations.flatMap fun op =>
        if (cfg.operation? op).isSome then [cfg.coordinates control work layerId op] else []

theorem coordinates_label (control : SpeculativeControl) (work : DraftWorkItem) {layerId : Nat}
    (hlayer : layerId < 2 ^ 32) (op : ModelOperationInfo) :
    (cfg.coordinates control work layerId op).label =
      "draft_pim." ++ samplePrefix control ++ workLabel control work ++
        (if cfg.collapseLayers then ".macro" else ".layer" ++ toString layerId) ++ ".op." ++ op.name := by
  have hid : layerLabel (cfg.coordinates control work layerId op).layer =
      if cfg.collapseLayers then ".macro" else ".layer" ++ toString layerId := by
    rw [coordinates]
    split
    · rfl
    · rw [layerLabel, UInt32.toNat_ofNat_of_lt' hlayer]
  rw [Coordinates.label, hid, ← workPosition_label]
  rfl

theorem operationTransactions_macros {control : SpeculativeControl} (work : DraftWorkItem)
    {layerId : Nat} (hlayer : layerId < 2 ^ 32) {op : ModelOperationInfo} {transactions : List Payload}
    (haggregate : cfg.aggregateMicro = true)
    (h : cfg.operationTransactions control work layerId op = .ok transactions) :
    List.Forall₂ (fun x t => t.layer = x.label)
      (if (cfg.operation? op).isSome then [cfg.coordinates control work layerId op] else [])
      transactions := by
  unfold operationTransactions at h
  cases ho : cfg.operation? op with
  | none =>
    rw [ho] at h
    cases h
    exact .nil
  | some entry =>
    rw [ho] at h
    obtain ⟨attention, -, h⟩ := ok_of_bind h
    cases h
    rw [if_pos haggregate]
    refine .cons ?_ .nil
    rw [coordinates_label cfg control work hlayer]
    rfl

/-- The label of an aggregated operation tells its coordinates. -/
theorem operationTransactions_label {control : SpeculativeControl} (work : DraftWorkItem)
    {layerId : Nat} (hlayer : layerId < 2 ^ 32) {op : ModelOperationInfo} {transactions : List Payload}
    (haggregate : cfg.aggregateMicro = true)
    (h : cfg.operationTransactions control work layerId op = .ok transactions) :
    ∀ t ∈ transactions, t.layer = (cfg.coordinates control work layerId op).label := by
  have hmacros := cfg.operationTransactions_macros work hlayer haggregate h
  split at hmacros
  · obtain ⟨t, rest, hlabel, hrest, rfl⟩ := List.forall₂_cons_left_iff.mp hmacros
    rw [List.forall₂_nil_left_iff.mp hrest]
    exact List.forall_mem_singleton.mpr hlabel
  · rw [List.forall₂_nil_left_iff.mp hmacros]
    exact List.forall_mem_nil _

/-- The transactions of an aggregated record are its macros, under their labels. -/
theorem draftTransactions_macros {control : SpeculativeControl} (haggregate : cfg.aggregateMicro = true)
    {draft : List Payload} (h : cfg.draftTransactions control = .ok draft) :
    List.Forall₂ (fun x t => t.layer = x.label) (cfg.macros control) draft := by
  have hitems : draftWorkItems control = (draftWorkItems control).map id := (List.map_id _).symm
  refine cfg.draftTransactions_follows hitems (fun work layerId hid ops hops => ?_) h
  have hlayer : layerId < 2 ^ 32 := hid.trans cfg.simulatedLayerCount.toNat_lt
  rw [← List.flatMap_id]
  exact forall₂_of_mapM id
    (fun op _ transactions hop => cfg.operationTransactions_macros work hlayer haggregate hop) hops

theorem emission_macros {control : SpeculativeControl} (hsynthetic : cfg.syntheticPim.enabled = true)
    (haggregate : cfg.aggregateMicro = true) {transactions : List Payload}
    (h : cfg.emission control = .ok transactions) :
    transactions.map (·.layer) = (cfg.macros control).map Coordinates.label := by
  rw [emission, if_pos hsynthetic] at h
  obtain ⟨_, draft, -, -, hdraft, -, rfl⟩ := cfg.syntheticEmission_ok h
  have hmacros := cfg.draftTransactions_macros haggregate hdraft
  have hlabels : draft.map (·.layer) = (cfg.macros control).map Coordinates.label := by
    rw [← List.forall₂_eq_eq_eq, List.forall₂_map_left_iff, List.forall₂_map_right_iff]
    exact hmacros.flip
  rw [← hlabels, markLast, map_mapIdx_kept]
  exact fun _ _ => rfl

end Config

end Hsim.Host
