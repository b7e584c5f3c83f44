import Hsim.BridgeTicked
import Hsim.TraceShape

/-! The PIM work of a stage.

With the synthetic PIM the host counts the transactions of a record before it
issues them, work item by operation, and multiplies by the layers; the loop that
issues them nests layers and operations the other way round. The two agree, so the
mark falls on the last transaction. From a template the number is a product, and
nothing checks that it is not zero. -/
namespace Hsim.Host

open TraceGenerator (SpeculativeControl Line loadSpeculativeControlTrace)

/-! ### Traversals -/

theorem ok_of_mapM {α β : Type} {f : α → Except String β} {l : List α} {l' : List β}
    (h : l.mapM f = .ok l') : ∀ a ∈ l, ∃ b, f a = .ok b := by
  induction l generalizing l' with
  | nil => simp
  | cons a l ih =>
    rw [List.mapM_cons] at h
    obtain ⟨b, hb, h⟩ := ok_of_bind h
    obtain ⟨rest, hrest, -⟩ := ok_of_bind h
    intro a' ha'
    rcases List.mem_cons.mp ha' with rfl | ha'
    · exact ⟨b, hb⟩
    · exact ih hrest a' ha'

theorem mapM_ok {α β : Type} {f : α → Except String β} {l : List α} (h : ∀ a ∈ l, ∃ b, f a = .ok b) :
    ∃ l', l.mapM f = .ok l' := by
  induction l with
  | nil => exact ⟨[], rfl⟩
  | cons a l ih =>
    obtain ⟨b, hb⟩ := h a List.mem_cons_self
    obtain ⟨l', hl'⟩ := ih fun a' ha' => h a' (List.mem_cons_of_mem _ ha')
    refine ⟨b :: l', ?_⟩
    rw [List.mapM_cons, hb, hl']
    rfl

/-- What the steps of a traversal give, in order. -/
theorem forall₂_of_mapM {α β γ δ : Type} {R : γ → δ → Prop} {f : α → Except String β}
    {g : α → List γ} (items : β → List δ) {l : List α} {l' : List β}
    (hf : ∀ a ∈ l, ∀ b, f a = .ok b → List.Forall₂ R (g a) (items b)) (h : l.mapM f = .ok l') :
    List.Forall₂ R (l.flatMap g) (l'.flatMap items) := by
  induction l generalizing l' with
  | nil =>
    cases h
    exact .nil
  | cons a l ih =>
    rw [List.mapM_cons] at h
    obtain ⟨b, hb, h⟩ := ok_of_bind h
    obtain ⟨rest, hrest, h⟩ := ok_of_bind h
    cases h
    rw [List.flatMap_cons, List.flatMap_cons]
    exact List.rel_append (hf a List.mem_cons_self b hb)
      (ih (fun a' ha' => hf a' (List.mem_cons_of_mem _ ha')) hrest)

/-- Lists that are told apart by a key of their elements do not meet. -/
theorem nodup_flatMap_key {α β κ : Type} {f : α → List β} {p : β → κ} {q : α → κ} {l : List α}
    (hl : (l.map q).Nodup) (hf : ∀ a ∈ l, (f a).Nodup) (hkey : ∀ a ∈ l, ∀ b ∈ f a, p b = q a) :
    (l.flatMap f).Nodup := by
  induction l with
  | nil => simp
  | cons a l ih =>
    rw [List.map_cons, List.nodup_cons] at hl
    rw [List.flatMap_cons]
    refine List.Nodup.append (hf a List.mem_cons_self) ?_ ?_
    · exact ih hl.2 (fun a' ha' => hf a' (List.mem_cons_of_mem _ ha'))
        fun a' ha' => hkey a' (List.mem_cons_of_mem _ ha')
    · intro b hb hb'
      obtain ⟨a', ha', hb'⟩ := List.mem_flatMap.mp hb'
      have hsame : q a = q a' := by
        rw [← hkey a List.mem_cons_self b hb, hkey a' (List.mem_cons_of_mem _ ha') b hb']
      rw [hsame] at hl
      exact hl.1 (List.mem_map_of_mem ha')

/-! ### The tree of an SSD record -/

/-- A forward pass of the draft on one operation. -/
structure TreeNode where
  treeStep : Nat
  branchDepth : Nat
  branchIndex : Nat
  layer : Nat
  operation : Nat
  deriving DecidableEq

/-- The work item of a node. Its context is the cache, the depth of the branch and the
step, in 32 bits. -/
def nodeWork (control : SpeculativeControl) (treeStep branchDepth branchIndex : Nat) : DraftWorkItem where
  contextTokens := control.draftKvCacheTokens + .ofNat branchDepth + .ofNat treeStep
  treeStep := .ofNat treeStep
  branchDepth := .ofNat branchDepth
  branchIndex := .ofNat branchIndex

/-- The steps, depths and branches, in the order of the loops. -/
def branches (control : SpeculativeControl) : List (Nat × Nat × Nat) :=
  (List.range control.draftTreeSteps.toNat).flatMap fun treeStep =>
    control.draftFanOutList.zipIdx.flatMap fun e =>
      (List.range e.1.toNat).map fun branchIndex => (treeStep, e.2, branchIndex)

theorem draftWorkItems_branches {control : SpeculativeControl} (hssd : control.algorithm = "ssd") :
    draftWorkItems control = (branches control).map fun b => nodeWork control b.1 b.2.1 b.2.2 := by
  rw [draftWorkItems, if_pos hssd, branches, List.map_flatMap]
  simp only [List.map_flatMap, List.map_map]
  rfl

theorem mem_branches {control : SpeculativeControl} {b : Nat × Nat × Nat} :
    b ∈ branches control ↔ b.1 < control.draftTreeSteps.toNat ∧
      ∃ fanOut, control.draftFanOutList[b.2.1]? = some fanOut ∧ b.2.2 < fanOut.toNat := by
  obtain ⟨treeStep, branchDepth, branchIndex⟩ := b
  simp only [branches, List.mem_flatMap, List.mem_range, List.mem_map, Prod.mk.injEq]
  constructor
  · rintro ⟨step, hstep, ⟨fanOut, depth⟩, he, index, hindex, rfl, rfl, rfl⟩
    exact ⟨hstep, fanOut, List.mem_zipIdx_iff_getElem?.mp he, hindex⟩
  · rintro ⟨hstep, fanOut, hfanOut, hindex⟩
    exact ⟨treeStep, hstep, (fanOut, branchDepth), List.mem_zipIdx_iff_getElem?.mpr hfanOut, branchIndex,
      hindex, rfl, rfl, rfl⟩

theorem branches_nodup (control : SpeculativeControl) : (branches control).Nodup := by
  refine nodup_flatMap_key (p := fun b => b.1) (q := id) (by simpa using List.nodup_range) ?_ ?_
  · intro treeStep _
    refine nodup_flatMap_key (p := fun b => b.2.1) (q := Prod.snd) ?_ ?_ ?_
    · rw [List.zipIdx_map_snd]
      exact List.nodup_range'
    · intro e _
      refine List.Nodup.map (fun i j hij => ?_) List.nodup_range
      exact (Prod.mk.inj (Prod.mk.inj hij).2).2
    · intro e _ b hb
      obtain ⟨_, -, rfl⟩ := List.mem_map.mp hb
      rfl
  · intro treeStep _ b hb
    obtain ⟨e, -, hb⟩ := List.mem_flatMap.mp hb
    obtain ⟨_, -, rfl⟩ := List.mem_map.mp hb
    rfl

theorem branches_length (control : SpeculativeControl) :
    (branches control).length =
      control.draftTreeSteps.toNat * (control.draftFanOutList.map UInt32.toNat).sum := by
  have hfan : (control.draftFanOutList.zipIdx.map fun e => e.1.toNat) =
      control.draftFanOutList.map UInt32.toNat := by
    have hmap := congrArg (List.map UInt32.toNat) (List.zipIdx_map_fst 0 control.draftFanOutList)
    rw [List.map_map] at hmap
    exact hmap
  simp [branches, List.length_flatMap, List.map_const', hfan]

namespace Config
variable (cfg : Config)

/-- The operations that are not skipped, with their places in the profile. -/
def activeOperations : List (ModelOperationInfo × Nat) :=
  cfg.draftLayerProfile.operations.zipIdx.filter fun e => (cfg.operation? e.1).isSome

/-- The nodes of a record, in the order of the emission. -/
def treePlan (control : SpeculativeControl) : List TreeNode :=
  (branches control).flatMap fun b =>
    (List.range cfg.simulatedLayerCount.toNat).flatMap fun layer =>
      cfg.activeOperations.map fun e => ⟨b.1, b.2.1, b.2.2, layer, e.2⟩

/-- A node of the record's tree: a branch of its depth, a layer, and an operation with a
profile and a tile entry. -/
structure InTree (control : SpeculativeControl) (n : TreeNode) : Prop where
  treeStep : n.treeStep < control.draftTreeSteps.toNat
  branch : ∃ fanOut, control.draftFanOutList[n.branchDepth]? = some fanOut ∧ n.branchIndex < fanOut.toNat
  layer : n.layer < cfg.simulatedLayerCount.toNat
  operation : ∃ op, cfg.draftLayerProfile.operations[n.operation]? = some op ∧
    (cfg.operation? op).isSome = true

/-- The transaction of a node: the one its operation is aggregated into. -/
def NodePushed (control : SpeculativeControl) (n : TreeNode) (t : Payload) : Prop :=
  ∃ op u, cfg.draftLayerProfile.operations[n.operation]? = some op ∧
    cfg.operationTransactions control (nodeWork control n.treeStep n.branchDepth n.branchIndex) n.layer op =
      .ok [u] ∧ t = {u with last := t.last}

theorem mem_activeOperations {e : ModelOperationInfo × Nat} :
    e ∈ cfg.activeOperations ↔ cfg.draftLayerProfile.operations[e.2]? = some e.1 ∧
      (cfg.operation? e.1).isSome = true := by
  rw [activeOperations, List.mem_filter, List.mem_zipIdx_iff_getElem?]

theorem mem_treePlan {control : SpeculativeControl} {n : TreeNode} :
    n ∈ cfg.treePlan control ↔ cfg.InTree control n := by
  simp only [treePlan, List.mem_flatMap, List.mem_range, List.mem_map, mem_branches,
    mem_activeOperations]
  constructor
  · rintro ⟨b, ⟨hstep, hbranch⟩, layer, hlayer, e, ⟨hop, hactive⟩, rfl⟩
    exact ⟨hstep, hbranch, hlayer, e.1, hop, hactive⟩
  · intro h
    obtain ⟨op, hop, hactive⟩ := h.operation
    exact ⟨(n.treeStep, n.branchDepth, n.branchIndex), ⟨h.treeStep, h.branch⟩, n.layer, h.layer,
      (op, n.operation), ⟨hop, hactive⟩, rfl⟩

theorem treePlan_nodup (control : SpeculativeControl) : (cfg.treePlan control).Nodup := by
  refine nodup_flatMap_key (p := fun n => (n.treeStep, n.branchDepth, n.branchIndex)) (q := id)
    (by simpa using branches_nodup control) ?_ ?_
  · intro b _
    refine nodup_flatMap_key (p := TreeNode.layer) (q := id) (by simpa using List.nodup_range) ?_ ?_
    · intro layer _
      have hplaces : (cfg.activeOperations.map Prod.snd).Nodup := by
        refine List.Sublist.nodup (List.filter_sublist.map Prod.snd) ?_
        rw [List.zipIdx_map_snd]
        exact List.nodup_range'
      refine List.Nodup.of_map TreeNode.operation ?_
      rw [List.map_map]
      exact hplaces
    · intro layer _ n hn
      obtain ⟨_, -, rfl⟩ := List.mem_map.mp hn
      rfl
  · intro b _ n hn
    obtain ⟨layer, -, hn⟩ := List.mem_flatMap.mp hn
    obtain ⟨_, -, rfl⟩ := List.mem_map.mp hn
    rfl

theorem activeOperations_length :
    cfg.activeOperations.length =
      (cfg.draftLayerProfile.operations.filter fun op => (cfg.operation? op).isSome).length := by
  have hmap : cfg.activeOperations.map Prod.fst =
      cfg.draftLayerProfile.operations.filter fun op => (cfg.operation? op).isSome := by
    have hfst := congrArg (List.filter fun op => (cfg.operation? op).isSome)
      (List.zipIdx_map_fst 0 cfg.draftLayerProfile.operations)
    rw [List.filter_map] at hfst
    exact hfst
  rw [← hmap, List.length_map]

theorem treePlan_length (control : SpeculativeControl) :
    (cfg.treePlan control).length =
      control.draftTreeSteps.toNat * (control.draftFanOutList.map UInt32.toNat).sum *
        cfg.simulatedLayerCount.toNat *
        (cfg.draftLayerProfile.operations.filter fun op => (cfg.operation? op).isSome).length := by
  rw [← activeOperations_length, ← branches_length, treePlan]
  simp [List.length_flatMap, List.map_const', Nat.mul_assoc]

/-- An aggregated operation is one transaction, or none if it is skipped. -/
theorem operationTransactions_aggregated {control : SpeculativeControl} {work : DraftWorkItem}
    {layerId : Nat} {op : ModelOperationInfo} {transactions : List Payload}
    (haggregate : cfg.aggregateMicro = true)
    (h : cfg.operationTransactions control work layerId op = .ok transactions) :
    transactions = [] ∧ cfg.operation? op = none ∨
      (cfg.operation? op).isSome = true ∧ ∃ t, transactions = [t] := by
  unfold operationTransactions at h
  cases ho : cfg.operation? op with
  | none =>
    rw [ho] at h
    cases h
    exact .inl ⟨rfl, rfl⟩
  | some entry =>
    rw [ho] at h
    obtain ⟨attention, -, h⟩ := ok_of_bind h
    cases h
    rw [if_pos haggregate]
    exact .inr ⟨rfl, _, rfl⟩

/-- One layer of a work item pushes its active operations. -/
theorem operations_pushed {control : SpeculativeControl} (haggregate : cfg.aggregateMicro = true)
    {b : Nat × Nat × Nat} {layer : Nat} {ops : List (List Payload)}
    (h : cfg.draftLayerProfile.operations.mapM
      (cfg.operationTransactions control (nodeWork control b.1 b.2.1 b.2.2) layer) = .ok ops) :
    List.Forall₂ (cfg.NodePushed control)
      (cfg.activeOperations.map fun e => ⟨b.1, b.2.1, b.2.2, layer, e.2⟩) ops.flatten := by
  have hplan : (cfg.activeOperations.map fun e => (⟨b.1, b.2.1, b.2.2, layer, e.2⟩ : TreeNode)) =
      cfg.draftLayerProfile.operations.zipIdx.flatMap fun e =>
        if (cfg.operation? e.1).isSome then [⟨b.1, b.2.1, b.2.2, layer, e.2⟩] else [] := by
    rw [activeOperations]
    induction cfg.draftLayerProfile.operations.zipIdx with
    | nil => rfl
    | cons e rest ih =>
      rw [List.flatMap_cons, ← ih, List.filter_cons]
      split <;> rfl
  rw [← List.zipIdx_map_fst 0 cfg.draftLayerProfile.operations, List.mapM_map] at h
  rw [hplan, ← List.flatMap_id]
  refine forall₂_of_mapM id (fun e he transactions hop => ?_) h
  have hplace := List.mem_zipIdx_iff_getElem?.mp he
  rcases cfg.operationTransactions_aggregated haggregate hop with ⟨rfl, hskip⟩ | ⟨hactive, t, rfl⟩
  · rw [hskip]
    exact .nil
  · rw [if_pos hactive]
    exact .cons ⟨e.1, t, hplace, hop, rfl⟩ .nil

/-- The emission follows a plan of its work items if each layer of an item does. -/
theorem draftTransactions_follows {α β : Type} {R : α → Payload → Prop} {control : SpeculativeControl}
    {items : List β} {work : β → DraftWorkItem} (hitems : draftWorkItems control = items.map work)
    {plan : β → Nat → List α}
    (hlayer : ∀ b, ∀ layer < cfg.simulatedLayerCount.toNat, ∀ ops,
      cfg.draftLayerProfile.operations.mapM (cfg.operationTransactions control (work b) layer) = .ok ops →
        List.Forall₂ R (plan b layer) ops.flatten)
    {draft : List Payload} (h : cfg.draftTransactions control = .ok draft) :
    List.Forall₂ R
      (items.flatMap fun b => (List.range cfg.simulatedLayerCount.toNat).flatMap (plan b)) draft := by
  obtain ⟨nested, hnested, h⟩ := ok_of_bind h
  cases h
  rw [hitems, List.mapM_map] at hnested
  have hflatten : nested.flatten.flatten.flatten = nested.flatMap fun layers => layers.flatten.flatten := by
    rw [List.flatten_flatten (L := nested), List.flatten_flatten, List.map_map, List.flatMap_def]
    rfl
  rw [hflatten]
  refine forall₂_of_mapM _ (fun b _ layers hlayers => ?_) hnested
  rw [List.flatten_flatten, ← List.flatMap_def]
  exact forall₂_of_mapM _ (fun layer hmem ops hops => hlayer b layer (List.mem_range.mp hmem) ops hops)
    hlayers

theorem treePlan_pushed {control : SpeculativeControl} (hssd : control.algorithm = "ssd")
    (haggregate : cfg.aggregateMicro = true) {draft : List Payload}
    (h : cfg.draftTransactions control = .ok draft) :
    List.Forall₂ (cfg.NodePushed control) (cfg.treePlan control) draft :=
  cfg.draftTransactions_follows (draftWorkItems_branches hssd)
    (fun _ _ _ _ hops => cfg.operations_pushed haggregate hops) h

theorem NodePushed.marked {control : SpeculativeControl} {n : TreeNode} {t : Payload}
    (h : cfg.NodePushed control n t) (last : Bool) : cfg.NodePushed control n {t with last := last} := by
  obtain ⟨op, u, hop, hpushed, ht⟩ := h
  refine ⟨op, u, hop, hpushed, ?_⟩
  rw [ht]

/-! ### Counting and emission -/

/-- The transactions of an aggregated SSD record. -/
structure TreePushed (control : SpeculativeControl) (transactions : List Payload) : Prop where
  count : transactions.length = control.draftTreeSteps.toNat * control.draftTreeQueryTokens.toNat *
    cfg.simulatedLayerCount.toNat *
    (cfg.draftLayerProfile.operations.filter fun op => (cfg.operation? op).isSome).length
  nodes : ∃ plan : List TreeNode, plan.Nodup ∧ (∀ n, n ∈ plan ↔ cfg.InTree control n) ∧
    List.Forall₂ (cfg.NodePushed control) plan transactions

/-- What a stage pushes: as many transactions as were counted, the last one and no other
marked, and for an aggregated SSD record one for each node. -/
structure StagePushed (control : SpeculativeControl) (transactions : List Payload) : Prop where
  counted : ∃ perLayer, cfg.perDecoderLayerTransactions (draftWorkItems control) = .ok perLayer ∧
    transactions.length = (perLayer * cfg.simulatedLayerCount.toUInt64).toNat
  final : ∃ front t, transactions = front ++ [t] ∧ t.last = true ∧ ∀ x ∈ front, x.last = false
  tree : control.algorithm = "ssd" → cfg.aggregateMicro = true → cfg.TreePushed control transactions

/-- The host throws because there is nothing to push, or pushes the stage. -/
def CountsStage (control : SpeculativeControl) : Prop :=
  (∃ message, cfg.emission control = .error message ∧
    (cfg.draftLayerProfile.layerCount = 0 ∨ cfg.draftTransactions control = .ok [])) ∨
  ∃ transactions, cfg.emission control = .ok transactions ∧ cfg.StagePushed control transactions

/-- The tree of an accepted SSD record. -/
theorem accepted_tree {spec : SpeculativeInfo} {lines : List Line} {controls : List SpeculativeControl}
    (h : loadSpeculativeControlTrace spec lines = .ok controls) {control : SpeculativeControl}
    (hcontrol : control ∈ controls) (hssd : control.algorithm = "ssd") :
    (control.draftFanOutList.map UInt32.toUInt64).sum = control.draftTreeQueryTokens.toUInt64 := by
  have hcheck : ∀ {lineNo : Nat} {root : Json} {r : TraceGenerator.Record},
      TraceGenerator.readControl lineNo root = .ok (some r) → r.1.algorithm = "ssd" →
      (r.1.draftFanOutList.map UInt32.toUInt64).sum = r.1.draftTreeQueryTokens.toUInt64 := by
    intro lineNo root r hread hr
    have htree := (TraceGenerator.readControl_readAs hread).tree hr
    obtain ⟨_, -, hshape⟩ := ok_of_bind htree
    have hsum := not_of_reject hshape
    rw [not_or, not_not] at hsum
    exact hsum.1
  obtain ⟨root, hfrom⟩ := TraceGenerator.load_replayedFrom h control hcontrol
  cases hfrom with
  | read lineNo r sample _ hread => exact hcheck hread hssd
  | withoutPrefill lineNo r sample _ hread _ _ => exact hcheck hread hssd

section
variable {control : SpeculativeControl}

/-- An emission that does not throw is the stage. -/
theorem syntheticEmission_pushed {transactions : List Payload}
    (hfanOut : control.algorithm = "ssd" →
      (control.draftFanOutList.map UInt32.toUInt64).sum = control.draftTreeQueryTokens.toUInt64)
    (h : cfg.syntheticEmission control = .ok transactions) : cfg.StagePushed control transactions := by
  obtain ⟨hcounted, hfinal⟩ := cfg.syntheticEmission_marked h
  refine ⟨hcounted, hfinal, fun hssd haggregate => ?_⟩
  obtain ⟨perLayer, draft, -, -, hdraft, hlt, rfl⟩ := cfg.syntheticEmission_ok h
  have hpushed := cfg.treePlan_pushed hssd haggregate hdraft
  have hlength := hpushed.length_eq
  rw [treePlan_length] at hlength
  have hpos : 0 < draft.length := by
    obtain ⟨front, t, hfront, -⟩ := hfinal
    have hmarked := congrArg List.length hfront
    rw [markLast, List.length_mapIdx, List.length_append, List.length_singleton] at hmarked
    omega
  -- every factor is positive, so the fan-out is no more than the emission
  have hsum : (control.draftFanOutList.map UInt32.toNat).sum ≤ draft.length := by
    have hne : draft.length ≠ 0 := hpos.ne'
    rw [← hlength] at hne ⊢
    simp only [ne_eq, mul_eq_zero, not_or] at hne
    obtain ⟨⟨⟨hsteps, -⟩, hlayers⟩, hops⟩ := hne
    calc (control.draftFanOutList.map UInt32.toNat).sum
        ≤ control.draftTreeSteps.toNat * (control.draftFanOutList.map UInt32.toNat).sum :=
          Nat.le_mul_of_pos_left _ (Nat.pos_of_ne_zero hsteps)
      _ ≤ control.draftTreeSteps.toNat * (control.draftFanOutList.map UInt32.toNat).sum *
            cfg.simulatedLayerCount.toNat := Nat.le_mul_of_pos_right _ (Nat.pos_of_ne_zero hlayers)
      _ ≤ _ := Nat.le_mul_of_pos_right _ (Nat.pos_of_ne_zero hops)
  have hquery := TraceGenerator.toNat_sum_fanOut (hfanOut hssd) (hsum.trans_lt hlt)
  refine ⟨?_, cfg.treePlan control, cfg.treePlan_nodup control, fun n => cfg.mem_treePlan, ?_⟩
  · rw [markLast, List.length_mapIdx, ← hlength, hquery]
  · rw [List.forall₂_iff_get] at hpushed ⊢
    refine ⟨by rw [hpushed.1, markLast, List.length_mapIdx], fun i hi hi' => ?_⟩
    have hnode := hpushed.2 i hi (by simpa [markLast] using hi')
    simp only [List.get_eq_getElem, markLast, List.getElem_mapIdx] at hnode ⊢
    exact NodePushed.marked cfg hnode _

/-- An attention operation of the profile that is not skipped. -/
def activeAttention (op : ModelOperationInfo) : Prop :=
  (op.name = "qkt" ∨ op.name = "sv") ∧ (cfg.operation? op).isSome = true

theorem draftAttentionTiles_ok {op : ModelOperationInfo} (work : DraftWorkItem)
    (h : cfg.draftLayerProfile.attentionContextTileTokens ≠ 0 ∨ ¬ (op.name = "qkt" ∨ op.name = "sv")) :
    ∃ tiles, cfg.draftAttentionTiles op work = .ok tiles := by
  unfold draftAttentionTiles
  dsimp only
  split
  · exact ⟨_, rfl⟩
  · next hattention =>
    split
    · next hzero =>
      rcases h with h | h
      · exact absurd hzero h
      · rw [not_or] at h
        exact absurd h hattention
    · exact ⟨_, rfl⟩

theorem draftAttentionTiles_zero {op : ModelOperationInfo} (work : DraftWorkItem)
    (hzero : cfg.draftLayerProfile.attentionContextTileTokens = 0)
    (hop : op.name = "qkt" ∨ op.name = "sv") :
    cfg.draftAttentionTiles op work = .error "integer division by zero" := by
  have hattention : ¬ (op.name ≠ "qkt" ∧ op.name ≠ "sv") := by
    rw [← not_or, not_not]
    exact hop
  unfold draftAttentionTiles
  dsimp only
  rw [if_neg hattention, if_pos hzero]

/-- An operation divides by the tile size only if it is an attention product. -/
def Dividing (op : ModelOperationInfo) : Prop :=
  cfg.draftLayerProfile.attentionContextTileTokens = 0 ∧ cfg.activeAttention op

variable {cfg} in
/-- The tiles of an operation that has an entry and does not divide by zero. -/
theorem tiles_of_not_dividing {op : ModelOperationInfo} (h : ¬ cfg.Dividing op)
    {entry : PIMCmdProfile × UInt32} (ho : cfg.operation? op = some entry) (work : DraftWorkItem) :
    ∃ tiles, cfg.draftAttentionTiles op work = .ok tiles := by
  apply cfg.draftAttentionTiles_ok work
  by_contra hboth
  rw [not_or, not_not, not_not] at hboth
  exact h ⟨hboth.1, hboth.2, by rw [ho]; rfl⟩

theorem operationTransactions_ok {op : ModelOperationInfo} (h : ¬ cfg.Dividing op) (work : DraftWorkItem)
    (layerId : Nat) : ∃ transactions, cfg.operationTransactions control work layerId op = .ok transactions := by
  unfold operationTransactions
  cases ho : cfg.operation? op with
  | none => exact ⟨[], rfl⟩
  | some entry =>
    obtain ⟨tiles, htiles⟩ := tiles_of_not_dividing h ho work
    dsimp only
    rw [htiles]
    exact ⟨_, rfl⟩

theorem countOperation_ok {op : ModelOperationInfo} (h : ¬ cfg.Dividing op) (work : DraftWorkItem) :
    ∃ count, cfg.countOperation work op = .ok count := by
  unfold countOperation
  cases ho : cfg.operation? op with
  | none => exact ⟨0, rfl⟩
  | some entry =>
    obtain ⟨tiles, htiles⟩ := tiles_of_not_dividing h ho work
    dsimp only
    split
    · exact ⟨1, rfl⟩
    · rw [htiles]
      exact ⟨_, rfl⟩

/-- Without a division by zero both loops come to their end. -/
theorem loops_ok
    (h : draftWorkItems control = [] ∨ ∀ op ∈ cfg.draftLayerProfile.operations, ¬ cfg.Dividing op) :
    (∃ perLayer, cfg.perDecoderLayerTransactions (draftWorkItems control) = .ok perLayer) ∧
      ∃ draft, cfg.draftTransactions control = .ok draft := by
  rcases h with hnone | hops
  · rw [draftTransactions, hnone]
    exact ⟨⟨0, rfl⟩, [], rfl⟩
  · constructor
    · obtain ⟨counts, hcounts⟩ := mapM_ok (l := draftWorkItems control)
        (f := fun work => cfg.draftLayerProfile.operations.mapM (cfg.countOperation work))
        fun work _ => mapM_ok fun op hop => cfg.countOperation_ok (hops op hop) work
      rw [perDecoderLayerTransactions, hcounts]
      exact ⟨_, rfl⟩
    · obtain ⟨nested, hnested⟩ := mapM_ok (l := draftWorkItems control)
        (f := fun work => (List.range cfg.simulatedLayerCount.toNat).mapM fun layerId =>
          cfg.draftLayerProfile.operations.mapM (cfg.operationTransactions control work layerId))
        fun work _ => mapM_ok fun layerId _ =>
          mapM_ok fun op hop => cfg.operationTransactions_ok (hops op hop) work layerId
      rw [draftTransactions, hnested]
      exact ⟨_, rfl⟩

/-- A work item that reaches a division by zero ends the loop. -/
theorem draftTransactions_dividing (hlayers : cfg.draftLayerProfile.layerCount ≠ 0)
    (hworks : draftWorkItems control ≠ []) {op : ModelOperationInfo}
    (hop : op ∈ cfg.draftLayerProfile.operations) (hdividing : cfg.Dividing op) (draft : List Payload) :
    cfg.draftTransactions control ≠ .ok draft := by
  intro h
  obtain ⟨nested, hnested, -⟩ := ok_of_bind h
  obtain ⟨work, rest, hcons⟩ := List.exists_cons_of_ne_nil hworks
  obtain ⟨layers, hlayersOk⟩ := ok_of_mapM hnested work (by rw [hcons]; exact List.mem_cons_self)
  have hzero : 0 ∈ List.range cfg.simulatedLayerCount.toNat := by
    rw [List.mem_range]
    refine Nat.pos_of_ne_zero fun hnone => ?_
    have hcount : cfg.simulatedLayerCount = 0 := UInt32.toNat_inj.mp hnone
    rw [simulatedLayerCount] at hcount
    split at hcount
    · cases hcount
    · exact hlayers hcount
  obtain ⟨ops, hops⟩ := ok_of_mapM hlayersOk 0 hzero
  obtain ⟨transactions, htransactions⟩ := ok_of_mapM hops op hop
  obtain ⟨entry, hentry⟩ := Option.isSome_iff_exists.mp hdividing.2.2
  unfold operationTransactions at htransactions
  rw [hentry] at htransactions
  dsimp only at htransactions
  rw [cfg.draftAttentionTiles_zero work hdividing.1 hdividing.2.1] at htransactions
  cases htransactions

/-- Two counts that agree, and a loop that ends, give the stage. -/
theorem syntheticEmission_total (hlayers : cfg.draftLayerProfile.layerCount ≠ 0) {perLayer : UInt64}
    (hper : cfg.perDecoderLayerTransactions (draftWorkItems control) = .ok perLayer) {draft : List Payload}
    (hdraft : cfg.draftTransactions control = .ok draft) (hlt : draft.length < 2 ^ 64) :
    draft = [] ∧ (∃ message, cfg.syntheticEmission control = .error message) ∨
      ∃ transactions, cfg.syntheticEmission control = .ok transactions := by
  have htotal : perLayer * cfg.simulatedLayerCount.toUInt64 = size draft := by
    rw [cfg.size_draftTransactions hdraft, ← cfg.perDecoderLayerTransactions_eq hper]
  by_cases hempty : draft = []
  · refine .inl ⟨hempty, "No draft PIM operations match the active LPDDR5 profile", ?_⟩
    have hzero : perLayer * cfg.simulatedLayerCount.toUInt64 = 0 := by
      rw [htotal, hempty]
      rfl
    rw [syntheticEmission, reject, if_neg hlayers, hper]
    show (reject (perLayer * cfg.simulatedLayerCount.toUInt64 = 0) _ >>= fun _ => _) = _
    rw [reject, if_pos hzero]
    rfl
  · have hne : ¬ perLayer * cfg.simulatedLayerCount.toUInt64 = 0 := by
      rw [htotal, size]
      intro hzero
      have hnat := congrArg UInt64.toNat hzero
      rw [UInt64.toNat_ofNat_of_lt' hlt] at hnat
      exact hempty (List.length_eq_zero_iff.mp hnat)
    refine .inr ⟨markLast (perLayer * cfg.simulatedLayerCount.toUInt64) draft, ?_⟩
    rw [syntheticEmission, reject, if_neg hlayers, hper]
    show (reject (perLayer * cfg.simulatedLayerCount.toUInt64 = 0) _ >>= fun _ => _) = _
    rw [reject, if_neg hne, hdraft]
    show (allocated draft >>= fun _ => _) = _
    rw [allocated, reject, if_neg (not_le.mpr hlt)]
    rfl

end

/-- **Counting and emission agree.** For a record the loader accepts and a stage of fewer than
2^64 transactions the host pushes what it has counted, or throws because there is nothing
to push, exactly if no attention product with a profile divides by a tile size of zero. -/
theorem stage_counted {spec : SpeculativeInfo} {lines : List Line} {controls : List SpeculativeControl}
    (hload : loadSpeculativeControlTrace spec lines = .ok controls) {control : SpeculativeControl}
    (hcontrol : control ∈ controls) (henabled : cfg.syntheticPim.enabled = true)
    (hsize : ∀ draft, cfg.draftTransactions control = .ok draft → draft.length < 2 ^ 64) :
    cfg.CountsStage control ↔ cfg.draftLayerProfile.layerCount = 0 ∨
      cfg.draftLayerProfile.attentionContextTileTokens ≠ 0 ∨ draftWorkItems control = [] ∨
      ∀ op ∈ cfg.draftLayerProfile.operations, (op.name = "qkt" ∨ op.name = "sv") →
        cfg.operation? op = none := by
  have hemission : cfg.emission control = cfg.syntheticEmission control := by
    rw [emission, if_pos henabled]
  rw [CountsStage, hemission]
  constructor
  · intro h
    by_contra hnot
    simp only [not_or, not_not, not_forall] at hnot
    obtain ⟨hlayers, hzero, hworks, op, hop, hattention, hactive⟩ := hnot
    have hdividing : cfg.Dividing op := ⟨hzero, hattention, Option.isSome_iff_ne_none.mpr hactive⟩
    rcases h with ⟨_, -, hnone | hempty⟩ | ⟨transactions, hok, -⟩
    · exact hlayers hnone
    · exact cfg.draftTransactions_dividing hlayers hworks hop hdividing [] hempty
    · obtain ⟨_, draft, -, -, hdraft, -⟩ := cfg.syntheticEmission_ok hok
      exact cfg.draftTransactions_dividing hlayers hworks hop hdividing draft hdraft
  · intro h
    by_cases hlayers : cfg.draftLayerProfile.layerCount = 0
    · refine .inl ⟨"Synthetic PIM model profile has no decoder layers", ?_, .inl hlayers⟩
      rw [syntheticEmission, reject, if_pos hlayers]
      rfl
    · have hloops : draftWorkItems control = [] ∨
          ∀ op ∈ cfg.draftLayerProfile.operations, ¬ cfg.Dividing op := by
        rcases h with hnone | htiles | hworks | hops
        · exact absurd hnone hlayers
        · exact .inr fun op _ hdividing => htiles hdividing.1
        · exact .inl hworks
        · refine .inr fun op hop hdividing => ?_
          have hactive := hdividing.2.2
          rw [hops op hop hdividing.2.1] at hactive
          cases hactive
      obtain ⟨⟨perLayer, hper⟩, draft, hdraft⟩ := cfg.loops_ok hloops
      rcases cfg.syntheticEmission_total hlayers hper hdraft (hsize draft hdraft) with
        ⟨rfl, message, hthrows⟩ | ⟨transactions, hok⟩
      · exact .inl ⟨message, hthrows, .inr hdraft⟩
      · exact .inr ⟨transactions, hok, cfg.syntheticEmission_pushed (accepted_tree hload hcontrol) hok⟩

end Config

/-- A draft of one attention product, by the size of its context tiles. -/
def attentionDraft (tileTokens : UInt32) : Config where
  syntheticPim := {
    enabled := true
    modelProfile := "model"
    aggregateMicroCommands := true}
  draftLayerProfile := {
    name := "model"
    layerCount := 1
    operations := [{name := "qkt"}]
    attentionContextTileTokens := tileTokens}
  pimProfile := [("qkt", PIMCmdProfile.empty.push "mac" {
    delay := 5
    count := 1})]
  tileCntByLayer := [("qkt", 1)]
  draftProfileLayer := ""

/-- The loader accepts a record with draft work. -/
def warmStage : Bool :=
  (loadSpeculativeControlTrace {} [TraceGenerator.warmRecord 1 10 11]).toOption.any fun controls =>
    controls.any fun control => draftWorkItems control ≠ []

theorem warmStage_loaded : ∃ controls, ∃ control ∈ controls,
    loadSpeculativeControlTrace {} [TraceGenerator.warmRecord 1 10 11] = .ok controls ∧
    draftWorkItems control ≠ [] := by
  have hstage : warmStage = true := by decide +kernel
  obtain ⟨controls, hload, hany⟩ := ok_of_any hstage
  obtain ⟨control, hcontrol, hworks⟩ := List.any_eq_true.mp hany
  exact ⟨controls, control, hcontrol, hload, of_decide_eq_true hworks⟩

/-- With tiles of no tokens the emission divides by zero. -/
theorem stage_counted_fails : ¬ ∀ (cfg : Config) (spec : SpeculativeInfo) (lines : List Line)
    (controls : List SpeculativeControl) (control : SpeculativeControl),
    loadSpeculativeControlTrace spec lines = .ok controls → control ∈ controls →
    cfg.syntheticPim.enabled = true →
    (∀ draft, cfg.draftTransactions control = .ok draft → draft.length < 2 ^ 64) →
    cfg.CountsStage control := by
  intro hall
  obtain ⟨controls, control, hcontrol, hload, hworks⟩ := warmStage_loaded
  have hdividing : ∀ draft, (attentionDraft 0).draftTransactions control ≠ .ok draft :=
    (attentionDraft 0).draftTransactions_dividing (by decide) hworks List.mem_cons_self
      ⟨rfl, .inl rfl, rfl⟩
  rcases hall (attentionDraft 0) {} _ controls control hload hcontrol rfl
    (fun draft hdraft => absurd hdraft (hdividing draft)) with ⟨_, -, hlayers | hempty⟩ | ⟨_, hok, -⟩
  · cases hlayers
  · exact hdividing [] hempty
  · obtain ⟨_, draft, -, -, hdraft, -⟩ := (attentionDraft 0).syntheticEmission_ok hok
    exact hdividing draft hdraft

/-- An SSD record: two tree steps, with three branches each. -/
def treeRecord : Line :=
  .value (.obj [("algorithm", .str "ssd"), ("draft_fan_out_list", .arr [.int 2, .int 1]),
    ("draft_kv_cache_tokens", .int 300), ("draft_proposal_count", .int 3),
    ("draft_tree_query_tokens", .int 3), ("draft_tree_steps", .int 2), ("gamma", .int 2),
    ("iteration", .int 1), ("prefix_len_after", .int 12), ("prefix_len_before", .int 10)])

/-- A draft of two layers with two attention products each, the first in two tiles. -/
def treeDraft : Config := {attentionDraft 128 with
  draftLayerProfile := {
    name := "model"
    layerCount := 2
    operations := [{name := "qkt"}, {name := "sv"}]
    attentionContextTileTokens := 128}
  pimProfile := ["qkt", "sv"].map fun name => (name, PIMCmdProfile.empty.push "mac" {
    delay := 5
    count := 1})
  tileCntByLayer := [("qkt", 2), ("sv", 1)]}

/-- The loader accepts the record, and its stage has a transaction for each branch of each
step, layer and operation. -/
def treeStage : Bool :=
  (loadSpeculativeControlTrace {} [treeRecord]).toOption.any fun controls =>
    controls.any fun control => control.algorithm == "ssd" && draftWorkItems control ≠ [] &&
      ((treeDraft.draftTransactions control).toOption.any fun draft => draft.length == 24)

theorem treeStage_loaded : ∃ controls, ∃ control ∈ controls,
    loadSpeculativeControlTrace {} [treeRecord] = .ok controls ∧ control.algorithm = "ssd" ∧
    draftWorkItems control ≠ [] ∧
    ∃ draft, treeDraft.draftTransactions control = .ok draft ∧ draft.length = 24 := by
  have hstage : treeStage = true := by decide +kernel
  obtain ⟨controls, hload, hany⟩ := ok_of_any hstage
  obtain ⟨control, hcontrol, hall⟩ := List.any_eq_true.mp hany
  simp only [Bool.and_eq_true, decide_eq_true_eq, beq_iff_eq] at hall
  obtain ⟨draft, hdraft, hlength⟩ := ok_of_any hall.2
  exact ⟨controls, control, hcontrol, hload, hall.1.1, hall.1.2, draft, hdraft, by simpa using hlength⟩

/-- Of the record's tree and the two layers of two operations, 24 transactions. -/
theorem stage_counted_treeDraft : ∃ controls, ∃ control ∈ controls,
    loadSpeculativeControlTrace {} [treeRecord] = .ok controls ∧ control.algorithm = "ssd" ∧
    (∃ draft, treeDraft.draftTransactions control = .ok draft ∧ draft.length = 24) ∧
    treeDraft.CountsStage control := by
  obtain ⟨controls, control, hcontrol, hload, hssd, -, draft, hdraft, hlength⟩ := treeStage_loaded
  refine ⟨controls, control, hcontrol, hload, hssd, ⟨draft, hdraft, hlength⟩, ?_⟩
  refine (treeDraft.stage_counted hload hcontrol rfl fun draft' hdraft' => ?_).mpr
    (.inr (.inl (by decide)))
  rw [hdraft] at hdraft'
  cases hdraft'
  rw [hlength]
  decide

/-! ### The template -/

namespace Config
variable (cfg : Config)

/-- The host throws, or pushes transactions of which the last one and no other is marked. -/
def EndsStage (control : SpeculativeControl) : Prop :=
  (∃ message, cfg.emission control = .error message) ∨
  ∃ front t, cfg.emission control = .ok (front ++ [t]) ∧ t.last = true ∧ ∀ x ∈ front, x.last = false

/-- A profile has commands for its tiles. -/
def Issues (profile : PIMCmdProfile) (tileCount : UInt32) : Prop :=
  tileCount ≠ 0 ∧ ∃ name ∈ profile.orderedCmdName, (profile.get name).count ≠ 0

theorem microTransactions_eq_nil {profile : PIMCmdProfile} {tileCount : UInt32} {layer : String} :
    microTransactions profile tileCount layer = [] ↔ ¬ Issues profile tileCount := by
  simp only [microTransactions, List.flatMap_eq_nil_iff, List.map_eq_nil_iff, List.mem_range,
    List.range_eq_nil, Issues, not_and, not_exists, not_not]
  constructor
  · intro h htiles name hname
    have hpos : 0 < tileCount.toNat := Lib.toNat_pos htiles
    exact UInt32.toNat_inj.mp (h 0 hpos name hname)
  · intro h tile htile name hname
    have htiles : tileCount ≠ 0 := by
      rintro rfl
      exact absurd htile (Nat.not_lt_zero _)
    rw [h htiles name hname]
    rfl

/-- What the template pushes before the marks. -/
def templateTransactions (profile : PIMCmdProfile) (tileCount : UInt32) (control : SpeculativeControl) :
    List Payload :=
  (draftWorkItems control).flatMap fun work =>
    microTransactions profile tileCount (cfg.draftProfileLayer ++ workLabel control work)

theorem size_templateTransactions (profile : PIMCmdProfile) (tileCount : UInt32)
    (control : SpeculativeControl) :
    size (cfg.templateTransactions profile tileCount control) =
      UInt64.ofNat (draftWorkItems control).length * tileCount.toUInt64 * commandsPerTile profile := by
  rw [templateTransactions, List.flatMap_def, size_flatten, List.map_map]
  have hsame : (size ∘ fun work => microTransactions profile tileCount
      (cfg.draftProfileLayer ++ workLabel control work)) =
      fun _ => tileCount.toUInt64 * commandsPerTile profile := by
    funext work
    exact size_microTransactions profile tileCount _
  rw [hsame, List.map_const', sum_replicate, UInt64.mul_assoc]

theorem templateTransactions_eq_nil {profile : PIMCmdProfile} {tileCount : UInt32}
    {control : SpeculativeControl} :
    cfg.templateTransactions profile tileCount control = [] ↔
      draftWorkItems control = [] ∨ ¬ Issues profile tileCount := by
  simp only [templateTransactions, List.flatMap_eq_nil_iff, microTransactions_eq_nil]
  constructor
  · intro h
    by_cases hworks : draftWorkItems control = []
    · exact .inl hworks
    · obtain ⟨work, rest, hcons⟩ := List.exists_cons_of_ne_nil hworks
      exact .inr (h work (by rw [hcons]; exact List.mem_cons_self))
  · rintro (hworks | hnone) work hwork
    · rw [hworks] at hwork
      cases hwork
    · exact hnone

/-- What a found template emits. -/
theorem templateEmission_eq {profile : PIMCmdProfile} {tileCount : UInt32}
    (hprofile : cfg.pimProfile.lookup cfg.draftProfileLayer = some profile)
    (htiles : cfg.tileCntByLayer.lookup cfg.draftProfileLayer = some tileCount)
    (control : SpeculativeControl) :
    cfg.templateEmission control = (do
      return markLast (size (cfg.templateTransactions profile tileCount control))
        (← allocated (cfg.templateTransactions profile tileCount control))) := by
  rw [size_templateTransactions, templateEmission, hprofile, htiles]
  rfl

/-- Marked transactions end a stage if there are any. -/
theorem marked_ends_iff {emission : Except String (List Payload)} {transactions : List Payload}
    (h : emission = do return markLast (size transactions) (← allocated transactions)) :
    ((∃ message, emission = .error message) ∨
      ∃ front t, emission = .ok (front ++ [t]) ∧ t.last = true ∧ ∀ x ∈ front, x.last = false) ↔
    transactions ≠ [] := by
  by_cases hlt : 2 ^ 64 ≤ transactions.length
  · refine iff_of_true (.inl ⟨"std::bad_alloc", ?_⟩) ?_
    · rw [h, allocated, reject, if_pos hlt]
      rfl
    · rintro rfl
      simp at hlt
  · have hok : emission = .ok (markLast (size transactions) transactions) := by
      rw [h, allocated, reject, if_neg hlt]
      rfl
    rw [hok]
    constructor
    · rintro (⟨message, herror⟩ | ⟨front, t, hpushed, -⟩)
      · cases herror
      · rintro rfl
        have hnil := congrArg List.length (Except.ok.inj hpushed)
        simp [markLast] at hnil
    · intro hne
      obtain ⟨front, t, hfront, hmarked⟩ := markLast_final hne (not_le.mp hlt)
      exact .inr ⟨front, t, by rw [hfront], hmarked⟩

/-- **A template ends its stage if it issues anything.** With the synthetic PIM off the host
throws for a template that is missing; otherwise a marked transaction is pushed last exactly
if the record has draft work, the template has tiles, and one of its commands has a count. -/
theorem template_ends (hdisabled : cfg.syntheticPim.enabled = false) (control : SpeculativeControl) :
    cfg.EndsStage control ↔ cfg.pimProfile.lookup cfg.draftProfileLayer = none ∨
      cfg.tileCntByLayer.lookup cfg.draftProfileLayer = none ∨
      ∃ profile tileCount, cfg.pimProfile.lookup cfg.draftProfileLayer = some profile ∧
        cfg.tileCntByLayer.lookup cfg.draftProfileLayer = some tileCount ∧
        draftWorkItems control ≠ [] ∧ tileCount ≠ 0 ∧
        ∃ name ∈ profile.orderedCmdName, (profile.get name).count ≠ 0 := by
  have hemission : cfg.emission control = cfg.templateEmission control := by
    rw [emission, hdisabled]
    rfl
  rw [EndsStage, hemission]
  cases hprofile : cfg.pimProfile.lookup cfg.draftProfileLayer with
  | none =>
    refine iff_of_true (.inl ⟨"Missing PIM draft template: " ++ cfg.draftProfileLayer, ?_⟩) (.inl rfl)
    rw [templateEmission, hprofile]
    rfl
  | some profile =>
    cases htiles : cfg.tileCntByLayer.lookup cfg.draftProfileLayer with
    | none =>
      refine iff_of_true (.inl ⟨"Missing PIM draft template: " ++ cfg.draftProfileLayer, ?_⟩)
        (.inr (.inl rfl))
      rw [templateEmission, hprofile, htiles]
      rfl
    | some tileCount =>
      rw [marked_ends_iff (cfg.templateEmission_eq hprofile htiles control)]
      refine (not_congr cfg.templateTransactions_eq_nil).trans ?_
      rw [not_or, not_not, Issues]
      simp

end Config

/-- A record of trace version 1 that proposes nothing. -/
def idleRecord : Line :=
  .value (.obj [("gamma", .int 0), ("iteration", .int 1), ("prefix_len_after", .int 10),
    ("prefix_len_before", .int 10)])

/-- The files of the projection without the synthetic PIM. -/
def templateFiles : Files := System.projectionFiles ⟨false, false, false, false⟩ .partitioned

/-- The configuration and the record are accepted, and nothing is pushed. -/
def idleStage : Bool :=
  match initConfigurations templateFiles with
  | .error _ => false
  | .ok c =>
    match loadSpeculativeControlTrace c.speculative [idleRecord] with
    | .error _ => false
    | .ok controls => !c.syntheticPim.enabled && controls.any fun control =>
      ((Config.of c).emission control).toOption.any List.isEmpty

/-- The stage of a record that proposes nothing does not end. -/
theorem template_ends_fails : ¬ ∀ (files : Files) (c : Configurations) (lines : List Line)
    (controls : List SpeculativeControl) (control : SpeculativeControl),
    initConfigurations files = .ok c → c.syntheticPim.enabled = false →
    loadSpeculativeControlTrace c.speculative lines = .ok controls → control ∈ controls →
    (Config.of c).EndsStage control := by
  intro hall
  have hidle : idleStage = true := by decide +kernel
  unfold idleStage at hidle
  split at hidle
  · cases hidle
  · next c hc =>
    split at hidle
    · cases hidle
    · next controls hload =>
      simp only [Bool.and_eq_true, Bool.not_eq_true', List.any_eq_true] at hidle
      obtain ⟨hdisabled, control, hcontrol, hempty⟩ := hidle
      rcases hall _ c _ controls control hc hdisabled hload hcontrol with ⟨message, herror⟩ | ⟨front, t, hok, -⟩
      · rw [herror] at hempty
        cases hempty
      · rw [hok] at hempty
        have hnil : (front ++ [t]).isEmpty = true := hempty
        simp at hnil

/-- A template with one command on each of two tiles. -/
def templateDraft : Config := {treeDraft with
  syntheticPim := {modelProfile := "model"}
  draftProfileLayer := "qkt"}

/-- The six branches of the record's tree take the template through both tiles each. -/
theorem template_ends_draft : ∃ controls, ∃ control ∈ controls,
    loadSpeculativeControlTrace {} [treeRecord] = .ok controls ∧ draftWorkItems control ≠ [] ∧
    templateDraft.EndsStage control := by
  obtain ⟨controls, control, hcontrol, hload, -, hworks, -⟩ := treeStage_loaded
  refine ⟨controls, control, hcontrol, hload, hworks, (templateDraft.template_ends rfl control).mpr ?_⟩
  refine .inr (.inr ⟨_, _, rfl, rfl, hworks, by decide, "mac", ?_, by decide⟩)
  exact List.mem_singleton.mpr rfl

end Hsim.Host
