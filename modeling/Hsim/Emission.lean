import Hsim.HostTrace
import Hsim.Lanes

/-! The host's emissions.

Whatever the configuration, an emission is made of PIM commands; aggregated, of
macros only. The count made before the loop is the number of commands the loop
issues, in 64 bits, and a queue of 2^64 commands does not fit the address space,
so the mark is on the last command and on no other. -/
namespace Hsim.Host

open TraceGenerator (SpeculativeControl)

namespace Config
variable (cfg : Config)

/-! ### What the commands are -/

/-- The transactions of one operation: none, one macro, or its micro commands. -/
theorem operationTransactions_cases {control : SpeculativeControl} {work : DraftWorkItem}
    {layerId : Nat} {op : ModelOperationInfo} {transactions : List Payload}
    (h : cfg.operationTransactions control work layerId op = .ok transactions) :
    (transactions = [] ∧ cfg.countOperation work op = .ok 0) ∨
      ∃ profile tileCount layer,
        (cfg.aggregateMicro = true ∧ cfg.countOperation work op = .ok 1 ∧ transactions =
          [macroTransaction profile tileCount cfg.layerMultiplier layer op.name]) ∨
        (cfg.aggregateMicro = false ∧
          cfg.countOperation work op = .ok (tileCount.toUInt64 * commandsPerTile profile) ∧
          transactions = microTransactions profile tileCount layer) := by
  unfold operationTransactions at h
  unfold countOperation
  cases ho : cfg.operation? op with
  | none =>
    rw [ho] at h
    cases h
    exact .inl ⟨rfl, rfl⟩
  | some entry =>
    obtain ⟨profile, tiles⟩ := entry
    rw [ho] at h
    obtain ⟨attention, hattention, h⟩ := ok_of_bind h
    cases h
    right
    cases ha : cfg.aggregateMicro with
    | true => exact ⟨profile, tiles * attention, _, .inl ⟨rfl, rfl, rfl⟩⟩
    | false =>
      refine ⟨profile, tiles * attention, _, .inr ⟨rfl, ?_, rfl⟩⟩
      simp only [Bool.false_eq_true, if_false, hattention]
      rfl

/-- What holds of the transactions of every operation holds of all. -/
theorem draftTransactions_forall {P : Payload → Prop} {control : SpeculativeControl}
    (hop : ∀ work layerId, ∀ op ∈ cfg.draftLayerProfile.operations, ∀ transactions,
      cfg.operationTransactions control work layerId op = .ok transactions → ∀ t ∈ transactions, P t)
    {transactions : List Payload} (h : cfg.draftTransactions control = .ok transactions) :
    ∀ t ∈ transactions, P t := by
  obtain ⟨nested, hnested, h⟩ := ok_of_bind h
  cases h
  have hall : ∀ layers ∈ nested, ∀ ops ∈ layers, ∀ ts ∈ ops, ∀ t ∈ ts, P t :=
    forall_of_mapM (fun work _ _ hw => forall_of_mapM (fun layerId _ _ hlayer =>
      forall_of_mapM (fun op hmem ts hts => hop work layerId op hmem ts hts) hlayer) hw) hnested
  intro t ht
  obtain ⟨ts, hts, ht⟩ := List.mem_flatten.mp ht
  obtain ⟨ops, hops, hts⟩ := List.mem_flatten.mp hts
  obtain ⟨layers, hlayers, hops⟩ := List.mem_flatten.mp hops
  exact hall layers hlayers ops hops ts hts t ht

theorem microTransactions_command {profile : PIMCmdProfile} {tileCount : UInt32} {layer : String} :
    ∀ t ∈ microTransactions profile tileCount layer, t.command = .pim ∧ t.dstId = .pim := by
  intro t ht
  obtain ⟨-, -, ht⟩ := List.mem_flatMap.mp ht
  obtain ⟨name, -, ht⟩ := List.mem_flatMap.mp ht
  obtain ⟨burst, -, rfl⟩ := List.mem_map.mp ht
  exact ⟨rfl, rfl⟩

/-- Marking changes nothing but the marks. -/
theorem markLast_forall {P : Payload → Prop} (hP : ∀ t last, P t → P {t with last := last})
    {total : UInt64} {transactions : List Payload} (h : ∀ t ∈ transactions, P t) :
    ∀ t ∈ markLast total transactions, P t := by
  intro t ht
  obtain ⟨i, hi, rfl⟩ := List.mem_mapIdx.mp ht
  exact hP _ _ (h _ (List.getElem_mem hi))

theorem allocated_ok {transactions result : List Payload} (h : allocated transactions = .ok result) :
    result = transactions ∧ transactions.length < 2 ^ 64 := by
  obtain ⟨u, hu, h⟩ := ok_of_bind h
  cases h
  exact ⟨rfl, not_le.mp (not_of_reject hu)⟩

/-- The parts of a synthetic emission. -/
theorem syntheticEmission_ok {control : SpeculativeControl} {transactions : List Payload}
    (h : cfg.syntheticEmission control = .ok transactions) :
    ∃ perLayer draft, cfg.perDecoderLayerTransactions (draftWorkItems control) = .ok perLayer ∧
      perLayer * cfg.simulatedLayerCount.toUInt64 ≠ 0 ∧ cfg.draftTransactions control = .ok draft ∧
      draft.length < 2 ^ 64 ∧
      transactions = markLast (perLayer * cfg.simulatedLayerCount.toUInt64) draft := by
  obtain ⟨-, -, h⟩ := ok_of_bind h
  obtain ⟨perLayer, hper, h⟩ := ok_of_bind h
  obtain ⟨_, hzero, h⟩ := ok_of_bind h
  obtain ⟨draft, hdraft, h⟩ := ok_of_bind h
  obtain ⟨fit, hfit, h⟩ := ok_of_bind h
  cases h
  obtain ⟨rfl, hlt⟩ := allocated_ok hfit
  exact ⟨perLayer, fit, hper, not_of_reject hzero, hdraft, hlt, rfl⟩

/-- The parts of an emission from the template. -/
theorem templateEmission_ok {control : SpeculativeControl} {transactions : List Payload}
    (h : cfg.templateEmission control = .ok transactions) :
    ∃ profile tileCount, cfg.pimProfile.lookup cfg.draftProfileLayer = some profile ∧
      ((draftWorkItems control).flatMap fun work =>
        microTransactions profile tileCount (cfg.draftProfileLayer ++ workLabel control work)).length <
          2 ^ 64 ∧
      transactions = markLast
        (UInt64.ofNat (draftWorkItems control).length * tileCount.toUInt64 * commandsPerTile profile)
        ((draftWorkItems control).flatMap fun work =>
          microTransactions profile tileCount (cfg.draftProfileLayer ++ workLabel control work)) := by
  unfold templateEmission at h
  split at h
  · next profile tileCount hprofile _ =>
    obtain ⟨fit, hfit, h⟩ := ok_of_bind h
    cases h
    obtain ⟨rfl, hlt⟩ := allocated_ok hfit
    exact ⟨profile, tileCount, hprofile, hlt, rfl⟩
  · cases h

theorem emission_command {control : SpeculativeControl} {transactions : List Payload}
    (h : cfg.emission control = .ok transactions) :
    ∀ t ∈ transactions, t.command = .pim ∧ t.dstId = .pim := by
  unfold emission at h
  split at h
  · obtain ⟨_, draft, -, -, hdraft, -, rfl⟩ := cfg.syntheticEmission_ok h
    refine markLast_forall (P := fun t => t.command = .pim ∧ t.dstId = .pim) (fun _ _ ht => ht) ?_
    refine cfg.draftTransactions_forall (fun work layerId op _ ts hts => ?_) hdraft
    rcases cfg.operationTransactions_cases hts with ⟨rfl, -⟩ | ⟨_, _, _, ⟨-, -, rfl⟩ | ⟨-, -, rfl⟩⟩
    · simp
    · exact List.forall_mem_singleton.mpr ⟨rfl, rfl⟩
    · exact microTransactions_command
  · obtain ⟨profile, tileCount, -, -, rfl⟩ := cfg.templateEmission_ok h
    refine markLast_forall (P := fun t => t.command = .pim ∧ t.dstId = .pim) (fun _ _ ht => ht) ?_
    intro t ht
    obtain ⟨work, -, ht⟩ := List.mem_flatMap.mp ht
    exact microTransactions_command t ht

theorem macroTransaction_name (profile : PIMCmdProfile) (tileCount layerMultiplier : UInt32)
    (layer opName : String) :
    startsWith (macroTransaction profile tileCount layerMultiplier layer opName).pimCmd "macro(" = true := by
  show startsWith ("macro(" ++ _ ++ _ ++ _ ++ _) "macro(" = true
  rw [String.append_assoc, String.append_assoc, String.append_assoc]
  exact startsWith_append _ _

/-- An aggregated emission stays out of the bridges. -/
theorem emission_staysLocal (henabled : cfg.syntheticPim.enabled = true)
    (haggregate : cfg.aggregateMicro = true) {control : SpeculativeControl}
    {transactions : List Payload} (h : cfg.emission control = .ok transactions) :
    ∀ t ∈ transactions, t.staysLocal = true := by
  rw [emission, if_pos henabled] at h
  obtain ⟨_, draft, -, -, hdraft, -, rfl⟩ := cfg.syntheticEmission_ok h
  refine markLast_forall (P := fun t => t.staysLocal = true) (fun _ _ ht => ht) ?_
  refine cfg.draftTransactions_forall (fun work layerId op _ ts hts => ?_) hdraft
  rcases cfg.operationTransactions_cases hts with ⟨rfl, -⟩ | ⟨_, _, _, ⟨-, -, rfl⟩ | ⟨hmicro, -, -⟩⟩
  · simp
  · exact List.forall_mem_singleton.mpr (macroTransaction_name ..)
  · rw [hmicro] at haggregate
    exact absurd haggregate (by simp)

/-! ### How many there are -/

/-- A length, in 64 bits. -/
def size (transactions : List Payload) : UInt64 := .ofNat transactions.length

theorem size_flatten (lists : List (List Payload)) : size lists.flatten = (lists.map size).sum := by
  rw [size, List.length_flatten, ← sum_ofNat, List.map_map]
  rfl

/-- Sums over the steps of a traversal. -/
theorem sum_of_mapM {α β : Type} {f : α → Except String β} (measure : β → UInt64)
    (count : α → UInt64) (hf : ∀ a b, f a = .ok b → measure b = count a) {l : List α} {l' : List β}
    (h : l.mapM f = .ok l') : (l'.map measure).sum = (l.map count).sum := by
  induction l generalizing l' with
  | nil =>
    cases h
    rfl
  | cons a l ih =>
    rw [List.mapM_cons] at h
    obtain ⟨b, hb, h⟩ := ok_of_bind h
    obtain ⟨rest, hrest, h⟩ := ok_of_bind h
    cases h
    rw [List.map_cons, List.sum_cons, List.map_cons, List.sum_cons, hf a b hb, ih hrest]

/-- What the count adds for an operation, whether or not it is reached. -/
def operationCount (work : DraftWorkItem) (op : ModelOperationInfo) : UInt64 :=
  match cfg.countOperation work op with
  | .ok count => count
  | .error _ => 0

theorem operationCount_eq {work : DraftWorkItem} {op : ModelOperationInfo} {count : UInt64}
    (h : cfg.countOperation work op = .ok count) : cfg.operationCount work op = count := by
  rw [operationCount, h]

theorem size_microTransactions (profile : PIMCmdProfile) (tileCount : UInt32) (layer : String) :
    size (microTransactions profile tileCount layer) =
      tileCount.toUInt64 * commandsPerTile profile := by
  have hlength : (microTransactions profile tileCount layer).length =
      tileCount.toNat * (profile.orderedCmdName.map fun name => (profile.get name).count.toNat).sum := by
    simp [microTransactions, List.length_flatMap, List.map_const']
  have hcommands : commandsPerTile profile =
      UInt64.ofNat (profile.orderedCmdName.map fun name => (profile.get name).count.toNat).sum := by
    rw [commandsPerTile, ← sum_ofNat, List.map_map]
    refine congrArg List.sum (List.map_congr_left fun name _ => ?_)
    rw [Function.comp_apply, UInt64.ofNat_uInt32ToNat]
  rw [size, hlength, hcommands, UInt64.ofNat_mul, UInt64.ofNat_uInt32ToNat]

theorem size_operationTransactions {control : SpeculativeControl} {work : DraftWorkItem}
    {layerId : Nat} {op : ModelOperationInfo} {transactions : List Payload}
    (h : cfg.operationTransactions control work layerId op = .ok transactions) :
    size transactions = cfg.operationCount work op := by
  rcases cfg.operationTransactions_cases h with
    ⟨rfl, hcount⟩ | ⟨_, _, _, ⟨-, hcount, rfl⟩ | ⟨-, hcount, rfl⟩⟩
  · rw [cfg.operationCount_eq hcount]
    rfl
  · rw [cfg.operationCount_eq hcount]
    rfl
  · rw [cfg.operationCount_eq hcount, size_microTransactions]

/-- One layer of one work item. -/
def layerCount (work : DraftWorkItem) : UInt64 :=
  (cfg.draftLayerProfile.operations.map (cfg.operationCount work)).sum

theorem perDecoderLayerTransactions_eq {works : List DraftWorkItem} {perLayer : UInt64}
    (h : cfg.perDecoderLayerTransactions works = .ok perLayer) :
    perLayer = (works.map cfg.layerCount).sum := by
  obtain ⟨counts, hcounts, h⟩ := ok_of_bind h
  cases h
  refine sum_of_mapM List.sum cfg.layerCount (fun work counts hw => ?_) hcounts
  have hsum := sum_of_mapM id (cfg.operationCount work)
    (fun op count hop => (cfg.operationCount_eq hop).symm) hw
  rwa [List.map_id] at hsum

theorem sum_replicate (n : Nat) (x : UInt64) : (List.replicate n x).sum = UInt64.ofNat n * x := by
  induction n with
  | zero => simp
  | succ n ih =>
    rw [List.replicate_succ, List.sum_cons, ih, UInt64.ofNat_add, UInt64.add_mul]
    simp [UInt64.add_comm]

/-- The loop issues what the count says. -/
theorem size_draftTransactions {control : SpeculativeControl} {transactions : List Payload}
    (h : cfg.draftTransactions control = .ok transactions) :
    size transactions = ((draftWorkItems control).map cfg.layerCount).sum *
      cfg.simulatedLayerCount.toUInt64 := by
  obtain ⟨nested, hnested, h⟩ := ok_of_bind h
  cases h
  -- the layers of a work item are alike
  have hlayers : ∀ work layers,
      (List.range cfg.simulatedLayerCount.toNat).mapM (fun layerId =>
        cfg.draftLayerProfile.operations.mapM (cfg.operationTransactions control work layerId)) =
          .ok layers →
      size layers.flatten.flatten = cfg.layerCount work * cfg.simulatedLayerCount.toUInt64 := by
    intro work layers hl
    have hsum := sum_of_mapM (fun ops => size ops.flatten) (fun _ => cfg.layerCount work)
      (fun layerId ops hops => (size_flatten ops).trans
        (sum_of_mapM size _ (fun op ts hts => cfg.size_operationTransactions hts) hops)) hl
    rw [List.map_const', List.length_range, sum_replicate, UInt64.ofNat_uInt32ToNat] at hsum
    rw [List.flatten_flatten, size_flatten, List.map_map, UInt64.mul_comm]
    exact hsum
  have hsum := sum_of_mapM (fun layers => size layers.flatten.flatten)
    (fun work => cfg.layerCount work * cfg.simulatedLayerCount.toUInt64) hlayers hnested
  rw [List.flatten_flatten (L := nested), List.flatten_flatten, List.map_map, size_flatten,
    List.map_map]
  refine hsum.trans ?_
  generalize draftWorkItems control = works
  induction works with
  | nil => simp
  | cons work works ih =>
    rw [List.map_cons, List.sum_cons, ih, List.map_cons, List.sum_cons, UInt64.add_mul]

/-! ### Where the mark is -/

/-- A mark set by position against the length is on the last element. -/
theorem final_of_positions {jobs : List Payload} {f : Nat → Payload → Payload}
    (hne : jobs ≠ []) (hlast : ∀ i t, i < jobs.length → (f i t).last = decide (i + 1 = jobs.length)) :
    ∃ front t, jobs.mapIdx f = front ++ [t] ∧ t.last = true ∧ ∀ x ∈ front, x.last = false := by
  obtain rfl | ⟨init, x, rfl⟩ := List.eq_nil_or_concat jobs
  · exact absurd rfl hne
  · rw [List.concat_eq_append] at hlast ⊢
    rw [List.length_append, List.length_singleton] at hlast
    refine ⟨init.mapIdx f, f init.length x, by rw [List.mapIdx_concat], ?_, fun y hy => ?_⟩
    · rw [hlast _ _ (Nat.lt_succ_self _)]
      simp
    · obtain ⟨i, hi, rfl⟩ := List.mem_mapIdx.mp hy
      rw [hlast i _ (by omega), decide_eq_false_iff_not]
      omega

theorem markLast_final {draft : List Payload} (hne : draft ≠ []) (hlt : draft.length < 2 ^ 64) :
    ∃ front t, markLast (size draft) draft = front ++ [t] ∧ t.last = true ∧
      ∀ x ∈ front, x.last = false := by
  refine final_of_positions hne fun i t hi => ?_
  show (UInt64.ofNat (i + 1) == UInt64.ofNat draft.length) = _
  rw [beq_eq_decide, decide_eq_decide, ← UInt64.toNat_inj, UInt64.toNat_ofNat_of_lt',
    UInt64.toNat_ofNat_of_lt']
  · exact hlt
  · show i + 1 < 2 ^ 64
    omega

/-- The count made beforehand is the number of commands, and the mark is on the last. -/
theorem syntheticEmission_marked {control : SpeculativeControl} {transactions : List Payload}
    (h : cfg.syntheticEmission control = .ok transactions) :
    (∃ perLayer, cfg.perDecoderLayerTransactions (draftWorkItems control) = .ok perLayer ∧
      transactions.length = (perLayer * cfg.simulatedLayerCount.toUInt64).toNat) ∧
    ∃ front t, transactions = front ++ [t] ∧ t.last = true ∧ ∀ x ∈ front, x.last = false := by
  obtain ⟨perLayer, draft, hper, hzero, hdraft, hlt, rfl⟩ := cfg.syntheticEmission_ok h
  have htotal : perLayer * cfg.simulatedLayerCount.toUInt64 = size draft := by
    rw [cfg.size_draftTransactions hdraft, ← cfg.perDecoderLayerTransactions_eq hper]
  rw [htotal] at hzero ⊢
  refine ⟨⟨perLayer, hper, ?_⟩, markLast_final ?_ hlt⟩
  · rw [htotal, markLast, List.length_mapIdx, size, UInt64.toNat_ofNat_of_lt' hlt]
  · rintro rfl
    exact hzero rfl

/-- The last command of a synthetic emission is marked and no other is. -/
theorem emission_final (henabled : cfg.syntheticPim.enabled = true) {control : SpeculativeControl}
    {transactions : List Payload} (h : cfg.emission control = .ok transactions) (ptr : Nat → Nat)
    (stage : Nat) :
    ∃ front t, (transactions.mapIdx fun i t => {t with
        ptr := ptr i
        stage := stage}) = front ++ [t] ∧ t.last = true ∧ ∀ x ∈ front, x.last = false := by
  rw [emission, if_pos henabled] at h
  obtain ⟨-, front, t, rfl, hlast, hfront⟩ := cfg.syntheticEmission_marked h
  rw [List.mapIdx_concat]
  refine ⟨_, _, rfl, hlast, fun x hx => ?_⟩
  obtain ⟨i, hi, rfl⟩ := List.mem_mapIdx.mp hx
  exact hfront front[i] (List.getElem_mem hi)

end Config

end Hsim.Host
