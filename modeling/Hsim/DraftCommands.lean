import Hsim.Emission
import Hsim.Labels
import Hsim.Lib.Lane

/-! What the ledger can tell of the draft's commands.

The ledger knows draft work by the label of a command, and the stage it belongs
to by the name inside. The synthetic branch builds that label; the template
branch writes the name of the template in its place, which is a stage's only by
accident. The label of the last command decides whether its stage's episode is
closed, and the path of the commands whether it is the last to be served. -/
namespace Hsim.Host

open TraceGenerator (SpeculativeControl)
open PimWrapper (isDraft)

namespace Config
variable (cfg : Config)

/-! ### Labels -/

/-- The ledger knows the commands of a record as draft work of its stage: they are synthetic,
or the template's labels happen to say so. -/
def Recognised (control : SpeculativeControl) : Prop :=
  cfg.syntheticPim.enabled = true ∨ ∀ work ∈ draftWorkItems control,
    isDraft (cfg.draftProfileLayer ++ workLabel control work) = true ∧
      episodeIdFromLayer (cfg.draftProfileLayer ++ workLabel control work) = samplePrefix control

instance (control : SpeculativeControl) : Decidable (cfg.Recognised control) :=
  inferInstanceAs (Decidable (_ ∨ _))

/-- A command is labelled as draft work of a stage. -/
def LabelledFor (control : SpeculativeControl) (t : Payload) : Prop :=
  isDraft t.layer = true ∧ episodeIdFromLayer t.layer = samplePrefix control

theorem workLabel_head (control : SpeculativeControl) (work : DraftWorkItem) (rest : String) :
    (workLabel control work ++ rest).toList.head? = some '.' := by
  unfold workLabel
  split <;> simp [String.toList_append]

/-- What is labelled with the stage's name behind `draft_pim.` is recognised. -/
theorem labelledFor_draft (control : SpeculativeControl) (work : DraftWorkItem) (rest : String)
    {t : Payload} (ht : t.layer = "draft_pim." ++ samplePrefix control ++ (workLabel control work ++ rest)) :
    LabelledFor control t := by
  constructor
  · rw [ht, String.append_assoc]
    exact startsWith_append _ _
  · rw [ht]
    refine episodeIdFromLayer_name (by decide) control ?_
    rw [workLabel_head]
    intro c hc
    cases hc
    rfl

theorem mem_microTransactions {profile : PIMCmdProfile} {tileCount : UInt32} {layer : String}
    {t : Payload} (ht : t ∈ microTransactions profile tileCount layer) :
    t.layer = layer ∧ t.pimCmd ∈ profile.orderedCmdName ∧ (profile.get t.pimCmd).count ≠ 0 := by
  obtain ⟨-, -, ht⟩ := List.mem_flatMap.mp ht
  obtain ⟨name, hname, ht⟩ := List.mem_flatMap.mp ht
  obtain ⟨burst, hburst, rfl⟩ := List.mem_map.mp ht
  refine ⟨rfl, hname, ?_⟩
  rintro (hzero : (profile.get name).count = 0)
  rw [hzero] at hburst
  exact absurd (List.mem_range.mp hburst) (Nat.not_lt_zero _)

theorem operationTransactions_labelled {control : SpeculativeControl} {work : DraftWorkItem}
    {layerId : Nat} {op : ModelOperationInfo} {transactions : List Payload}
    (h : cfg.operationTransactions control work layerId op = .ok transactions) :
    ∀ t ∈ transactions, LabelledFor control t := by
  unfold operationTransactions at h
  split at h
  · cases h
    simp
  · obtain ⟨attention, -, h⟩ := ok_of_bind h
    cases h
    intro t ht
    have hlayer : t.layer = "draft_pim." ++ samplePrefix control ++ workLabel control work ++
        (if cfg.collapseLayers then ".macro" else ".layer" ++ toString layerId) ++ ".op." ++ op.name := by
      split at ht
      · rw [List.mem_singleton.mp ht]
        rfl
      · exact (mem_microTransactions ht).1
    refine labelledFor_draft control work
      ((if cfg.collapseLayers then ".macro" else ".layer" ++ toString layerId) ++ ".op." ++ op.name) ?_
    rw [hlayer]
    simp only [String.append_assoc]

/-- The commands of a recognised record are labelled for its stage. -/
theorem emission_labelled {control : SpeculativeControl} (hlabels : cfg.Recognised control)
    {transactions : List Payload} (h : cfg.emission control = .ok transactions) :
    ∀ t ∈ transactions, LabelledFor control t := by
  unfold emission at h
  split at h
  · obtain ⟨_, draft, -, -, hdraft, -, rfl⟩ := cfg.syntheticEmission_ok h
    refine markLast_forall (P := LabelledFor control) (fun _ _ ht => ht) ?_
    exact cfg.draftTransactions_forall (fun _ _ _ _ _ hts => cfg.operationTransactions_labelled hts) hdraft
  · next hoff =>
    obtain ⟨profile, tileCount, -, -, rfl⟩ := cfg.templateEmission_ok h
    refine markLast_forall (P := LabelledFor control) (fun _ _ ht => ht) fun t ht => ?_
    obtain ⟨work, hwork, ht⟩ := List.mem_flatMap.mp ht
    rw [LabelledFor, (mem_microTransactions ht).1]
    exact hlabels.resolve_left hoff work hwork

/-! ### Paths -/

/-- The profiles that a stage issues micro commands of: those of the draft's operations, or
the template's. -/
def issuedProfiles : List PIMCmdProfile :=
  if cfg.syntheticPim.enabled then
    cfg.draftLayerProfile.operations.filterMap fun op => (cfg.operation? op).map Prod.fst
  else (cfg.pimProfile.lookup cfg.draftProfileLayer).toList

/-- The names of the micro commands that a stage can issue. -/
def issuedNames : List String :=
  cfg.issuedProfiles.flatMap fun profile =>
    profile.orderedCmdName.filter fun name => (profile.get name).count ≠ 0

/-- Every command takes the same path through the PIM module. Outside fast-layer mode that is
the bridge, and aggregated commands have macro names; otherwise the names of the micro
commands decide. -/
def OnePath (fastLayerMode : Bool) : Prop :=
  fastLayerMode = false ∨ (cfg.syntheticPim.enabled = true ∧ cfg.aggregateMicro = true) ∨
    (∀ name ∈ cfg.issuedNames, startsWith name "macro(" = true) ∨
    ∀ name ∈ cfg.issuedNames, startsWith name "macro(" = false

instance (fastLayerMode : Bool) : Decidable (cfg.OnePath fastLayerMode) :=
  inferInstanceAs (Decidable (_ ∨ _ ∨ _ ∨ _))

/-- A macro if commands are aggregated, and otherwise a micro command of a stage. -/
def Named (aggregate : Bool) (t : Payload) : Prop :=
  if aggregate then startsWith t.pimCmd "macro(" = true else t.pimCmd ∈ cfg.issuedNames

theorem mem_issuedNames {profile : PIMCmdProfile} {tileCount : UInt32} {layer : String} {t : Payload}
    (hissued : profile ∈ cfg.issuedProfiles) (ht : t ∈ microTransactions profile tileCount layer) :
    t.pimCmd ∈ cfg.issuedNames := by
  obtain ⟨-, hname, hcount⟩ := mem_microTransactions ht
  exact List.mem_flatMap.mpr ⟨profile, hissued, List.mem_filter.mpr ⟨hname, by simpa using hcount⟩⟩

theorem operationTransactions_named {control : SpeculativeControl} {work : DraftWorkItem}
    {layerId : Nat} {op : ModelOperationInfo} {transactions : List Payload}
    (henabled : cfg.syntheticPim.enabled = true) (hmem : op ∈ cfg.draftLayerProfile.operations)
    (h : cfg.operationTransactions control work layerId op = .ok transactions) :
    ∀ t ∈ transactions, cfg.Named cfg.aggregateMicro t := by
  unfold operationTransactions at h
  split at h
  · cases h
    simp
  · next profile tiles hop =>
    obtain ⟨attention, -, h⟩ := ok_of_bind h
    cases h
    intro t ht
    split at ht
    · next haggregate =>
      rw [List.mem_singleton.mp ht, Named, if_pos haggregate]
      exact macroTransaction_name ..
    · next haggregate =>
      have hissued : profile ∈ cfg.issuedProfiles := by
        rw [issuedProfiles, if_pos henabled, List.mem_filterMap]
        exact ⟨op, hmem, by rw [hop]; rfl⟩
      rw [Named, if_neg haggregate]
      exact cfg.mem_issuedNames hissued ht

theorem emission_named {control : SpeculativeControl} {transactions : List Payload}
    (h : cfg.emission control = .ok transactions) :
    ∀ t ∈ transactions, cfg.Named (cfg.syntheticPim.enabled && cfg.aggregateMicro) t := by
  unfold emission at h
  split at h
  · next henabled =>
    obtain ⟨_, draft, -, -, hdraft, -, rfl⟩ := cfg.syntheticEmission_ok h
    rw [henabled, Bool.true_and]
    refine markLast_forall (P := cfg.Named cfg.aggregateMicro) (fun _ _ ht => ht) ?_
    exact cfg.draftTransactions_forall
      (fun _ _ _ hop _ hts => cfg.operationTransactions_named henabled hop hts) hdraft
  · next hoff =>
    obtain ⟨profile, tileCount, hprofile, -, rfl⟩ := cfg.templateEmission_ok h
    rw [Bool.not_eq_true] at hoff
    rw [hoff, Bool.false_and]
    refine markLast_forall (P := cfg.Named false) (fun _ _ ht => ht) fun t ht => ?_
    obtain ⟨work, -, ht⟩ := List.mem_flatMap.mp ht
    have hissued : profile ∈ cfg.issuedProfiles := by
      rw [issuedProfiles, if_neg (by simp [hoff]), hprofile]
      exact List.mem_singleton_self profile
    exact cfg.mem_issuedNames hissued ht

/-- On one path, the commands of all records are routed alike. -/
theorem OnePath.exists_route {pim : PimWrapper.Config} (hpath : cfg.OnePath pim.fastLayerMode) :
    ∃ route, ∀ control transactions, cfg.emission control = .ok transactions →
      ∀ t ∈ transactions, pim.localCompute t = route := by
  cases haggregate : cfg.syntheticPim.enabled && cfg.aggregateMicro with
  | true =>
    refine ⟨pim.fastLayerMode, fun control transactions hemission t ht => ?_⟩
    have hnamed := cfg.emission_named hemission t ht
    rw [haggregate, Named, if_pos rfl] at hnamed
    rw [PimWrapper.Config.localCompute, hnamed, Bool.and_true]
  | false =>
    have hnamed : ∀ control transactions, cfg.emission control = .ok transactions →
        ∀ t ∈ transactions, t.pimCmd ∈ cfg.issuedNames := by
      intro control transactions hemission t ht
      have hnamed := cfg.emission_named hemission t ht
      rwa [haggregate, Named, if_neg (by simp)] at hnamed
    rcases hpath with hslow | ⟨henabled, hmicro⟩ | hall | hnone
    · refine ⟨false, fun control transactions _ t _ => ?_⟩
      rw [PimWrapper.Config.localCompute, hslow, Bool.false_and]
    · rw [henabled, hmicro] at haggregate
      cases haggregate
    · refine ⟨pim.fastLayerMode, fun control transactions hemission t ht => ?_⟩
      rw [PimWrapper.Config.localCompute, hall _ (hnamed control transactions hemission t ht), Bool.and_true]
    · refine ⟨false, fun control transactions hemission t ht => ?_⟩
      rw [PimWrapper.Config.localCompute, hnone _ (hnamed control transactions hemission t ht), Bool.and_false]

/-! ### The mark -/

/-- The template's count is the number of its commands, in 64 bits. -/
theorem size_template (profile : PIMCmdProfile) (tileCount : UInt32) (layer : DraftWorkItem → String)
    (works : List DraftWorkItem) :
    size (works.flatMap fun work => microTransactions profile tileCount (layer work)) =
      UInt64.ofNat works.length * tileCount.toUInt64 * commandsPerTile profile := by
  have hall : (works.map fun work => size (microTransactions profile tileCount (layer work))) =
      List.replicate works.length (tileCount.toUInt64 * commandsPerTile profile) := by
    rw [← List.map_const']
    exact List.map_congr_left fun work _ => size_microTransactions profile tileCount (layer work)
  rw [List.flatMap, size_flatten, List.map_map]
  refine (congrArg List.sum hall).trans ?_
  rw [sum_replicate, UInt64.mul_assoc]

/-- Whatever branch issues them, only the last command of a record can be marked. -/
theorem emission_onlyLast {control : SpeculativeControl} {transactions : List Payload}
    (h : cfg.emission control = .ok transactions) (ptr : Nat → Nat) (stage : Nat) :
    Lib.Lane.OnlyLast Payload.last (transactions.mapIdx fun i t => {t with
      ptr := ptr i
      stage := stage}) := by
  have hmarked : transactions = [] ∨ ∃ front t, transactions = front ++ [t] ∧
      ∀ x ∈ front, x.last = false := by
    unfold emission at h
    split at h
    · obtain ⟨-, front, t, hsplit, -, hfront⟩ := cfg.syntheticEmission_marked h
      exact .inr ⟨front, t, hsplit, hfront⟩
    · obtain ⟨profile, tileCount, -, hlt, rfl⟩ := cfg.templateEmission_ok h
      rw [← size_template profile tileCount fun work => cfg.draftProfileLayer ++ workLabel control work]
      generalize ((draftWorkItems control).flatMap fun work => microTransactions profile tileCount
        (cfg.draftProfileLayer ++ workLabel control work)) = draft at hlt ⊢
      by_cases hne : draft = []
      · rw [hne]
        exact .inl rfl
      · obtain ⟨front, t, hsplit, -, hfront⟩ := markLast_final hne hlt
        exact .inr ⟨front, t, hsplit, hfront⟩
  intro init u hsplit x hx
  rcases hmarked with rfl | ⟨front, t, rfl, hfront⟩
  · exact absurd (congrArg List.length hsplit) (by simp)
  · rw [List.mapIdx_concat] at hsplit
    obtain ⟨rfl, -⟩ := List.append_inj' hsplit rfl
    obtain ⟨i, hi, rfl⟩ := List.mem_mapIdx.mp hx
    exact hfront front[i] (List.getElem_mem hi)

end Config

end Hsim.Host
