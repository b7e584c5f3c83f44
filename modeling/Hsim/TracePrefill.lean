import Hsim.TraceShape

/-! Taking the prefill out.

With `exclude_prefill` the loader rewrites the first record of each sample that
still holds the prompt's prefill, so that both actors start from warm caches. The
rewritten target has the validated shape again, and a rewritten sample is not
rewritten a second time. The rewritten draft has one proposal for each forward
step, which is not what the tree of an SSD record was checked against. -/
namespace Hsim.TraceGenerator

/-! ### One sample -/

/-- A first record without the prefill is left alone. -/
theorem normalizeSample_warm {first : SpeculativeControl} (rest : List SpeculativeControl)
    (hversion : 2 ≤ first.traceVersion) (hwarm : first.prefillExcluded = true) :
    normalizeSample (first :: rest) = .ok (first :: rest) := by
  rw [normalizeSample, reject, if_neg (UInt32.not_lt.mpr hversion), if_pos hwarm]
  rfl

section
variable {before after : List SpeculativeControl} (h : Normalized before after)
include h

theorem Normalized.again : normalizeSample after = .ok after := by
  cases h with
  | empty => rfl
  | warm first rest hversion hwarm => exact normalizeSample_warm rest hversion hwarm
  | cold first rest hversion _ _ => exact normalizeSample_warm rest hversion rfl

theorem Normalized.tail_eq : after.tail = before.tail := by
  cases h <;> rfl

theorem Normalized.head (hfull : before ≠ []) :
    ∃ first, after.head? = some first ∧ first.prefillExcluded = true := by
  cases h with
  | empty => exact absurd rfl hfull
  | warm first rest _ hwarm => exact ⟨first, rfl, hwarm⟩
  | cold first rest _ _ _ => exact ⟨first.withoutPrefill, rfl, rfl⟩

end

section
variable {read stored : List (List SpeculativeControl)} (h : List.Forall₂ Normalized read stored)
include h

/-- Normalisation is idempotent. -/
theorem normalized_again : stored.mapM normalizeSample = .ok stored := by
  rw [mapM_eq_ok_iff]
  induction h with
  | nil => exact .nil
  | cons hsample _ ih => exact .cons hsample.again ih

theorem normalized_marked (hfull : [] ∉ read) :
    List.Forall₂ (fun before after =>
      (∃ first, after.head? = some first ∧ first.prefillExcluded = true) ∧
        after.tail = before.tail) read stored := by
  induction h with
  | nil => exact .nil
  | cons hsample _ ih =>
    rw [List.mem_cons, not_or] at hfull
    exact .cons ⟨hsample.head (Ne.symm hfull.1), hsample.tail_eq⟩ (ih hfull.2)

end

/-- The samples before and after. -/
theorem preparedSamples_normalized {spec : SpeculativeInfo} {lines : List Line}
    {stored : List (List SpeculativeControl)} (h : preparedSamples spec lines = .ok stored)
    (hexclude : spec.excludePrefill = true) :
    ∃ read, readSamples lines = .ok read ∧ List.Forall₂ Normalized read stored := by
  obtain ⟨read, hread, h⟩ := ok_of_bind h
  rw [if_pos hexclude] at h
  exact ⟨read, hread, (mapM_eq_ok_iff.mp h).imp fun _ _ => normalizeSample_normalized⟩

theorem preparedSamples_untouched {spec : SpeculativeInfo} {lines : List Line}
    {stored : List (List SpeculativeControl)} (h : preparedSamples spec lines = .ok stored)
    (hkeep : spec.excludePrefill = false) : readSamples lines = .ok stored := by
  obtain ⟨read, hread, h⟩ := ok_of_bind h
  rw [hkeep] at h
  cases h
  exact hread

/-- What the loader has stored is read from a line, or the first record of a sample
rewritten. -/
theorem stored_of_read {spec : SpeculativeInfo} {lines : List Line}
    {stored : List (List SpeculativeControl)} (h : preparedSamples spec lines = .ok stored)
    {P : SpeculativeControl → Prop}
    (hread : ∀ lineNo root control, ReadAs lineNo root control → P control)
    (hcold : ∀ lineNo root first, ReadAs lineNo root first → 2 ≤ first.traceVersion →
      first.prefixLenBefore ≠ 0 → P first.withoutPrefill) :
    ∀ sample ∈ stored, ∀ control ∈ sample, P control := by
  obtain ⟨read, hsamples, h⟩ := ok_of_bind h
  have hlines : ∀ sample ∈ read, ∀ control ∈ sample, ∃ lineNo root, ReadAs lineNo root control := by
    intro sample hsample control hcontrol
    obtain ⟨lineNo, root, r, -, hr, rfl⟩ := readSamples_mem hsamples hsample hcontrol
    exact ⟨lineNo, root, readControl_readAs hr⟩
  intro sample hsample control hcontrol
  split at h
  · obtain ⟨before, hbefore, hnormalize⟩ := mem_of_mapM h sample hsample
    rcases normalizeSample_mem hnormalize hcontrol with hmem | ⟨first, hfirst, hversion, hprompt, rfl⟩
    · obtain ⟨lineNo, root, hr⟩ := hlines before hbefore control hmem
      exact hread lineNo root control hr
    · obtain ⟨lineNo, root, hr⟩ := hlines before hbefore first hfirst
      exact hcold lineNo root first hr hversion hprompt
  · cases h
    obtain ⟨lineNo, root, hr⟩ := hlines sample hsample control hcontrol
    exact hread lineNo root control hr

/-! ### The target -/

/-- Over the natural numbers. -/
theorem TargetShape.toNat {input cache query : UInt32} (h : TargetShape input cache query) :
    cache.toNat + query.toNat = input.toNat ∧ 1 ≤ query.toNat := by
  have hcached := UInt32.le_iff_toNat_le.mp h.cached
  constructor
  · rw [h.counted, UInt32.toNat_sub_of_le _ _ h.cached]
    omega
  · exact Nat.one_le_iff_ne_zero.mpr fun hzero => h.asked (UInt32.toNat_inj.mp hzero)

/-- Without the prefill the target verifies one token. -/
theorem withoutPrefill_target {first : SpeculativeControl} (hprompt : first.prefixLenBefore ≠ 0) :
    TargetShape first.withoutPrefill.targetInputTokens first.withoutPrefill.targetKvCacheTokens
      first.withoutPrefill.targetQueryTokens := by
  have hpos : first.prefixLenBefore.toNat ≠ 0 := fun hzero => hprompt (UInt32.toNat_inj.mp hzero)
  have hone : (1 : UInt32) ≤ first.prefixLenBefore := by
    rw [UInt32.le_iff_toNat_le]
    exact Nat.one_le_iff_ne_zero.mpr hpos
  have hwarm : (first.prefixLenBefore - 1).toNat = first.prefixLenBefore.toNat - 1 :=
    UInt32.toNat_sub_of_le _ _ hone
  have hle : first.prefixLenBefore - 1 ≤ first.prefixLenBefore := by
    rw [UInt32.le_iff_toNat_le]
    omega
  have hne : (1 : UInt32) ≠ 0 := by decide
  refine ⟨hle, ?_, hne⟩
  show (1 : UInt32) = first.prefixLenBefore - (first.prefixLenBefore - 1)
  apply UInt32.toNat_inj.mp
  rw [UInt32.toNat_sub_of_le _ _ hle, hwarm]
  show 1 = _
  omega

/-- **The target of a stored record of version 2 or later**: what is cached and what is
verified make up the input. Taking the prefill out leaves the first record of every sample
marked and all others as they are, and doing it again changes nothing. -/
theorem target_shape {spec : SpeculativeInfo} {lines : List Line} {controls : List SpeculativeControl}
    (h : loadSpeculativeControlTrace spec lines = .ok controls) :
    ∃ read stored, readSamples lines = .ok read ∧ preparedSamples spec lines = .ok stored ∧
      (∀ control ∈ stored.flatten ++ controls, 2 ≤ control.traceVersion →
        control.targetKvCacheTokens.toNat + control.targetQueryTokens.toNat =
          control.targetInputTokens.toNat ∧ 1 ≤ control.targetQueryTokens.toNat) ∧
      (spec.excludePrefill = true →
        List.Forall₂ (fun before after =>
          (∃ first, after.head? = some first ∧ first.prefillExcluded = true) ∧
            after.tail = before.tail) read stored ∧
        stored.mapM normalizeSample = .ok stored) := by
  obtain ⟨stored, hstored, -⟩ := load_ok h
  obtain ⟨read, hread, -⟩ := ok_of_bind hstored
  have hshape : ∀ sample ∈ stored, ∀ control ∈ sample, 2 ≤ control.traceVersion →
      TargetShape control.targetInputTokens control.targetKvCacheTokens control.targetQueryTokens :=
    stored_of_read hstored (fun _ _ _ hr => hr.target) fun _ _ _ _ _ hprompt _ =>
      withoutPrefill_target hprompt
  refine ⟨read, stored, hread, hstored, fun control hcontrol hversion => ?_, fun hexclude => ?_⟩
  · rcases List.mem_append.mp hcontrol with hcontrol | hcontrol
    · obtain ⟨sample, hsample, hcontrol⟩ := List.mem_flatten.mp hcontrol
      exact (hshape sample hsample control hcontrol hversion).toNat
    · obtain ⟨sample, hsample, c, hc, id, rfl⟩ := replayed_stored h hstored hcontrol
      exact (hshape sample hsample c hc hversion).toNat
  · obtain ⟨read', hread', hnormalized⟩ := preparedSamples_normalized hstored hexclude
    rw [hread] at hread'
    cases hread'
    exact ⟨normalized_marked hnormalized (readSamples_full hread), normalized_again hnormalized⟩

/-- The first record of a sample, with its prompt's prefill. -/
def promptRecord (prompt steps : Int) : Line :=
  .value (.obj [("iteration", .int 0), ("trace_version", .int 2), ("gamma", .int steps),
    ("prefix_len_before", .int prompt), ("prefix_len_after", .int (prompt + 1)),
    ("target_input_tokens", .int prompt), ("target_kv_cache_tokens", .int 0),
    ("target_uncached_query_tokens", .int prompt), ("target_kv_write_tokens", .int prompt),
    ("draft_input_tokens", .int prompt), ("draft_kv_cache_tokens", .int 0),
    ("draft_uncached_query_tokens", .int prompt), ("draft_forward_steps", .int steps),
    ("draft_decoder_tokens", .int (prompt + steps - 1)),
    ("draft_kv_write_tokens", .int (prompt + steps - 1)),
    ("target_kv_cache_tokens_after_forward", .int prompt),
    ("draft_kv_cache_tokens_after_forward", .int (prompt + steps - 1)),
    ("target_kv_cache_tokens_after_decision", .int prompt),
    ("draft_kv_cache_tokens_after_decision", .int prompt)])

/-- The prefill is taken out. -/
def withoutPrompt : SpeculativeInfo := {excludePrefill := true}

/-- A load of one record stores one. -/
def storesOne (line : Line) (P : SpeculativeControl → Bool) : Bool :=
  match loadSpeculativeControlTrace withoutPrompt [line] with
  | .ok [control] => P control
  | _ => false

theorem exists_of_storesOne {line : Line} {P : SpeculativeControl → Bool} (h : storesOne line P = true) :
    ∃ control, loadSpeculativeControlTrace withoutPrompt [line] = .ok [control] ∧ P control = true := by
  unfold storesOne at h
  split at h
  · next control hload => exact ⟨control, hload, h⟩
  · cases h

theorem target_shape_promptRecord : ∃ control,
    loadSpeculativeControlTrace withoutPrompt [promptRecord 4 2] = .ok [control] ∧
    control.targetKvCacheTokens = 3 ∧ control.targetKvCacheTokens.toNat +
      control.targetQueryTokens.toNat = control.targetInputTokens.toNat := by
  have hstored : storesOne (promptRecord 4 2)
      (fun c => 2 ≤ c.traceVersion && c.targetKvCacheTokens == 3) = true := by decide +kernel
  obtain ⟨control, hload, hcontrol⟩ := exists_of_storesOne hstored
  simp only [Bool.and_eq_true, decide_eq_true_eq, beq_iff_eq] at hcontrol
  obtain ⟨_, stored, -, -, hshape, -⟩ := target_shape hload
  exact ⟨control, hload, hcontrol.2, (hshape control (by simp) hcontrol.1).1⟩

/-! ### The tree -/

section
variable {spec : SpeculativeInfo} {lines : List Line} {read stored : List (List SpeculativeControl)}
  {controls : List SpeculativeControl}

/-- A rewritten tree keeps its shape only with a proposal for each forward step. -/
theorem withoutPrefill_tree {first : SpeculativeControl} (h : TreeShape first) :
    TreeShape first.withoutPrefill ↔ first.draftProposalCount = first.draftForwardSteps := by
  constructor
  · intro hnew
    have hcounted : first.draftTreeQueryTokens = first.draftForwardSteps := hnew.counted
    rw [← h.counted, hcounted]
  · intro hsteps
    refine ⟨h.steps, h.branches, h.positive, h.summed, ?_⟩
    show first.draftTreeQueryTokens = first.draftForwardSteps
    rw [h.counted, hsteps]

/-- The trees of the samples as they are read. -/
theorem readSamples_tree (h : readSamples lines = .ok read) :
    ∀ sample ∈ read, ∀ control ∈ sample, control.algorithm = "ssd" → TreeShape control := by
  intro sample hsample control hcontrol hssd
  obtain ⟨lineNo, root, r, -, hr, rfl⟩ := readSamples_mem h hsample hcontrol
  exact (readControl_readAs hr).treeShape hssd

/-- A sample keeps its trees when the first is not rewritten, or has one proposal a step. -/
theorem Normalized.tree_iff {before after : List SpeculativeControl} (h : Normalized before after)
    (hread : ∀ control ∈ before, control.algorithm = "ssd" → TreeShape control) :
    (∀ control ∈ after, control.algorithm = "ssd" → TreeShape control) ↔
      ∀ first, before.head? = some first → first.algorithm = "ssd" →
        first.prefillExcluded = true ∨ first.draftProposalCount = first.draftForwardSteps := by
  cases h with
  | empty => simp
  | warm first rest _ hwarm =>
    refine iff_of_true hread fun f hf _ => .inl ?_
    cases hf
    exact hwarm
  | cold first rest _ hcold _ =>
    obtain ⟨hfirst, hrest⟩ := List.forall_mem_cons.mp hread
    constructor
    · intro hall f hf hssd
      cases hf
      have hnew := hall first.withoutPrefill List.mem_cons_self hssd
      exact .inr ((withoutPrefill_tree (hfirst hssd)).mp hnew)
    · intro hcond
      refine List.forall_mem_cons.mpr ⟨fun hssd => ?_, hrest⟩
      refine (withoutPrefill_tree (hfirst hssd)).mpr ((hcond first rfl hssd).resolve_left fun hwarm => ?_)
      rw [hcold] at hwarm
      cases hwarm

theorem normalized_tree_iff (h : List.Forall₂ Normalized read stored)
    (hread : ∀ sample ∈ read, ∀ control ∈ sample, control.algorithm = "ssd" → TreeShape control) :
    (∀ sample ∈ stored, ∀ control ∈ sample, control.algorithm = "ssd" → TreeShape control) ↔
      ∀ sample ∈ read, ∀ first, sample.head? = some first → first.algorithm = "ssd" →
        first.prefillExcluded = true ∨ first.draftProposalCount = first.draftForwardSteps := by
  induction h with
  | nil => simp
  | cons hsample _ ih =>
    rw [List.forall_mem_cons] at hread
    rw [List.forall_mem_cons, List.forall_mem_cons, hsample.tree_iff hread.1, ih hread.2]

/-- **The tree of a stored SSD record is the validated one**, unless the prefill is taken
out of a record whose proposals are not its forward steps. -/
theorem tree_shape_iff (h : loadSpeculativeControlTrace spec lines = .ok controls)
    (hread : readSamples lines = .ok read) (hstored : preparedSamples spec lines = .ok stored) :
    (∀ control ∈ stored.flatten ++ controls, control.algorithm = "ssd" → TreeShape control) ↔
      spec.excludePrefill = false ∨ ∀ sample ∈ read, ∀ first, sample.head? = some first →
        first.algorithm = "ssd" →
          first.prefillExcluded = true ∨ first.draftProposalCount = first.draftForwardSteps := by
  have hreplayed : (∀ control ∈ stored.flatten ++ controls, control.algorithm = "ssd" →
      TreeShape control) ↔
      ∀ sample ∈ stored, ∀ control ∈ sample, control.algorithm = "ssd" → TreeShape control := by
    constructor
    · intro hall sample hsample control hcontrol
      exact hall control (List.mem_append_left _ (List.mem_flatten.mpr ⟨sample, hsample, hcontrol⟩))
    · intro hall control hcontrol
      rcases List.mem_append.mp hcontrol with hcontrol | hcontrol
      · obtain ⟨sample, hsample, hcontrol⟩ := List.mem_flatten.mp hcontrol
        exact hall sample hsample control hcontrol
      · obtain ⟨sample, hsample, c, hc, id, rfl⟩ := replayed_stored h hstored hcontrol
        intro hssd
        have htree := hall sample hsample c hc hssd
        exact ⟨htree.steps, htree.branches, htree.positive, htree.summed, htree.counted⟩
  have htrees := readSamples_tree hread
  rw [hreplayed]
  cases hexclude : spec.excludePrefill with
  | false =>
    have hsame := preparedSamples_untouched hstored hexclude
    rw [hread] at hsame
    cases hsame
    exact iff_of_true htrees (.inl rfl)
  | true =>
    obtain ⟨read', hread', hnormalized⟩ := preparedSamples_normalized hstored hexclude
    rw [hread] at hread'
    cases hread'
    rw [normalized_tree_iff hnormalized htrees]
    simp

end

/-- An SSD record with its prompt's prefill and a tree of one branch point. -/
def promptTree (prompt steps : Int) : Line :=
  (promptRecord prompt steps).adding [("algorithm", .str "ssd"),
    ("draft_fan_out_list", .arr [.int (prompt + steps - 1)])]

/-- A prompt of one token has one proposal for each step. -/
theorem tree_shape_iff_promptTree : ∃ control,
    loadSpeculativeControlTrace withoutPrompt [promptTree 1 3] = .ok [control] ∧
    control.algorithm = "ssd" ∧ TreeShape control := by
  have hstored : storesOne (promptTree 1 3) (fun c => c.algorithm == "ssd") = true := by
    decide +kernel
  obtain ⟨control, hload, hcontrol⟩ := exists_of_storesOne hstored
  have hssd : control.algorithm = "ssd" := by simpa using hcontrol
  obtain ⟨stored, hprepared, -⟩ := load_ok hload
  have hread : ∃ read, readSamples [promptTree 1 3] = .ok read ∧
      (read.all fun sample => sample.head?.all fun first =>
        first.draftProposalCount == first.draftForwardSteps) = true := ⟨_, rfl, by decide +kernel⟩
  obtain ⟨read, hread, hsteps⟩ := hread
  refine ⟨control, hload, hssd, (tree_shape_iff hload hread hprepared).mpr (.inr ?_) control
    (by simp) hssd⟩
  intro sample hsample first hfirst _
  have hone := List.all_eq_true.mp hsteps sample hsample
  rw [hfirst] at hone
  exact .inr (by simpa using hone)

/-- A prompt of four tokens is checked with five proposals and replayed with two. -/
theorem tree_shape_broken : ¬ ∀ (spec : SpeculativeInfo) (lines : List Line)
    (controls : List SpeculativeControl), loadSpeculativeControlTrace spec lines = .ok controls →
    ∀ control ∈ controls, control.algorithm = "ssd" →
      1 ≤ control.draftTreeSteps.toNat ∧ control.draftFanOutList ≠ [] ∧
      (∀ count ∈ control.draftFanOutList, 1 ≤ count.toNat) ∧
      (control.draftFanOutList.map UInt32.toNat).sum = control.draftTreeQueryTokens.toNat ∧
      control.draftTreeQueryTokens = control.draftProposalCount := by
  intro hall
  have hstored : storesOne (promptTree 4 2) (fun c => c.algorithm == "ssd" &&
      c.draftTreeQueryTokens != c.draftProposalCount) = true := by decide +kernel
  obtain ⟨control, hload, hcontrol⟩ := exists_of_storesOne hstored
  simp only [Bool.and_eq_true, beq_iff_eq, bne_iff_ne] at hcontrol
  exact hcontrol.2 (hall _ _ _ hload control List.mem_cons_self hcontrol.1).2.2.2.2

end Hsim.TraceGenerator
