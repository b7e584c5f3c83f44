import Hsim.Lib.Words
import Hsim.TraceSamples
import Mathlib.Data.List.ReduceOption

/-! The shape of replayed records.

What a stored record says about its draft goes through a chain of fallbacks: a
field of the line, another field, or a value the loader computes. From trace
version 2 on a record states every field the validator reads, so the stored values
are the validated ones, with two exceptions: the field
`draft_precompute_kv_cache_tokens` stands in for the cache length, and the first
record of a sample may be rewritten to leave the prefill out. -/
namespace Hsim.TraceGenerator

/-! ### What a record says -/

/-- The record states a number for a key. -/
def States (root : Json) (key : String) (n : UInt32) : Prop :=
  ∃ value, root.find key = .ok (some value) ∧ value.asUInt = .ok n

/-- A field that is stated is read, whatever the fallback. -/
theorem States.get {root : Json} {key : String} {n m : UInt32} {default value : Json}
    (h : States root key n) (hget : root.get key default = .ok value) (hread : value.asUInt = .ok m) :
    m = n := by
  obtain ⟨stated, hfind, hstated⟩ := h
  have hvalue : value = stated := by
    rw [Json.get, hfind] at hget
    cases hget
    rfl
  rw [hvalue, hstated] at hread
  exact (Except.ok.inj hread).symm

/-- The shape of a draft, as the validator checks it. -/
structure DraftShape (input cache proposals steps : UInt32) : Prop where
  cached : cache ≤ input
  started : steps ≠ 0
  counted : proposals = input - cache + steps - 1

/-- The shape of a target's verification, as the validator checks it. -/
structure TargetShape (input cache query : UInt32) : Prop where
  cached : cache ≤ input
  counted : query = input - cache
  asked : query ≠ 0

/-- A check before the rest. -/
theorem ok_of_check {β : Type} {c : Prop} [Decidable c] {check : Except String Unit}
    {rest : Unit → Except String β} {b : β} (h : (if c then check >>= rest else rest ()) = .ok b) :
    (c → check = .ok ()) ∧ rest () = .ok b := by
  split at h
  · obtain ⟨_, hcheck, h⟩ := ok_of_bind h
    exact ⟨fun _ => hcheck, h⟩
  · next hc => exact ⟨fun hyes => absurd hyes hc, h⟩

theorem states_of_field {root : Json} {key : String} {value : Json} {n : UInt32}
    (hmember : root.isMember key = .ok true) (hfield : root.field key = .ok value)
    (hread : value.asUInt = .ok n) : States root key n := by
  rw [Json.isMember] at hmember
  rw [Json.field] at hfield
  cases hfind : root.find key with
  | error message =>
    rw [hfind] at hmember
    cases hmember
  | ok found =>
    cases found with
    | none =>
      rw [hfind] at hmember
      cases hmember
    | some stated =>
      rw [hfind] at hfield
      cases hfield
      exact ⟨_, hfind, hread⟩

/-- Every required field is there. -/
theorem checkShape_members {lineNo : Nat} {root : Json} (h : checkShape lineNo root = .ok ()) :
    ∀ key ∈ requiredFields, root.isMember key = .ok true := by
  unfold checkShape at h
  obtain ⟨_, hmembers, -⟩ := ok_of_bind h
  revert hmembers
  generalize requiredFields = keys
  intro hmembers
  induction keys with
  | nil => simp
  | cons key rest ih =>
    rw [List.forIn_cons] at hmembers
    obtain ⟨_, hstep, hrest⟩ := ok_of_bind hmembers
    obtain ⟨member, hmember, hstep⟩ := ok_of_bind hstep
    obtain ⟨_, hreject, hyield⟩ := ok_of_bind hstep
    cases hyield
    intro other hother
    rcases List.mem_cons.mp hother with rfl | hother
    · rw [hmember]
      simpa using not_of_reject hreject
    · exact ih hrest other hother

/-- A record that passes the checks states a target and a draft of the right shape. -/
theorem checkShape_stated {lineNo : Nat} {root : Json} (h : checkShape lineNo root = .ok ()) :
    (∃ input cache query, States root "target_input_tokens" input ∧
      States root "target_kv_cache_tokens" cache ∧ States root "target_uncached_query_tokens" query ∧
      TargetShape input cache query) ∧
    ∃ input cache proposals steps, States root "draft_input_tokens" input ∧
      States root "draft_kv_cache_tokens" cache ∧ States root "draft_decoder_tokens" proposals ∧
      States root "draft_forward_steps" steps ∧ DraftShape input cache proposals steps := by
  have hmembers := checkShape_members h
  unfold checkShape at h
  obtain ⟨_, -, h⟩ := ok_of_bind h
  obtain ⟨_, htargetInput, h⟩ := ok_of_bind h
  obtain ⟨targetInput, htargetInput', h⟩ := ok_of_bind h
  obtain ⟨_, htargetCache, h⟩ := ok_of_bind h
  obtain ⟨targetCache, htargetCache', h⟩ := ok_of_bind h
  obtain ⟨_, hquery, h⟩ := ok_of_bind h
  obtain ⟨query, hquery', h⟩ := ok_of_bind h
  obtain ⟨_, hinput, h⟩ := ok_of_bind h
  obtain ⟨input, hinput', h⟩ := ok_of_bind h
  obtain ⟨_, hcache, h⟩ := ok_of_bind h
  obtain ⟨cache, hcache', h⟩ := ok_of_bind h
  iterate 2 obtain ⟨_, -, h⟩ := ok_of_bind h
  obtain ⟨_, hsteps, h⟩ := ok_of_bind h
  obtain ⟨steps, hsteps', h⟩ := ok_of_bind h
  obtain ⟨_, hdecoder, h⟩ := ok_of_bind h
  obtain ⟨proposals, hdecoder', h⟩ := ok_of_bind h
  have hshape := not_of_reject h
  simp only [not_or, ne_eq, not_not] at hshape
  obtain ⟨htargetCached, hcached, htargetUncached, huncached, hasked, hne, hproposals⟩ := hshape
  refine ⟨⟨targetInput, targetCache, query, states_of_field (hmembers _ ?_) htargetInput htargetInput',
    states_of_field (hmembers _ ?_) htargetCache htargetCache',
    states_of_field (hmembers _ ?_) hquery hquery', UInt32.not_lt.mp htargetCached, htargetUncached,
    hasked⟩, input, cache, proposals, steps, states_of_field (hmembers _ ?_) hinput hinput',
    states_of_field (hmembers _ ?_) hcache hcache', states_of_field (hmembers _ ?_) hdecoder hdecoder',
    states_of_field (hmembers _ ?_) hsteps hsteps', UInt32.not_lt.mp hcached, hne, ?_⟩
  · simp [requiredFields]
  · simp [requiredFields]
  · simp [requiredFields]
  · simp [requiredFields]
  · simp [requiredFields]
  · simp [requiredFields]
  · simp [requiredFields]
  · rw [hproposals, huncached]

/-- What a stored record has from its line. -/
structure ReadAs (lineNo : Nat) (root : Json) (control : SpeculativeControl) : Prop where
  shape : 2 ≤ control.traceVersion → checkShape lineNo root = .ok ()
  cache : ∃ default cache value, root.get "draft_kv_cache_tokens" default = .ok cache ∧
    root.get "draft_precompute_kv_cache_tokens" cache = .ok value ∧
    value.asUInt = .ok control.draftKvCacheTokens
  proposals : ∃ default value, root.get "draft_decoder_tokens" default = .ok value ∧
    value.asUInt = .ok control.draftProposalCount
  input : ∃ default value, root.get "draft_input_tokens" default = .ok value ∧
    value.asUInt = .ok control.draftInputTokens
  steps : ∃ default value, root.get "draft_forward_steps" default = .ok value ∧
    value.asUInt = .ok control.draftForwardSteps
  targetQuery : ∃ default value, root.get "target_uncached_query_tokens" default = .ok value ∧
    value.asUInt = .ok control.targetQueryTokens
  targetCache : ∃ default value, root.get "target_kv_cache_tokens" default = .ok value ∧
    value.asUInt = .ok control.targetKvCacheTokens
  targetInput : ∃ default value, root.get "target_input_tokens" default = .ok value ∧
    value.asUInt = .ok control.targetInputTokens
  fanOut : readFanOut lineNo root = .ok control.draftFanOutList
  tree : control.algorithm = "ssd" →
    checkTree lineNo control.draftTreeSteps control.draftTreeQueryTokens control.draftProposalCount
      control.draftFanOutList = .ok ()

theorem readControl_readAs {lineNo : Nat} {root : Json} {r : Record}
    (h : readControl lineNo root = .ok (some r)) : ReadAs lineNo root r.1 := by
  unfold readControl at h
  iterate 3 obtain ⟨_, -, h⟩ := ok_of_bind h
  split at h
  · cases h
  · iterate 11 obtain ⟨_, -, h⟩ := ok_of_bind h
    obtain ⟨hshape, h⟩ := ok_of_check h
    obtain ⟨_, -, h⟩ := ok_of_bind h
    obtain ⟨_, hcache, h⟩ := ok_of_bind h
    obtain ⟨_, hprecompute, h⟩ := ok_of_bind h
    obtain ⟨_, hkv, h⟩ := ok_of_bind h
    obtain ⟨_, -, h⟩ := ok_of_bind h
    obtain ⟨_, hdecoder, h⟩ := ok_of_bind h
    obtain ⟨_, hproposals, h⟩ := ok_of_bind h
    iterate 3 obtain ⟨_, -, h⟩ := ok_of_bind h
    obtain ⟨_, hfanOut, h⟩ := ok_of_bind h
    obtain ⟨htree, h⟩ := ok_of_check h
    obtain ⟨_, -, h⟩ := ok_of_bind h
    -- with a sample id or without
    extract_lets withId at h
    obtain ⟨id, h⟩ : ∃ id, withId id = .ok (some r) := by
      split at h
      · iterate 2 obtain ⟨_, -, h⟩ := ok_of_bind h
        exact ⟨_, h⟩
      · exact ⟨_, h⟩
    obtain ⟨_, -, h⟩ := ok_of_bind h
    obtain ⟨_, huncached, h⟩ := ok_of_bind h
    iterate 2 obtain ⟨_, -, h⟩ := ok_of_bind h
    obtain ⟨_, hquery, h⟩ := ok_of_bind h
    obtain ⟨_, hnumber, h⟩ := ok_of_bind h
    obtain ⟨_, htargetCache, htargetCache'⟩ := ok_of_bind hnumber
    iterate 7 obtain ⟨_, -, h⟩ := ok_of_bind h
    obtain ⟨_, hnumber, h⟩ := ok_of_bind h
    obtain ⟨_, htargetInput, htargetInput'⟩ := ok_of_bind hnumber
    obtain ⟨_, hnumber, h⟩ := ok_of_bind h
    obtain ⟨_, hinput, hinput'⟩ := ok_of_bind hnumber
    iterate 7 obtain ⟨_, -, h⟩ := ok_of_bind h
    obtain ⟨_, hsteps, h⟩ := ok_of_bind h
    obtain ⟨_, hsteps', h⟩ := ok_of_bind h
    iterate 8 obtain ⟨_, -, h⟩ := ok_of_bind h
    -- with a rollback or without
    extract_lets withRollback at h
    obtain ⟨rollback, h⟩ : ∃ rollback, withRollback rollback = .ok (some r) := by
      split at h
      · exact ⟨_, h⟩
      · obtain ⟨_, -, h⟩ := ok_of_bind h
        exact ⟨_, h⟩
    iterate 6 obtain ⟨_, -, h⟩ := ok_of_bind h
    cases h
    exact ⟨hshape, ⟨_, _, _, hcache, hprecompute, hkv⟩, ⟨_, _, hdecoder, hproposals⟩,
      ⟨_, _, hinput, hinput'⟩, ⟨_, _, hsteps, hsteps'⟩, ⟨_, _, huncached, hquery⟩,
      ⟨_, _, htargetCache, htargetCache'⟩, ⟨_, _, htargetInput, htargetInput'⟩, hfanOut, htree⟩

/-- From version 2 on the stored target is the stated one. -/
theorem ReadAs.target {lineNo : Nat} {root : Json} {control : SpeculativeControl}
    (h : ReadAs lineNo root control) (hversion : 2 ≤ control.traceVersion) :
    TargetShape control.targetInputTokens control.targetKvCacheTokens control.targetQueryTokens := by
  obtain ⟨⟨input, cache, query, hinput, hcache, hquery, hshape⟩, -⟩ :=
    checkShape_stated (h.shape hversion)
  obtain ⟨_, _, hget, hread⟩ := h.targetInput
  obtain rfl := hinput.get hget hread
  obtain ⟨_, _, hget, hread⟩ := h.targetCache
  obtain rfl := hcache.get hget hread
  obtain ⟨_, _, hget, hread⟩ := h.targetQuery
  obtain rfl := hquery.get hget hread
  exact hshape

/-- From version 2 on the stored draft is the stated one, but for the cache length. -/
theorem ReadAs.draft {lineNo : Nat} {root : Json} {control : SpeculativeControl}
    (h : ReadAs lineNo root control) (hversion : 2 ≤ control.traceVersion) :
    ∃ cache, States root "draft_kv_cache_tokens" cache ∧
      DraftShape control.draftInputTokens cache control.draftProposalCount control.draftForwardSteps ∧
      (control.draftKvCacheTokens = cache ∨
        States root "draft_precompute_kv_cache_tokens" control.draftKvCacheTokens) := by
  obtain ⟨-, input, cache, proposals, steps, hinput, hcache, hproposals, hsteps, hshape⟩ :=
    checkShape_stated (h.shape hversion)
  obtain ⟨_, _, hget, hread⟩ := h.input
  obtain rfl := hinput.get hget hread
  obtain ⟨_, _, hget, hread⟩ := h.proposals
  obtain rfl := hproposals.get hget hread
  obtain ⟨_, _, hget, hread⟩ := h.steps
  obtain rfl := hsteps.get hget hread
  refine ⟨cache, hcache, hshape, ?_⟩
  obtain ⟨_, stated, value, hget, hprecompute, hread⟩ := h.cache
  cases hfind : root.find "draft_precompute_kv_cache_tokens" with
  | error message =>
    rw [Json.get, hfind] at hprecompute
    cases hprecompute
  | ok found =>
    rw [Json.get, hfind] at hprecompute
    cases found with
    | none =>
      cases hprecompute
      exact .inl (hcache.get hget hread)
    | some precompute =>
      cases hprecompute
      exact .inr ⟨_, hfind, hread⟩

/-- Over the natural numbers, where the number of proposals fits in 32 bits. -/
theorem DraftShape.toNat {input cache proposals steps : UInt32} (h : DraftShape input cache proposals steps)
    (hfits : input.toNat - cache.toNat + steps.toNat - 1 < 2 ^ 32) :
    proposals.toNat = input.toNat - cache.toNat + steps.toNat - 1 := by
  have hcached := UInt32.le_iff_toNat_le.mp h.cached
  have hsteps : steps.toNat ≠ 0 := fun hzero => h.started (UInt32.toNat_inj.mp hzero)
  rw [h.counted, UInt32.toNat_sub, UInt32.toNat_add, UInt32.toNat_sub]
  have hinput := input.toNat_lt
  have hlt := steps.toNat_lt
  have hone : (1 : UInt32).toNat = 1 := rfl
  omega

/-- Without the prefill a draft starts from the last prompt token. -/
theorem withoutPrefill_shape {first : SpeculativeControl} (hprompt : first.prefixLenBefore ≠ 0)
    (hsteps : first.draftForwardSteps ≠ 0) :
    DraftShape first.withoutPrefill.draftInputTokens first.withoutPrefill.draftKvCacheTokens
      first.withoutPrefill.draftProposalCount first.withoutPrefill.draftForwardSteps := by
  have hpos : first.prefixLenBefore.toNat ≠ 0 := fun hzero => hprompt (UInt32.toNat_inj.mp hzero)
  have hlt := first.prefixLenBefore.toNat_lt
  have hlt' := first.draftForwardSteps.toNat_lt
  have hone : (1 : UInt32).toNat = 1 := rfl
  refine ⟨?_, hsteps, ?_⟩
  · show first.prefixLenBefore - 1 ≤ first.prefixLenBefore
    rw [UInt32.le_iff_toNat_le, UInt32.toNat_sub]
    omega
  · show first.draftForwardSteps =
      first.prefixLenBefore - (first.prefixLenBefore - 1) + first.draftForwardSteps - 1
    apply UInt32.toNat_inj.mp
    rw [UInt32.toNat_sub, UInt32.toNat_add, UInt32.toNat_sub, UInt32.toNat_sub]
    omega

/-! ### The tree of an SSD record -/

/-- The shape of a tree: its fan-out is the number of nodes of a step, and of proposals.
An array of the trace has 32-bit indices. -/
structure TreeShape (control : SpeculativeControl) : Prop where
  steps : 1 ≤ control.draftTreeSteps.toNat
  branches : control.draftFanOutList ≠ []
  positive : ∀ count ∈ control.draftFanOutList, 1 ≤ count.toNat
  summed : control.draftFanOutList.length ≤ 2 ^ 32 →
    (control.draftFanOutList.map UInt32.toNat).sum = control.draftTreeQueryTokens.toNat
  counted : control.draftTreeQueryTokens = control.draftProposalCount

theorem toNat_sum_fanOut {fanOut : List UInt32} {query : UInt32}
    (h : (fanOut.map UInt32.toUInt64).sum = query.toUInt64) (hlt : (fanOut.map UInt32.toNat).sum < 2 ^ 64) :
    (fanOut.map UInt32.toNat).sum = query.toNat := by
  have hnat := congrArg UInt64.toNat h
  rw [Lib.toNat_sum, List.map_map] at hnat
  exact (Nat.mod_eq_of_lt hlt).symm.trans hnat

theorem readFanOut_positive {lineNo : Nat} {root : Json} {fanOut : List UInt32}
    (h : readFanOut lineNo root = .ok fanOut) : ∀ count ∈ fanOut, 1 ≤ count.toNat := by
  obtain ⟨_, -, h⟩ := ok_of_bind h
  split at h
  · cases h
    simp
  · obtain ⟨_, -, h⟩ := ok_of_bind h
    obtain ⟨_, -, h⟩ := ok_of_bind h
    refine forall_of_mapM (fun _ _ count hread => ?_) h
    obtain ⟨branchCount, -, hread⟩ := ok_of_bind hread
    obtain ⟨_, hzero, hread⟩ := ok_of_bind hread
    cases hread
    have hne := not_of_reject hzero
    exact Nat.one_le_iff_ne_zero.mpr fun h0 => hne (UInt32.toNat_inj.mp h0)

theorem ReadAs.treeShape {lineNo : Nat} {root : Json} {control : SpeculativeControl}
    (h : ReadAs lineNo root control) (hssd : control.algorithm = "ssd") : TreeShape control := by
  obtain ⟨_, hsized, hshape⟩ := ok_of_bind (h.tree hssd)
  have hsome := not_of_reject hsized
  have hmatch := not_of_reject hshape
  simp only [not_or, ne_eq, not_not] at hsome hmatch
  refine ⟨?_, hsome.2.2, readFanOut_positive h.fanOut, fun hlength => ?_, hmatch.2.symm⟩
  · exact Nat.one_le_iff_ne_zero.mpr fun h0 => hsome.1 (UInt32.toNat_inj.mp h0)
  · exact toNat_sum_fanOut hmatch.1 (Lib.sum_words_lt hlength)

/-! ### Where a replayed record comes from -/

/-- A control record of the file is replayed as it is, or, as the first of its sample, without
the prefill. -/
inductive ReplayedFrom (lines : List Line) (root : Json) : SpeculativeControl → Prop where
  | read (lineNo : Nat) (r : Record) (sample : UInt32) : .value root ∈ lines →
    readControl lineNo root = .ok (some r) → ReplayedFrom lines root (r.1.inSample sample)
  | withoutPrefill (lineNo : Nat) (r : Record) (sample : UInt32) : .value root ∈ lines →
    readControl lineNo root = .ok (some r) → 2 ≤ r.1.traceVersion → r.1.prefixLenBefore ≠ 0 →
    ReplayedFrom lines root (r.1.withoutPrefill.inSample sample)

/-- A record of the file is on one of its lines. -/
theorem controlRecords_mem {lines : List Line} {records : List Record}
    (h : controlRecords lines = .ok records) {r : Record} (hr : r ∈ records) :
    ∃ lineNo root, .value root ∈ lines ∧ readControl lineNo root = .ok (some r) := by
  obtain ⟨found, hfound, h⟩ := ok_of_bind h
  cases h
  obtain ⟨e, he, hread⟩ := mem_of_mapM hfound _ (List.reduceOption_mem_iff.mp hr)
  obtain ⟨⟨line, lineNo⟩, hline, rfl⟩ := List.mem_map.mp he
  cases line with
  | empty => cases hread
  | malformed => cases hread
  | value root => exact ⟨lineNo, root, List.fst_mem_of_mem_zipIdx hline, hread⟩

/-- So is a record of a sample. -/
theorem readSamples_mem {lines : List Line} {samples : List (List SpeculativeControl)}
    (h : readSamples lines = .ok samples) {sample : List SpeculativeControl} (hsample : sample ∈ samples)
    {control : SpeculativeControl} (hcontrol : control ∈ sample) :
    ∃ lineNo root r, .value root ∈ lines ∧ readControl lineNo root = .ok (some r) ∧ r.1 = control := by
  obtain ⟨records, hrecords, -, hflatten⟩ := readSamples_flatten h
  have hflat : control ∈ records.map Prod.fst := by
    rw [← hflatten]
    exact List.mem_flatten.mpr ⟨sample, hsample, hcontrol⟩
  obtain ⟨r, hr, rfl⟩ := List.mem_map.mp hflat
  obtain ⟨lineNo, root, hvalue, hread⟩ := controlRecords_mem hrecords hr
  exact ⟨lineNo, root, r, hvalue, hread, rfl⟩

/-- What the loader does to a sample: nothing if the prefill is out already, else the
first record is rewritten. -/
inductive Normalized : List SpeculativeControl → List SpeculativeControl → Prop where
  | empty : Normalized [] []
  | warm (first : SpeculativeControl) (rest : List SpeculativeControl) : 2 ≤ first.traceVersion →
    first.prefillExcluded = true → Normalized (first :: rest) (first :: rest)
  | cold (first : SpeculativeControl) (rest : List SpeculativeControl) : 2 ≤ first.traceVersion →
    first.prefillExcluded = false → first.prefixLenBefore ≠ 0 →
    Normalized (first :: rest) (first.withoutPrefill :: rest)

theorem normalizeSample_normalized {sample sample' : List SpeculativeControl}
    (h : normalizeSample sample = .ok sample') : Normalized sample sample' := by
  cases sample with
  | nil =>
    cases h
    exact .empty
  | cons first rest =>
    rw [normalizeSample] at h
    obtain ⟨_, hversion, h⟩ := ok_of_bind h
    have hv2 := UInt32.not_lt.mp (not_of_reject hversion)
    split at h
    · next hwarm =>
      cases h
      exact .warm first rest hv2 hwarm
    · next hcold =>
      obtain ⟨_, hprompt, h⟩ := ok_of_bind h
      cases h
      exact .cold first rest hv2 (Bool.not_eq_true _ ▸ hcold) fun hzero =>
        not_of_reject hprompt (.inl hzero)

theorem normalizeSample_mem {sample sample' : List SpeculativeControl}
    (h : normalizeSample sample = .ok sample') {control : SpeculativeControl} (hc : control ∈ sample') :
    control ∈ sample ∨ ∃ first ∈ sample, 2 ≤ first.traceVersion ∧ first.prefixLenBefore ≠ 0 ∧
      control = first.withoutPrefill := by
  cases normalizeSample_normalized h with
  | empty => cases hc
  | warm first rest _ _ => exact .inl hc
  | cold first rest hversion _ hprompt =>
    rcases List.mem_cons.mp hc with rfl | hc
    · exact .inr ⟨first, List.mem_cons_self, hversion, hprompt, rfl⟩
    · exact .inl (List.mem_cons_of_mem _ hc)

/-- What is replayed is stored, with the position of its sample. -/
theorem replayed_stored {spec : SpeculativeInfo} {lines : List Line}
    {stored : List (List SpeculativeControl)} {controls : List SpeculativeControl}
    (h : loadSpeculativeControlTrace spec lines = .ok controls)
    (hstored : preparedSamples spec lines = .ok stored) {control : SpeculativeControl}
    (hcontrol : control ∈ controls) :
    ∃ sample ∈ stored, ∃ c ∈ sample, ∃ id, control = c.inSample id := by
  obtain ⟨samples, hsamples, -, rfl⟩ := load_ok h
  rw [hstored] at hsamples
  cases hsamples
  have hselected : control ∈ (replayedSamples spec stored).flatMap (labelled spec) := by
    rw [limited] at hcontrol
    split at hcontrol
    · exact hcontrol
    · exact List.mem_of_mem_take hcontrol
  obtain ⟨e, he, hlabelled⟩ := List.mem_flatMap.mp hselected
  obtain ⟨c, hc, rfl⟩ := List.mem_map.mp hlabelled
  exact ⟨e.2, mem_replayedSamples he, c, List.mem_of_mem_filter hc, e.1, rfl⟩

/-- Every replayed record is one of the file. -/
theorem load_replayedFrom {spec : SpeculativeInfo} {lines : List Line}
    {controls : List SpeculativeControl} (h : loadSpeculativeControlTrace spec lines = .ok controls) :
    ∀ control ∈ controls, ∃ root, ReplayedFrom lines root control := by
  obtain ⟨samples, hprepared, -⟩ := load_ok h
  intro control hcontrol
  obtain ⟨kept, hsample, stored, hmem, id, rfl⟩ := replayed_stored h hprepared hcontrol
  obtain ⟨read, hread, hprepared⟩ := ok_of_bind hprepared
  split at hprepared
  · obtain ⟨sample, hs, hnormalize⟩ := mem_of_mapM hprepared _ hsample
    rcases normalizeSample_mem hnormalize hmem with hmem | ⟨first, hfirst, hversion, hprompt, rfl⟩
    · obtain ⟨lineNo, root, r, hvalue, hreadControl, rfl⟩ := readSamples_mem hread hs hmem
      exact ⟨root, .read lineNo r id hvalue hreadControl⟩
    · obtain ⟨lineNo, root, r, hvalue, hreadControl, rfl⟩ := readSamples_mem hread hs hfirst
      exact ⟨root, .withoutPrefill lineNo r id hvalue hreadControl hversion hprompt⟩
  · cases hprepared
    obtain ⟨lineNo, root, r, hvalue, hreadControl, rfl⟩ := readSamples_mem hread hsample hmem
    exact ⟨root, .read lineNo r id hvalue hreadControl⟩

/-- **The draft of a replayed record of version 2 or later.** There is a cache length with
which the stored input, proposals and steps have the validated shape. The stored cache
length is that one, or the record states it as the cache of the precomputation. -/
theorem draft_shape {spec : SpeculativeInfo} {lines : List Line} {controls : List SpeculativeControl}
    (h : loadSpeculativeControlTrace spec lines = .ok controls) :
    ∀ control ∈ controls, 2 ≤ control.traceVersion →
      ∃ root cache, ReplayedFrom lines root control ∧ cache ≤ control.draftInputTokens ∧
        1 ≤ control.draftForwardSteps.toNat ∧
        (control.draftInputTokens.toNat - cache.toNat + control.draftForwardSteps.toNat - 1 < 2 ^ 32 →
          control.draftProposalCount.toNat =
            control.draftInputTokens.toNat - cache.toNat + control.draftForwardSteps.toNat - 1) ∧
        (control.draftKvCacheTokens = cache ∨
          States root "draft_kv_cache_tokens" cache ∧
          States root "draft_precompute_kv_cache_tokens" control.draftKvCacheTokens) := by
  intro control hcontrol hversion
  obtain ⟨root, hfrom⟩ := load_replayedFrom h control hcontrol
  suffices hshape : ∃ cache,
      DraftShape control.draftInputTokens cache control.draftProposalCount control.draftForwardSteps ∧
      (control.draftKvCacheTokens = cache ∨
        States root "draft_kv_cache_tokens" cache ∧
        States root "draft_precompute_kv_cache_tokens" control.draftKvCacheTokens) by
    obtain ⟨cache, hdraft, hcache⟩ := hshape
    refine ⟨root, cache, hfrom, hdraft.cached, ?_, hdraft.toNat, hcache⟩
    exact Nat.one_le_iff_ne_zero.mpr fun hzero => hdraft.started (UInt32.toNat_inj.mp hzero)
  cases hfrom with
  | read lineNo r sample _ hread =>
    obtain ⟨cache, hstated, hdraft, hcache⟩ := (readControl_readAs hread).draft hversion
    exact ⟨cache, hdraft, hcache.imp id fun hprecompute => ⟨hstated, hprecompute⟩⟩
  | withoutPrefill lineNo r sample _ hread hold hprompt =>
    obtain ⟨_, -, hdraft, -⟩ := (readControl_readAs hread).draft hold
    exact ⟨_, withoutPrefill_shape hprompt hdraft.started, .inl rfl⟩

/-- A line with members in front of its own. -/
def Line.adding (members : List (String × Json)) : Line → Line
  | .value (.obj own) => .value (.obj (members ++ own))
  | line => line

/-- An SSD record whose draft starts from the prefix that the target leaves. -/
def precomputeRecord : Line :=
  (warmRecord 1 10 12).adding [("algorithm", .str "ssd"), ("draft_fan_out_list", .arr [.int 1]),
    ("draft_precompute_kv_cache_tokens", .int 12)]

/-- It is replayed with a cache longer than its input. -/
def precomputeStored : Bool :=
  (loadSpeculativeControlTrace {} [precomputeRecord]).toOption.any fun controls =>
    controls.any fun control =>
      2 ≤ control.traceVersion && control.draftInputTokens < control.draftKvCacheTokens

theorem precompute_replayed : ∃ controls, ∃ control ∈ controls,
    loadSpeculativeControlTrace {} [precomputeRecord] = .ok controls ∧ 2 ≤ control.traceVersion ∧
    control.draftInputTokens < control.draftKvCacheTokens := by
  have hstored : precomputeStored = true := by decide +kernel
  obtain ⟨controls, hload, hany⟩ := ok_of_any hstored
  obtain ⟨control, hcontrol, hlonger⟩ := List.any_eq_true.mp hany
  simp only [Bool.and_eq_true, decide_eq_true_eq] at hlonger
  exact ⟨controls, control, hcontrol, hload, hlonger.1, hlonger.2⟩

theorem draft_shape_precomputed : ¬ ∀ (spec : SpeculativeInfo) (lines : List Line)
    (controls : List SpeculativeControl), loadSpeculativeControlTrace spec lines = .ok controls →
    ∀ control ∈ controls, 2 ≤ control.traceVersion →
      control.draftKvCacheTokens.toNat ≤ control.draftInputTokens.toNat ∧
      control.draftProposalCount.toNat =
        control.draftInputTokens.toNat - control.draftKvCacheTokens.toNat +
          control.draftForwardSteps.toNat - 1 ∧
      1 ≤ control.draftForwardSteps.toNat := by
  intro hall
  obtain ⟨controls, control, hcontrol, hload, hversion, hlonger⟩ := precompute_replayed
  have hshorter := (hall {} _ controls hload control hcontrol hversion).1
  exact absurd (UInt32.lt_iff_toNat_lt.mp hlonger) (not_lt.mpr hshorter)

theorem draft_shape_precomputeRecord : ∃ root cache, ∃ control : SpeculativeControl,
    ReplayedFrom [precomputeRecord] root control ∧ cache ≤ control.draftInputTokens ∧
    control.draftInputTokens < control.draftKvCacheTokens ∧
    States root "draft_precompute_kv_cache_tokens" control.draftKvCacheTokens := by
  obtain ⟨controls, control, hcontrol, hload, hversion, hlonger⟩ := precompute_replayed
  obtain ⟨root, cache, hfrom, hcached, -, -, hcache⟩ := draft_shape hload control hcontrol hversion
  refine ⟨root, cache, control, hfrom, hcached, hlonger, ?_⟩
  rcases hcache with hsame | ⟨-, hprecompute⟩
  · rw [hsame, UInt32.lt_iff_toNat_lt] at hlonger
    exact absurd (UInt32.le_iff_toNat_le.mp hcached) (not_le.mpr hlonger)
  · exact hprecompute

end Hsim.TraceGenerator
