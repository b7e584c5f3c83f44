import Hsim.TraceGenerator

/-! Cache continuity of the replayed schedule.

The loader checks the caches of neighbouring records of a sample before it drops
the warm-up. Dropping leaves a gap wherever a record with a small iteration
number stands between two that are kept, and nothing checks across it. -/
namespace Hsim.TraceGenerator

/-- Consecutive replayed records of one sample fit together, from trace version 2 on. -/
def CacheContinuous (controls : List SpeculativeControl) : Prop :=
  ∀ before a b after, controls = before ++ a :: b :: after → a.sampleIndex = b.sampleIndex →
    2 ≤ a.traceVersion → 2 ≤ b.traceVersion → Continues a b

variable (spec : SpeculativeInfo)

/-! ### The selection in closed form -/

/-- What a sample adds to the replay. -/
def labelled (e : UInt32 × List SpeculativeControl) : List SpeculativeControl :=
  (e.2.filter (kept spec)).map (·.inSample e.1)

/-- The records the limit leaves. -/
def limited (controls : List SpeculativeControl) : List SpeculativeControl :=
  if spec.maxControlIterations = 0 then controls
  else controls.take spec.maxControlIterations.toNat

/-- A number of records is within the limit. -/
def WithinLimit (n : Nat) : Prop :=
  spec.maxControlIterations = 0 ∨ n ≤ spec.maxControlIterations.toNat

variable {spec}

theorem limited_of_within {controls : List SpeculativeControl} (h : WithinLimit spec controls.length) :
    limited spec controls = controls := by
  rw [limited]
  split
  · rfl
  · next hmax => exact List.take_of_length_le (h.resolve_left hmax)

theorem limited_append (a b : List SpeculativeControl) :
    limited spec (limited spec a ++ b) = limited spec (a ++ b) := by
  simp only [limited]
  split
  · rfl
  · simp [List.take_append, List.take_take, List.length_take]
    grind

theorem limited_of_full {acc : List SpeculativeControl} (hfull : full spec acc = true)
    (rest : List SpeculativeControl) : limited spec (acc ++ rest) = limited spec acc := by
  simp only [full, Bool.and_eq_true, bne_iff_ne, decide_eq_true_eq] at hfull
  rw [limited, limited, if_neg hfull.1, if_neg hfull.1, List.take_append_of_le_length hfull.2]

theorem within_of_not_full {acc : List SpeculativeControl} (hfull : full spec acc = false) :
    WithinLimit spec (acc.length + 1) := by
  rw [full, Bool.and_eq_false_iff] at hfull
  rcases hfull with h | h
  · exact .inl (by simpa using h)
  · exact .inr (by simpa [Nat.succ_le_iff] using h)

theorem within_limited (controls : List SpeculativeControl) :
    WithinLimit spec (limited spec controls).length := by
  rw [limited]
  split
  · next h => exact .inl h
  · exact .inr (by simp)

theorem selectSample_eq (id : UInt32) (sample acc : List SpeculativeControl)
    (hacc : WithinLimit spec acc.length) :
    selectSample spec id acc sample = limited spec (acc ++ labelled spec (id, sample)) := by
  induction sample generalizing acc with
  | nil => simp [selectSample, labelled, limited_of_within hacc]
  | cons control rest ih =>
    rw [selectSample]
    split
    · next hskip => simp [ih acc hacc, labelled, hskip]
    · next hkept =>
      have hcons : labelled spec (id, control :: rest) =
          control.inSample id :: labelled spec (id, rest) := by
        simp [labelled, hkept]
      rw [hcons]
      split
      · next hfull => rw [limited_of_full hfull, limited_of_within hacc]
      · next hfull =>
        rw [ih _ (by simpa using within_of_not_full (by simpa using hfull)), List.append_assoc,
          List.singleton_append]

theorem selectSamples_eq (samples : List (UInt32 × List SpeculativeControl))
    (acc : List SpeculativeControl) (hacc : WithinLimit spec acc.length) :
    selectSamples spec acc samples = limited spec (acc ++ samples.flatMap (labelled spec)) := by
  induction samples generalizing acc with
  | nil => simp [selectSamples, limited_of_within hacc]
  | cons e rest ih =>
    have hall : limited spec (acc ++ (e :: rest).flatMap (labelled spec)) =
        limited spec (limited spec (acc ++ labelled spec e) ++ rest.flatMap (labelled spec)) := by
      rw [limited_append, List.flatMap_cons, List.append_assoc]
    rw [selectSamples, selectSample_eq e.1 e.2 acc hacc, hall]
    split
    · next hfull =>
      rw [limited_of_full hfull, limited_of_within (within_limited _)]
    · exact ih _ (within_limited _)

/-! ### Neighbours -/

/-- Two elements of a filtered list stand in the list, with what the filter leaves between
them. -/
theorem filter_pair {α : Type} {p : α → Bool} {xs u y v : List α} {a b : α}
    (h : xs.filter p = u ++ a :: y ++ b :: v) :
    ∃ pre mid post, xs = pre ++ a :: mid ++ b :: post ∧ pre.filter p = u ∧ mid.filter p = y ∧
      p a = true ∧ p b = true := by
  rw [List.append_assoc, List.cons_append] at h
  obtain ⟨pre, rest, rfl, hpre, hrest⟩ := List.filter_eq_append_iff.mp h
  obtain ⟨skipped, rest, rfl, hskipped, ha, hrest⟩ := List.filter_eq_cons_iff.mp hrest
  obtain ⟨mid, rest, rfl, hmid, hrest⟩ := List.filter_eq_append_iff.mp hrest
  obtain ⟨dropped, post, rfl, hdropped, hb, -⟩ := List.filter_eq_cons_iff.mp hrest
  refine ⟨pre ++ skipped, mid ++ dropped, post, by simp, ?_, ?_, ha, hb⟩
  · rw [List.filter_append, hpre, List.filter_eq_nil_iff.mpr hskipped, List.append_nil]
  · rw [List.filter_append, hmid, List.filter_eq_nil_iff.mpr hdropped, List.append_nil]

theorem mem_labelled {e : UInt32 × List SpeculativeControl} {c : SpeculativeControl}
    (h : c ∈ labelled spec e) : c.sampleIndex = e.1 := by
  obtain ⟨_, -, rfl⟩ := List.mem_map.mp h
  rfl

/-- Two records of the replay that carry one sample's label come from that sample. -/
theorem flatMap_pair {samples : List (UInt32 × List SpeculativeControl)}
    (hids : (samples.map Prod.fst).Nodup) {u y v : List SpeculativeControl} {a b : SpeculativeControl}
    (h : samples.flatMap (labelled spec) = u ++ a :: y ++ b :: v)
    (hab : a.sampleIndex = b.sampleIndex) :
    ∃ earlier e later u' v', samples = earlier ++ e :: later ∧
      u = earlier.flatMap (labelled spec) ++ u' ∧ labelled spec e = u' ++ a :: y ++ b :: v' := by
  induction samples generalizing u with
  | nil => simp at h
  | cons e rest ih =>
    rw [List.map_cons, List.nodup_cons] at hids
    have hlater : ∀ {w}, u = labelled spec e ++ w →
        rest.flatMap (labelled spec) = w ++ a :: y ++ b :: v →
        ∃ earlier e' later u' v', e :: rest = earlier ++ e' :: later ∧
          u = earlier.flatMap (labelled spec) ++ u' ∧ labelled spec e' = u' ++ a :: y ++ b :: v' := by
      intro w hu hrest
      obtain ⟨earlier, e', later, u', v', rfl, rfl, he'⟩ := ih hids.2 hrest
      exact ⟨e :: earlier, e', later, u', v', rfl, by rw [hu, List.flatMap_cons, List.append_assoc], he'⟩
    -- with the first of the two in this sample, the second is not in a later one
    have hapart : a ∈ labelled spec e → b ∉ rest.flatMap (labelled spec) := by
      intro ha hb
      obtain ⟨e', he', hb⟩ := List.mem_flatMap.mp hb
      refine hids.1 (List.mem_map.mpr ⟨e', he', ?_⟩)
      rw [← mem_labelled hb, ← hab, mem_labelled ha]
    rw [List.flatMap_cons, List.append_assoc, List.cons_append] at h
    rcases List.append_eq_append_iff.mp h with ⟨w, hu, hrest⟩ | ⟨w, he, hw⟩
    · exact hlater hu (by simpa using hrest)
    · match w, hw with
      | [], hw => exact hlater (w := []) (by simpa using he.symm) (by simpa using hw.symm)
      | c :: w, hw =>
        simp only [List.cons_append, List.cons.injEq] at hw
        obtain ⟨rfl, hw⟩ := hw
        have ha : a ∈ labelled spec e := by rw [he]; simp
        rcases List.append_eq_append_iff.mp hw with ⟨x, rfl, hx⟩ | ⟨x, rfl, hx⟩
        · match x, hx with
          | [], hx => exact absurd (by rw [← List.nil_append (List.flatMap _ _), ← hx]; simp) (hapart ha)
          | d :: x, hx =>
            simp only [List.cons_append, List.cons.injEq] at hx
            obtain ⟨rfl, -⟩ := hx
            exact ⟨[], e, rest, u, x, rfl, rfl, by simpa using he⟩
        · exact absurd (by rw [hx]; simp) (hapart ha)

/-- Positions of samples are distinct: a replay takes fewer than 2^32 of them. -/
theorem replayedSamples_nodup (samples : List (List SpeculativeControl)) :
    ((replayedSamples spec samples).map Prod.fst).Nodup := by
  have hids : (samples.zipIdx.map fun e => (UInt32.ofNat e.2, e.1)).map Prod.fst =
      (List.range samples.length).map UInt32.ofNat := by
    rw [List.range_eq_range', ← List.zipIdx_map_snd 0 samples, List.map_map, List.map_map]
    rfl
  rw [replayedSamples]
  split
  · rw [List.map_take, hids, ← List.map_take, List.take_range]
    refine List.Nodup.map_on ?_ List.nodup_range
    intro i hi j hj hij
    have hbound := (UInt32.ofNat samples.length).toNat_lt
    rw [List.mem_range] at hi hj
    have hij' := congrArg UInt32.toNat hij
    rw [UInt32.toNat_ofNat', UInt32.toNat_ofNat'] at hij'
    omega
  · rw [List.map_take]
    generalize List.map Prod.fst _ = ids
    match ids with
    | [] => simp
    | id :: _ => simp

/-! ### The gaps -/

/-- The number of records samples add to the replay before its limit. -/
def keptCount (spec : SpeculativeInfo) (samples : List (UInt32 × List SpeculativeControl)) : Nat :=
  (samples.flatMap (labelled spec)).length

/-- Wherever warm-up records stand between two records of a replayed sample that are
kept, both of them within the limit and of trace version 2 or later, the later starts
from the caches the earlier left: what was dropped between them changed nothing. -/
def GapsClosed (spec : SpeculativeInfo) (samples : List (List SpeculativeControl)) : Prop :=
  ∀ earlier id sample later, replayedSamples spec samples = earlier ++ (id, sample) :: later →
    ∀ pre a mid b post, sample = pre ++ a :: mid ++ b :: post → mid ≠ [] →
    (∀ dropped ∈ mid, kept spec dropped = false) → kept spec a = true → kept spec b = true →
    WithinLimit spec (keptCount spec earlier + (pre.filter (kept spec)).length + 2) →
    2 ≤ a.traceVersion → 2 ≤ b.traceVersion → Continues a b

theorem checkSample_continues {sample : List SpeculativeControl} (h : checkSample sample = .ok ())
    {pre post : List SpeculativeControl} {a b : SpeculativeControl} (hs : sample = pre ++ a :: b :: post)
    (ha : 2 ≤ a.traceVersion) (hb : 2 ≤ b.traceVersion) : Continues a b := by
  induction pre generalizing sample with
  | nil =>
    rw [hs, List.nil_append, checkSample] at h
    obtain ⟨_, hok, -⟩ := ok_of_bind h
    by_contra hne
    exact not_of_reject hok ⟨ha, hb, hne⟩
  | cons c pre ih =>
    match pre with
    | [] =>
      rw [hs, List.cons_append, List.nil_append, checkSample] at h
      obtain ⟨_, -, h⟩ := ok_of_bind h
      exact ih h rfl
    | d :: pre =>
      rw [hs, List.cons_append, List.cons_append, checkSample] at h
      obtain ⟨_, -, h⟩ := ok_of_bind h
      exact ih h rfl

/-- A check of every element that passes has passed on each. -/
theorem forall_of_forIn {α ε : Type} {check : α → Except ε Unit} {xs : List α}
    (h : (forIn xs () fun x _ => do check x; return .yield ()) = .ok ()) :
    ∀ x ∈ xs, check x = .ok () := by
  induction xs with
  | nil => simp
  | cons x xs ih =>
    rw [List.forIn_cons] at h
    obtain ⟨_, hstep, h⟩ := ok_of_bind h
    obtain ⟨_, hx, hyield⟩ := ok_of_bind hstep
    cases hyield
    intro y hy
    rcases List.mem_cons.mp hy with rfl | hy
    · exact hx
    · exact ih h y hy

/-- What a successful load went through. -/
theorem load_ok {lines : List Line} {controls : List SpeculativeControl}
    (h : loadSpeculativeControlTrace spec lines = .ok controls) :
    ∃ samples, preparedSamples spec lines = .ok samples ∧
      (∀ sample ∈ samples, checkSample sample = .ok ()) ∧
      controls = limited spec ((replayedSamples spec samples).flatMap (labelled spec)) := by
  obtain ⟨samples, hprep, h⟩ := ok_of_bind h
  obtain ⟨_, hcheck, h⟩ := ok_of_bind h
  obtain ⟨_, -, h⟩ := ok_of_bind h
  obtain ⟨_, -, h⟩ := ok_of_bind h
  cases h
  refine ⟨samples, hprep, forall_of_forIn hcheck, ?_⟩
  rw [selectSamples_eq _ [] (.inr (Nat.zero_le _)), List.nil_append]

theorem mem_replayedSamples {samples : List (List SpeculativeControl)}
    {e : UInt32 × List SpeculativeControl} (h : e ∈ replayedSamples spec samples) :
    e.2 ∈ samples := by
  have hnumbered : e ∈ samples.zipIdx.map fun e => (UInt32.ofNat e.2, e.1) := by
    rw [replayedSamples] at h
    split at h
    · exact List.mem_of_mem_take h
    · exact List.mem_of_mem_drop (List.mem_of_mem_take h)
  obtain ⟨x, hx, rfl⟩ := List.mem_map.mp hnumbered
  exact (List.mem_zipIdx' hx).2 ▸ List.getElem_mem _

/-- A prefix that stays within the limit survives it. -/
theorem limited_prefix {u w : List SpeculativeControl} (h : WithinLimit spec u.length) :
    ∃ v, limited spec (u ++ w) = u ++ v := by
  rw [limited]
  split
  · exact ⟨w, rfl⟩
  · next hmax =>
    refine ⟨w.take (spec.maxControlIterations.toNat - u.length), ?_⟩
    rw [List.take_append, List.take_of_length_le (h.resolve_left hmax)]

theorem limited_split {controls u v : List SpeculativeControl} (h : limited spec controls = u ++ v) :
    WithinLimit spec (u ++ v).length ∧ ∃ w, controls = u ++ w := by
  refine ⟨h ▸ within_limited controls, ?_⟩
  rw [limited] at h
  split at h
  · exact ⟨v, h⟩
  · refine ⟨v ++ controls.drop spec.maxControlIterations.toNat, ?_⟩
    rw [← List.append_assoc, ← h, List.take_append_drop]

/-- Two records of a sample that are kept, the later within the limit, are replayed with
what is kept between them. -/
theorem pair_replayed (earlier later : List (UInt32 × List SpeculativeControl)) (id : UInt32)
    (pre mid post : List SpeculativeControl) {a b : SpeculativeControl} (ha : kept spec a = true)
    (hb : kept spec b = true)
    (hlimit : WithinLimit spec (keptCount spec earlier + (pre.filter (kept spec)).length +
      (mid.filter (kept spec)).length + 2)) :
    ∃ before after,
      limited spec ((earlier ++ (id, pre ++ a :: mid ++ b :: post) :: later).flatMap (labelled spec)) =
        before ++ a.inSample id :: labelled spec (id, mid) ++ b.inSample id :: after := by
  have hsplit : (earlier ++ (id, pre ++ a :: mid ++ b :: post) :: later).flatMap (labelled spec) =
      (earlier.flatMap (labelled spec) ++ labelled spec (id, pre) ++
        a.inSample id :: labelled spec (id, mid) ++ [b.inSample id]) ++
        (labelled spec (id, post) ++ later.flatMap (labelled spec)) := by
    simp [labelled, ha, hb]
  have hprefix : WithinLimit spec (earlier.flatMap (labelled spec) ++ labelled spec (id, pre) ++
      a.inSample id :: labelled spec (id, mid) ++ [b.inSample id]).length := by
    refine hlimit.imp_right fun hle => le_trans (le_of_eq ?_) hle
    simp [labelled, keptCount]
    omega
  obtain ⟨v, hv⟩ := limited_prefix hprefix
  rw [hsplit, hv]
  exact ⟨earlier.flatMap (labelled spec) ++ labelled spec (id, pre), v, by simp⟩

/-- Two replayed records with one sample's label are two kept records of that sample, the
later within the limit. -/
theorem replayed_pair {samples : List (List SpeculativeControl)}
    {before y after : List SpeculativeControl} {a b : SpeculativeControl}
    (h : limited spec ((replayedSamples spec samples).flatMap (labelled spec)) =
      before ++ a :: y ++ b :: after) (hab : a.sampleIndex = b.sampleIndex) :
    ∃ earlier e later pre a' mid b' post,
      replayedSamples spec samples = earlier ++ e :: later ∧ e.2 = pre ++ a' :: mid ++ b' :: post ∧
      a = a'.inSample e.1 ∧ b = b'.inSample e.1 ∧ kept spec a' = true ∧ kept spec b' = true ∧
      (mid.filter (kept spec)).length = y.length ∧
      WithinLimit spec (keptCount spec earlier + (pre.filter (kept spec)).length + y.length + 2) := by
  have hpair : limited spec ((replayedSamples spec samples).flatMap (labelled spec)) =
      (before ++ a :: y ++ [b]) ++ after := by rw [h]; simp
  obtain ⟨hwithin, w, hw⟩ := limited_split hpair
  have hreplay : (replayedSamples spec samples).flatMap (labelled spec) =
      before ++ a :: y ++ b :: w := by rw [hw]; simp
  obtain ⟨earlier, e, later, u, v, hsel, rfl, he⟩ :=
    flatMap_pair (replayedSamples_nodup samples) hreplay hab
  rw [List.append_assoc, List.cons_append] at he
  obtain ⟨u, fromA, hfilter, rfl, hfromA⟩ := List.map_eq_append_iff.mp he
  obtain ⟨a', fromA', rfl, rfl, hfromA'⟩ := List.map_eq_cons_iff.mp hfromA
  obtain ⟨y, fromB, rfl, rfl, hfromB⟩ := List.map_eq_append_iff.mp hfromA'
  obtain ⟨b', rest, rfl, rfl, -⟩ := List.map_eq_cons_iff.mp hfromB
  rw [← List.cons_append, ← List.append_assoc] at hfilter
  obtain ⟨pre, mid, post, hsample, rfl, rfl, ha, hb⟩ := filter_pair hfilter
  refine ⟨earlier, e, later, pre, a', mid, b', post, hsel, hsample, rfl, rfl, ha, hb,
    by simp, hwithin.imp_right fun hle => le_trans ?_ hle⟩
  simp [keptCount]
  omega

/-- The replayed schedule is cache-continuous exactly when the gaps the warm-up filter
leaves are closed. -/
theorem continuous_iff_gapsClosed {lines : List Line} {samples : List (List SpeculativeControl)}
    {controls : List SpeculativeControl} (hsamples : preparedSamples spec lines = .ok samples)
    (hload : loadSpeculativeControlTrace spec lines = .ok controls) :
    CacheContinuous controls ↔ GapsClosed spec samples := by
  obtain ⟨samples', hprep, hcheck, rfl⟩ := load_ok hload
  cases hsamples.symm.trans hprep
  constructor
  · intro hcont earlier id sample later hsel pre a mid b post hsample _ hmid ha hb hlimit hva hvb
    have hnone : mid.filter (kept spec) = [] := by
      simpa [List.filter_eq_nil_iff] using hmid
    obtain ⟨before, after, hreplay⟩ := pair_replayed earlier later id pre mid post ha hb
      (by simpa [hnone] using hlimit)
    rw [hsel, hsample, hreplay] at hcont
    exact hcont before (a.inSample id) (b.inSample id) after (by simp [labelled, hnone]) rfl hva hvb
  · intro hgaps before a b after hcontrols hid hva hvb
    obtain ⟨earlier, e, later, pre, a', mid, b', post, hsel, hsample, rfl, rfl, ha, hb, hnone, hlimit⟩ :=
      replayed_pair (y := []) (by simpa using hcontrols) hid
    have hmid : ∀ dropped ∈ mid, kept spec dropped = false := by
      simpa [List.filter_eq_nil_iff] using List.length_eq_zero_iff.mp hnone
    have hcontinues : Continues a' b' := by
      by_cases hnext : mid = []
      · have hmem : e ∈ replayedSamples spec samples := by rw [hsel]; simp
        have hneighbours : e.2 = pre ++ a' :: b' :: post := by rw [hsample, hnext]; simp
        exact checkSample_continues (hcheck _ (mem_replayedSamples hmem)) hneighbours hva hvb
      · exact hgaps earlier e.1 e.2 later hsel pre a' mid b' post hsample hnext hmid ha hb
          (by simpa using hlimit) hva hvb
    exact hcontinues

/-- A record of trace version 2 that decodes one token on warm caches. -/
def warmRecord (iteration cache after : Int) : Line :=
  .value (.obj [("iteration", .int iteration), ("trace_version", .int 2), ("gamma", .int 1),
    ("prefix_len_before", .int (cache + 1)), ("prefix_len_after", .int after),
    ("target_input_tokens", .int (cache + 1)), ("target_kv_cache_tokens", .int cache),
    ("target_uncached_query_tokens", .int 1), ("target_kv_write_tokens", .int 1),
    ("draft_input_tokens", .int (cache + 1)), ("draft_kv_cache_tokens", .int cache),
    ("draft_uncached_query_tokens", .int 1), ("draft_forward_steps", .int 1),
    ("draft_decoder_tokens", .int 1), ("draft_kv_write_tokens", .int 1),
    ("target_kv_cache_tokens_after_forward", .int (cache + 1)),
    ("draft_kv_cache_tokens_after_forward", .int (cache + 1)),
    ("target_kv_cache_tokens_after_decision", .int after),
    ("draft_kv_cache_tokens_after_decision", .int after)])

/-- Records 5, 1 and 6, each starting where the last ended. -/
def outOfOrder : List Line := [warmRecord 5 10 11, warmRecord 1 11 12, warmRecord 6 12 13]

/-- Without a warm-up nothing is dropped, so there is no gap. -/
theorem continuous_iff_gapsClosed_outOfOrder :
    ∃ controls, loadSpeculativeControlTrace {} outOfOrder = .ok controls ∧ controls.length = 3 ∧
      CacheContinuous controls := by
  obtain ⟨samples, controls, hprep, hload, hlength⟩ : ∃ samples controls,
      preparedSamples {} outOfOrder = .ok samples ∧
      loadSpeculativeControlTrace {} outOfOrder = .ok controls ∧ controls.length = 3 :=
    ⟨_, _, rfl, rfl, rfl⟩
  refine ⟨controls, hload, hlength, (continuous_iff_gapsClosed hprep hload).mpr ?_⟩
  intro earlier id sample later _ pre a mid b post _ hne hmid
  obtain ⟨dropped, rest, rfl⟩ := List.exists_cons_of_ne_nil hne
  have hkept : kept {} dropped = true := by simp [kept]
  rw [hmid dropped (by simp)] at hkept
  cases hkept

/-- With three warm-up iterations record 1 is dropped, and record 6 follows record 5
with a cache of 12 tokens where the decision left 11. -/
theorem gap_replayed :
    ∃ controls, loadSpeculativeControlTrace {skipWarmupIterations := 3} outOfOrder = .ok controls ∧
      ¬CacheContinuous controls := by
  refine ⟨_, rfl, fun hcont => ?_⟩
  have hfit := hcont [] _ _ [] rfl rfl (by decide) (by decide)
  exact absurd hfit (by decide)

end Hsim.TraceGenerator
