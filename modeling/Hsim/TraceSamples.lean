import Hsim.Lib.Runs
import Hsim.TraceContinuity

/-! Samples.

The loader groups the control records of a file into samples while it reads them,
by the sample id the records carry or, where they carry none, by an iteration
number of zero. It then replays the records of the samples asked for, up to a
limit that all samples share. -/
namespace Hsim.TraceGenerator

/-! ### Grouping -/

/-- A control record with its sample id if it has one. -/
abbrev Record := SpeculativeControl × Option UInt64

/-- What a line holds for the replay. -/
def readRecord : Nat × Line → Except String (Option Record)
  | (_, .empty) => .ok none
  | (lineNo, .malformed) =>
    .error ("Invalid JSON in speculative control trace line " ++ toString lineNo)
  | (lineNo, .value root) => readControl lineNo root

/-- The control records of a file in order, other events left out. -/
def controlRecords (lines : List Line) : Except String (List Record) := do
  return (← (lines.zipIdx 1 |>.map fun e => (e.2, e.1)).mapM readRecord).reduceOption

def Grouping.addRecord (g : Grouping) (r : Record) : Grouping := g.add r.1 r.2

theorem readLine_eq (g : Grouping) (e : Nat × Line) :
    readLine g e = (readRecord e).map fun r => r.elim g g.addRecord := by
  obtain ⟨lineNo, line⟩ := e
  cases line with
  | empty => rfl
  | malformed => rfl
  | value root =>
    rw [readLine, readRecord]
    cases readControl lineNo root with
    | error message => rfl
    | ok r => cases r <;> rfl

/-- Reading is grouping the records. -/
theorem foldlM_readLine (lines : List (Nat × Line)) (g : Grouping) :
    lines.foldlM readLine g =
      (lines.mapM readRecord).map fun found => found.reduceOption.foldl Grouping.addRecord g := by
  induction lines generalizing g with
  | nil => rfl
  | cons e rest ih =>
    rw [List.foldlM_cons, List.mapM_cons, readLine_eq]
    cases readRecord e with
    | error message => rfl
    | ok r =>
      show rest.foldlM readLine (r.elim g g.addRecord) = _
      rw [ih]
      cases rest.mapM readRecord with
      | error message => rfl
      | ok found => cases r <;> rfl

theorem readSamples_eq (lines : List Line) :
    readSamples lines =
      (controlRecords lines).map fun records => (records.foldl Grouping.addRecord {}).finish := by
  rw [readSamples, controlRecords, foldlM_readLine]
  cases (lines.zipIdx 1 |>.map fun e => (e.2, e.1)).mapM readRecord <;> rfl

/-- The grouping against the records themselves: the sample being read has the id of its
first record. -/
structure Tracks (g : Grouping) (x : Lib.Runs Record) : Prop where
  samples : g.samples = x.closed.map (·.map Prod.fst)
  current : g.currentSample = x.current.map Prod.fst
  id : ∀ first ∈ x.current.head?, g.currentId = first.2

section
variable {g : Grouping} {x : Lib.Runs Record} {records : List Record}

theorem Tracks.add (h : Tracks g x) (r : Record) :
    Tracks (g.addRecord r) (x.push (g.startsNewSample r.1 r.2) r) := by
  unfold Grouping.addRecord Grouping.add Lib.Runs.push
  split
  · exact ⟨by simp [h.samples, h.current], rfl, by simp⟩
  · refine ⟨h.samples, by simp [h.current], ?_⟩
    intro first hfirst
    cases hx : x.current with
    | nil =>
      have hempty : g.currentSample = [] := by rw [h.current, hx]; rfl
      simp only [hx, List.nil_append, List.head?_cons, Option.mem_some_iff] at hfirst
      simp [hempty, hfirst]
    | cons b rest =>
      have hne : g.currentSample ≠ [] := by simp [h.current, hx]
      simp only [hx, List.cons_append, List.head?_cons, Option.mem_some_iff] at hfirst
      simp only [hne, if_false]
      exact h.id first (by rw [hx, ← hfirst]; rfl)

/-- Only a sample that has begun is closed. -/
theorem Tracks.cut (h : Tracks g x) {r : Record} (hcut : g.startsNewSample r.1 r.2 = true) :
    x.current ≠ [] := by
  intro hempty
  have hsample : g.currentSample = [] := by rw [h.current, hempty]; rfl
  unfold Grouping.startsNewSample at hcut
  split at hcut <;> simp [hsample] at hcut

theorem Tracks.finish (h : Tracks g x) : g.finish = x.all.map (·.map Prod.fst) := by
  rw [Grouping.finish, Lib.Runs.all, h.samples, h.current]
  cases x.current <;> simp

/-- The records of a file, with the cuts the loader makes. -/
theorem tracked (records : List Record) :
    ∃ x, Tracks (records.foldl Grouping.addRecord {}) x ∧ x.Holds records := by
  induction records using List.reverseRecOn with
  | nil => exact ⟨{}, ⟨rfl, rfl, by simp⟩, Lib.Runs.holds_empty⟩
  | append_singleton earlier r ih =>
    obtain ⟨x, htracks, hholds⟩ := ih
    rw [List.foldl_append]
    exact ⟨_, htracks.add r, hholds.push htracks.cut⟩

/-- A relation says where the loader cuts before records of a kind. -/
def CutsAt (rel : Record → Record → Bool) (P : Record → Prop) : Prop :=
  ∀ (g : Grouping) (x : Lib.Runs Record) (a : Record), P a → Tracks g x → x.Splits rel →
    ∀ b ∈ x.current.getLast?, g.startsNewSample a.1 a.2 = !rel b a

theorem tracked_splits {rel : Record → Record → Bool} {P : Record → Prop} (hcut : CutsAt rel P)
    (hP : ∀ r ∈ records, P r) :
    ∃ x, Tracks (records.foldl Grouping.addRecord {}) x ∧ x.Holds records ∧ x.Splits rel := by
  induction records using List.reverseRecOn with
  | nil => exact ⟨{}, ⟨rfl, rfl, by simp⟩, Lib.Runs.holds_empty, Lib.Runs.splits_empty⟩
  | append_singleton earlier r ih =>
    obtain ⟨x, htracks, hholds, hsplits⟩ := ih fun a ha => hP a (List.mem_append_left _ ha)
    rw [List.foldl_append]
    refine ⟨_, htracks.add r, hholds.push htracks.cut, hsplits.push hholds ?_ ?_⟩
    · intro hempty
      by_contra hcutTrue
      exact htracks.cut (by simpa using hcutTrue) hempty
    · exact hcut _ x r (hP r (by simp)) htracks hsplits

/-- Records with an id: a cut where the id changes. -/
theorem cutsAt_explicit : CutsAt (fun a b => a.2 == b.2) fun r => r.2.isSome := by
  intro g x a ha htracks hsplits b hb
  obtain ⟨id, hid⟩ := Option.isSome_iff_exists.mp ha
  cases hx : x.current with
  | nil =>
    rw [hx] at hb
    cases hb
  | cons first rest =>
    have hsample : g.currentSample ≠ [] := by simp [htracks.current, hx]
    have hfirst : g.currentId = first.2 := htracks.id first (by rw [hx]; rfl)
    have hlast : first.2 = b.2 := by
      have htrans : (fun a b : Record => (a.2 == b.2) = true) = fun a b => a.2 = b.2 := by
        funext a b
        simp
      have hchain := hsplits.current
      rw [htrans, hx, List.isChain_iff_pairwise] at hchain
      have hmem : b ∈ first :: rest := by
        rw [← hx]
        exact List.mem_of_mem_getLast? hb
      rcases List.mem_cons.mp hmem with rfl | hmem
      · rfl
      · exact (List.pairwise_cons.mp hchain).1 b hmem
    rw [hid, Grouping.startsNewSample, hfirst, hlast, ← hid]
    by_cases hsame : b.2 = a.2
    · simp [hsame]
    · simp [hsample, hsame]

/-- Records without an id: a cut before iteration 0. -/
theorem cutsAt_implicit : CutsAt (fun _ b => b.1.iteration != 0) fun r => r.2 = none := by
  intro g x a ha htracks _ b hb
  have hsample : g.currentSample ≠ [] := by
    rw [htracks.current]
    intro hempty
    rw [List.map_eq_nil_iff.mp hempty] at hb
    cases hb
  rw [ha, Grouping.startsNewSample]
  by_cases hzero : a.1.iteration = 0
  · simp [hzero, hsample]
  · simp [hzero]

end

/-- The records of a file are those of its samples, in order. -/
theorem readSamples_flatten {lines : List Line} {samples : List (List SpeculativeControl)}
    (h : readSamples lines = .ok samples) :
    ∃ records, controlRecords lines = .ok records ∧
      (records.foldl Grouping.addRecord {}).finish = samples ∧
      samples.flatten = records.map Prod.fst := by
  rw [readSamples_eq] at h
  cases hrecords : controlRecords lines with
  | error message =>
    rw [hrecords] at h
    cases h
  | ok records =>
    rw [hrecords] at h
    have hsamples : (records.foldl Grouping.addRecord {}).finish = samples := Except.ok.inj h
    obtain ⟨x, htracks, hholds⟩ := tracked records
    refine ⟨records, rfl, hsamples, ?_⟩
    rw [← hsamples, htracks.finish, ← List.map_flatten, hholds.all_flatten]

theorem readSamples_full {lines : List Line} {samples : List (List SpeculativeControl)}
    (h : readSamples lines = .ok samples) : [] ∉ samples := by
  obtain ⟨records, -, hsamples, -⟩ := readSamples_flatten h
  obtain ⟨x, htracks, hholds⟩ := tracked records
  rw [← hsamples, htracks.finish]
  intro hempty
  obtain ⟨m, hm, hnil⟩ := List.mem_map.mp hempty
  rw [List.map_eq_nil_iff.mp hnil] at hm
  exact hholds.all_full hm

/-- **The samples partition the control records.** Nothing is lost, duplicated or
reordered and no sample is empty. With an id on every record the samples are the maximal
runs of one id; with none they begin at the records of iteration 0. -/
theorem samples_partition {lines : List Line} {samples : List (List SpeculativeControl)}
    (h : readSamples lines = .ok samples) :
    ∃ records, controlRecords lines = .ok records ∧ samples.flatten = records.map Prod.fst ∧
      [] ∉ samples ∧
      ((∀ r ∈ records, r.2.isSome) →
        samples = (records.splitBy fun a b => a.2 == b.2).map (·.map Prod.fst)) ∧
      ((∀ r ∈ records, r.2 = none) →
        samples = (records.splitBy fun _ b => b.1.iteration != 0).map (·.map Prod.fst)) := by
  obtain ⟨records, hrecords, hsamples, hflatten⟩ := readSamples_flatten h
  refine ⟨records, hrecords, hflatten, readSamples_full h, fun hall => ?_, fun hall => ?_⟩
  · obtain ⟨x, htracks, hholds, hsplits⟩ := tracked_splits cutsAt_explicit hall
    rw [← hsamples, htracks.finish, hsplits.all_eq hholds]
  · obtain ⟨x, htracks, hholds, hsplits⟩ := tracked_splits cutsAt_implicit hall
    rw [← hsamples, htracks.finish, hsplits.all_eq hholds]

/-- Two samples, with an empty line between the records. -/
def legacyTrace : List Line :=
  [warmRecord 0 10 11, .empty, warmRecord 1 11 12, warmRecord 0 20 21]

theorem samples_partition_legacyTrace : ∃ samples records,
    readSamples legacyTrace = .ok samples ∧ samples.length = 2 ∧
    controlRecords legacyTrace = .ok records ∧ samples.flatten = records.map Prod.fst := by
  have hread : ((readSamples legacyTrace).toOption.map List.length) = some 2 := by decide +kernel
  cases hsamples : readSamples legacyTrace with
  | error message =>
    rw [hsamples] at hread
    cases hread
  | ok samples =>
    rw [hsamples] at hread
    obtain ⟨records, hrecords, hflatten, -⟩ := samples_partition hsamples
    exact ⟨samples, records, rfl, Option.some.inj hread, hrecords, hflatten⟩

/-! ### Selection -/

/-- The end of the loader: what is replayed of the samples. -/
def selectControls (spec : SpeculativeInfo) (samples : List (List SpeculativeControl)) :
    Except String (List SpeculativeControl) := do
  reject (0 ≤ spec.sampleIndex ∧ samples.length ≤ spec.sampleIndex.toNat)
    ("Requested speculative sample_index=" ++ toString spec.sampleIndex ++
      " but control trace contains " ++ toString samples.length ++ " sample(s)")
  let controls := selectSamples spec [] (replayedSamples spec samples)
  reject (controls = []) "No speculative control records remain after warm-up filtering."
  return controls

example (spec : SpeculativeInfo) (lines : List Line) :
    loadSpeculativeControlTrace spec lines = (do
      let samples ← preparedSamples spec lines
      for sample in samples do
        checkSample sample
      selectControls spec samples) := rfl

/-- The samples asked for, with their positions: the one at `sample_index`, or all. -/
def askedSamples (spec : SpeculativeInfo) (samples : List (List SpeculativeControl)) :
    List (UInt32 × List SpeculativeControl) :=
  let numbered := samples.zipIdx.map fun e => (UInt32.ofNat e.2, e.1)
  if spec.sampleIndex < 0 then numbered else (numbered.drop spec.sampleIndex.toNat).take 1

/-- What should be replayed: up to the limit, the records of the samples asked for that are
not in the warm-up, each with the position of its sample. -/
def selection (spec : SpeculativeInfo) (samples : List (List SpeculativeControl)) :
    List SpeculativeControl :=
  limited spec ((askedSamples spec samples).flatMap (labelled spec))

/-- The loader replays the selection, and throws where there is none. -/
structure SelectsAsked (spec : SpeculativeInfo) (samples : List (List SpeculativeControl)) : Prop where
  throws : (∃ message, selectControls spec samples = .error message) ↔
    (0 ≤ spec.sampleIndex ∧ samples.length ≤ spec.sampleIndex.toNat) ∨ selection spec samples = []
  replays : ∀ controls, selectControls spec samples = .ok controls → controls = selection spec samples

section
variable {spec : SpeculativeInfo} {samples : List (List SpeculativeControl)}

theorem selectControls_eq :
    selectControls spec samples = (do
      reject (0 ≤ spec.sampleIndex ∧ samples.length ≤ spec.sampleIndex.toNat)
        ("Requested speculative sample_index=" ++ toString spec.sampleIndex ++
          " but control trace contains " ++ toString samples.length ++ " sample(s)")
      let controls := limited spec ((replayedSamples spec samples).flatMap (labelled spec))
      reject (controls = []) "No speculative control records remain after warm-up filtering."
      return controls) := by
  rw [selectControls, selectSamples_eq _ [] (.inr (Nat.zero_le _)), List.nil_append]

/-- The loader meets the selection exactly if it replays the same records. -/
theorem selectsAsked_iff :
    SelectsAsked spec samples ↔
      (0 ≤ spec.sampleIndex ∧ samples.length ≤ spec.sampleIndex.toNat) ∨
      limited spec ((replayedSamples spec samples).flatMap (labelled spec)) = selection spec samples := by
  by_cases hmissing : 0 ≤ spec.sampleIndex ∧ samples.length ≤ spec.sampleIndex.toNat
  · have hthrows : ∃ message, selectControls spec samples = .error message := by
      rw [selectControls_eq, reject, if_pos hmissing]
      exact ⟨_, rfl⟩
    refine iff_of_true ⟨iff_of_true hthrows (.inl hmissing), fun controls hok => ?_⟩ (.inl hmissing)
    obtain ⟨message, herror⟩ := hthrows
    rw [herror] at hok
    cases hok
  · generalize hcontrols : limited spec ((replayedSamples spec samples).flatMap (labelled spec)) = controls
    by_cases hempty : controls = []
    · have hthrows : ∃ message, selectControls spec samples = .error message := by
        rw [selectControls_eq, reject, if_neg hmissing, hcontrols, hempty]
        exact ⟨_, rfl⟩
      simp only [hmissing, false_or]
      constructor
      · intro h
        have hnone := (h.throws.mp hthrows).resolve_left hmissing
        rw [hnone, hempty]
      · intro hsame
        refine ⟨iff_of_true hthrows (.inr (hsame.symm.trans hempty)), fun other hok => ?_⟩
        obtain ⟨message, herror⟩ := hthrows
        rw [herror] at hok
        cases hok
    · have hok : selectControls spec samples = .ok controls := by
        rw [selectControls_eq, reject, if_neg hmissing, hcontrols]
        show (reject (controls = []) _ >>= fun _ => _) = _
        rw [reject, if_neg hempty]
        rfl
      simp only [hmissing, false_or]
      constructor
      · exact fun h => h.replays controls hok
      · intro hsame
        refine ⟨?_, fun other hother => ?_⟩
        · simp only [hok, hmissing, false_or, ← hsame, hempty, iff_false]
          rintro ⟨message, herror⟩
          cases herror
        · rw [hok] at hother
          cases hother
          exact hsame

/-- A limit cuts nothing that follows off, unless it is reached before. -/
theorem limited_eq_append {a b : List SpeculativeControl} :
    limited spec a = limited spec (a ++ b) ↔
      b = [] ∨ spec.maxControlIterations ≠ 0 ∧ spec.maxControlIterations.toNat ≤ a.length := by
  constructor
  · intro h
    by_cases hmax : spec.maxControlIterations = 0
    · rw [limited, limited, if_pos hmax, if_pos hmax] at h
      exact .inl (List.self_eq_append_right.mp h)
    · rw [limited, limited, if_neg hmax, if_neg hmax] at h
      have hlength := congrArg List.length h
      rw [List.length_take, List.length_take, List.length_append] at hlength
      by_cases hreached : spec.maxControlIterations.toNat ≤ a.length
      · exact .inr ⟨hmax, hreached⟩
      · exact .inl (List.length_eq_zero_iff.mp (by omega))
  · rintro (rfl | ⟨hmax, hreached⟩)
    · rw [List.append_nil]
    · refine (limited_of_full ?_ b).symm
      simp [full, hmax, hreached]

/-- The records numbered samples add are those of the samples. -/
theorem length_flatMap_labelled (numbered : List (UInt32 × List SpeculativeControl)) :
    (numbered.flatMap (labelled spec)).length =
      ((numbered.map Prod.snd).flatten.filter (kept spec)).length := by
  induction numbered with
  | nil => rfl
  | cons e rest ih => simp [labelled, ih]

end

/-- **The selection, up to a count of 32 bits.** With a `sample_index` the loader replays
what was asked for. Without one it takes the number of samples modulo 2^32, and what it
replays is right exactly if the samples behind that number have nothing to add: all their
records are in the warm-up, or the limit is reached before them. -/
theorem selection_exact (spec : SpeculativeInfo) (samples : List (List SpeculativeControl)) :
    SelectsAsked spec samples ↔ 0 ≤ spec.sampleIndex ∨
      (∀ sample ∈ samples.drop (samples.length % 2 ^ 32), ∀ control ∈ sample,
        control.iteration < spec.skipWarmupIterations) ∨
      (spec.maxControlIterations ≠ 0 ∧ spec.maxControlIterations.toNat ≤
        ((samples.take (samples.length % 2 ^ 32)).flatten.filter (kept spec)).length) := by
  rw [selectsAsked_iff]
  by_cases hindex : 0 ≤ spec.sampleIndex
  · have hsame : replayedSamples spec samples = askedSamples spec samples := by
      rw [replayedSamples, askedSamples, if_neg (by omega), if_neg (by omega)]
    simp [selection, hsame, hindex]
  · have hcount : (UInt32.ofNat samples.length).toNat = samples.length % 2 ^ 32 := UInt32.toNat_ofNat'
    have hsnd : (samples.zipIdx.map fun e => (UInt32.ofNat e.2, e.1)).map Prod.snd = samples := by
      rw [List.map_map]
      exact List.zipIdx_map_fst 0 samples
    simp only [hindex, false_and, false_or, selection, replayedSamples, askedSamples,
      if_pos (not_le.mp hindex), hcount]
    generalize samples.zipIdx.map (fun e => (UInt32.ofNat e.2, e.1)) = numbered at hsnd
    generalize samples.length % 2 ^ 32 = count
    rw [← hsnd, ← List.map_take, ← List.map_drop, ← length_flatMap_labelled]
    nth_rewrite 2 [← List.take_append_drop count numbered]
    rw [List.flatMap_append, limited_eq_append]
    refine or_congr ?_ Iff.rfl
    rw [List.flatMap_eq_nil_iff]
    constructor
    · intro hnone sample hsample control hcontrol
      obtain ⟨e, he, rfl⟩ := List.mem_map.mp hsample
      have hdropped := hnone e he
      rw [labelled, List.map_eq_nil_iff, List.filter_eq_nil_iff] at hdropped
      simpa [kept] using hdropped control hcontrol
    · intro hwarm e he
      rw [labelled, List.map_eq_nil_iff, List.filter_eq_nil_iff]
      intro control hcontrol
      simpa [kept] using hwarm e.2 (List.mem_map_of_mem he) control hcontrol

/-- The sample of a file of one record. -/
def oneSample : List SpeculativeControl := ((readSamples [warmRecord 0 10 11]).toOption.getD []).flatten

/-- Of 2^32 samples none is replayed. -/
theorem not_selectsAsked_of_length {samples : List (List SpeculativeControl)}
    (hlength : samples.length = 2 ^ 32) {sample : List SpeculativeControl} (hsample : sample ∈ samples)
    (hne : sample ≠ []) : ¬ SelectsAsked {} samples := by
  intro h
  have hsame := (selectsAsked_iff.mp h).resolve_left (by simp)
  have hcount : (UInt32.ofNat samples.length).toNat = 0 := by
    rw [hlength]
    rfl
  have hasked : (askedSamples {} samples).flatMap (labelled {}) = [] := by
    rw [replayedSamples, if_pos (by decide), hcount, List.take_zero] at hsame
    exact hsame.symm
  have hsnd : (askedSamples {} samples).map Prod.snd = samples := by
    rw [askedSamples, if_pos (by decide), List.map_map]
    exact List.zipIdx_map_fst 0 samples
  rw [← hsnd] at hsample
  obtain ⟨e, he, rfl⟩ := List.mem_map.mp hsample
  have hnone := List.flatMap_eq_nil_iff.mp hasked e he
  rw [labelled, List.map_eq_nil_iff, List.filter_eq_nil_iff] at hnone
  obtain ⟨control, rest, hcons⟩ := List.exists_cons_of_ne_nil hne
  have hkept := hnone control (by rw [hcons]; exact List.mem_cons_self)
  simp [kept] at hkept

theorem selection_exact_wraps :
    ¬ ∀ (spec : SpeculativeInfo) (samples : List (List SpeculativeControl)), SelectsAsked spec samples := by
  intro hall
  have hone : oneSample.length = 1 := by decide +kernel
  have hne : oneSample ≠ [] := by
    intro hempty
    rw [hempty] at hone
    cases hone
  have hmem : oneSample ∈ List.replicate (2 ^ 32) oneSample :=
    List.mem_replicate.mpr ⟨by decide, rfl⟩
  exact not_selectsAsked_of_length List.length_replicate hmem hne (hall {} _)

end Hsim.TraceGenerator
