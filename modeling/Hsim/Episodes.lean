import Hsim.Labels
import Hsim.Metrics
import Hsim.TraceContinuity

/-! One episode for each stage.

The ledger files an episode under the stage's name and ignores a second launch
under a name it knows. The host names a stage by the position of its sample and
the record's own iteration number, and nothing in the loader keeps two records of
a sample from having the same one. -/
namespace Hsim.Metrics

/-- The names of the recorded episodes, in the order of their launch. -/
def State.episodeIds (s : State) : List String := s.parallelEpisodes.map (·.id)

/-- The index finds every episode at its place, and nothing else. -/
def Filed (s : State) : Prop :=
  ∀ id i, s.parallelEpisodeIndex.lookup id = some i ↔ s.episodeIds[i]? = some id

/-- The launches among the ledger's calls. -/
def begun (calls : List Call) : List String :=
  calls.filterMap fun
    | .beginEpisode id _ => some id
    | _ => none

theorem begun_append (a b : List Call) : begun (a ++ b) = begun a ++ begun b := List.filterMap_append

/-- Two ledgers with the same episodes. -/
def SameEpisodes (s s' : State) : Prop :=
  s'.parallelEpisodes = s.parallelEpisodes ∧ s'.parallelEpisodeIndex = s.parallelEpisodeIndex

theorem setDevice_sameEpisodes (s : State) (d : Device) (stats : DeviceStats) :
    SameEpisodes s (s.setDevice d stats) := by
  cases d <;> exact ⟨rfl, rfl⟩

/-- Two ledgers with the same timelines of the PIM. -/
def SameTimelines (s s' : State) : Prop :=
  s'.pimComputeIntervals = s.pimComputeIntervals ∧
    s'.pimDraftComputeIntervals = s.pimDraftComputeIntervals

theorem setDevice_sameTimelines (s : State) (d : Device) (stats : DeviceStats) :
    SameTimelines s (s.setDevice d stats) := by
  cases d <;> exact ⟨rfl, rfl⟩

/-- A call that neither completes a request nor names an episode. -/
theorem apply_elsewhere (s : State) (call : Call) (hc : ∀ d t finish, call ≠ .completed d t finish)
    (hb : ∀ id t, call ≠ .beginEpisode id t) (hn : ∀ id t, call ≠ .npuEpisode id t)
    (hp : ∀ id t, call ≠ .pimEpisode id t) :
    SameEpisodes s (apply s call) ∧ SameTimelines s (apply s call) := by
  have hsame : SameEpisodes s s ∧ SameTimelines s s := ⟨⟨rfl, rfl⟩, rfl, rfl⟩
  cases call with
  | completed device t finish => exact absurd rfl (hc device t finish)
  | beginEpisode id t => exact absurd rfl (hb id t)
  | npuEpisode id t => exact absurd rfl (hn id t)
  | pimEpisode id t => exact absurd rfl (hp id t)
  | arrived device t bytes pimCompute now =>
    simp only [apply, requestArrived]
    split
    · exact hsame
    · split <;> exact hsame
  | started device t start channel =>
    simp only [apply, requestStarted]
    split
    · exact hsame
    · split
      · exact hsame
      · exact ⟨setDevice_sameEpisodes s device _, setDevice_sameTimelines s device _⟩
  | stall start finish draftCompute =>
    simp only [apply, recordPimResourceStall]
    split
    · exact hsame
    · split <;> exact hsame
  | npuInterval start finish =>
    simp only [apply, recordNpuInterval]
    split <;> exact hsame
  | npuComputeInterval start finish =>
    simp only [apply, recordNpuComputeInterval]
    split <;> exact hsame

/-- A call about requests or intervals leaves the episodes alone. -/
theorem apply_sameEpisodes (s : State) (call : Call) (hb : ∀ id t, call ≠ .beginEpisode id t)
    (hn : ∀ id t, call ≠ .npuEpisode id t) (hp : ∀ id t, call ≠ .pimEpisode id t) :
    SameEpisodes s (apply s call) := by
  cases call with
  | completed device t finish =>
    simp only [apply, requestCompleted]
    split
    · exact ⟨rfl, rfl⟩
    · split
      · exact ⟨rfl, rfl⟩
      · split <;> exact setDevice_sameEpisodes (s.setRequests _) device _
  | _ => exact (apply_elsewhere s _ (by simp) hb hn hp).1

/-- A completion keeps the names and the index. -/
theorem completeEpisode_ids (set : ParallelEpisode → Int → ParallelEpisode)
    (hset : ∀ e t, (set e t).id = e.id) (s : State) (id : String) (finish : Time) :
    (completeEpisode set s id finish).episodeIds = s.episodeIds ∧
      (completeEpisode set s id finish).parallelEpisodeIndex = s.parallelEpisodeIndex := by
  unfold completeEpisode
  split
  · exact ⟨rfl, rfl⟩
  · next index _ =>
    refine ⟨List.ext_getElem? fun i => ?_, rfl⟩
    simp only [State.episodeIds, List.getElem?_map, List.getElem?_modify]
    by_cases hi : index = i
    · cases s.parallelEpisodes[i]? <;> simp [hi, hset]
    · simp [hi]

/-- Only a launch adds a name. -/
theorem apply_ids (s : State) (call : Call) (hb : ∀ id t, call ≠ .beginEpisode id t) :
    (apply s call).episodeIds = s.episodeIds ∧
      (apply s call).parallelEpisodeIndex = s.parallelEpisodeIndex := by
  by_cases hn : ∃ id t, call = .npuEpisode id t
  · obtain ⟨id, t, rfl⟩ := hn
    exact completeEpisode_ids (fun e t => {e with npuEndNs := t}) (fun _ _ => rfl) s id t
  · by_cases hp : ∃ id t, call = .pimEpisode id t
    · obtain ⟨id, t, rfl⟩ := hp
      exact completeEpisode_ids (fun e t => {e with pimEndNs := t}) (fun _ _ => rfl) s id t
    · push Not at hn hp
      obtain ⟨hepisodes, hindex⟩ := apply_sameEpisodes s call hb hn hp
      exact ⟨by rw [State.episodeIds, State.episodeIds, hepisodes], hindex⟩

theorem Filed.congr {s s' : State} (h : Filed s) (hids : s'.episodeIds = s.episodeIds)
    (hindex : s'.parallelEpisodeIndex = s.parallelEpisodeIndex) : Filed s' := by
  intro id i
  rw [hids, hindex]
  exact h id i

/-- A launch under a new name adds one episode at the end. -/
theorem beginParallelEpisode_new {s : State} (h : Filed s) {id : String} (hid : id ≠ "")
    (hnew : id ∉ s.episodeIds) (launch : Time) :
    (beginParallelEpisode s id launch).episodeIds = s.episodeIds ++ [id] ∧
      Filed (beginParallelEpisode s id launch) := by
  have hnone : s.parallelEpisodeIndex.lookup id = none := by
    cases hl : s.parallelEpisodeIndex.lookup id with
    | none => rfl
    | some i => exact absurd (List.mem_of_getElem? ((h id i).mp hl)) hnew
  have heq : beginParallelEpisode s id launch = {s with
      parallelEpisodeIndex := s.parallelEpisodeIndex.insert id s.parallelEpisodes.length
      parallelEpisodes := s.parallelEpisodes ++ [{id := id, launchNs := toNs launch}]} := by
    rw [beginParallelEpisode, if_neg (by simp [hid, hnone])]
  have hids : (beginParallelEpisode s id launch).episodeIds = s.episodeIds ++ [id] := by
    rw [heq, State.episodeIds, List.map_append]
    rfl
  refine ⟨hids, fun id' i => ?_⟩
  rw [hids, heq]
  have hlen : s.parallelEpisodes.length = s.episodeIds.length := by simp [State.episodeIds]
  by_cases heq' : id' = id
  · subst heq'
    rw [AList.lookup_insert, hlen]
    constructor
    · rintro ⟨⟩
      simp
    · intro hi
      rcases Nat.lt_or_ge i s.episodeIds.length with hlt | hge
      · rw [List.getElem?_append_left hlt] at hi
        exact absurd (List.mem_of_getElem? hi) hnew
      · have hone := (List.getElem?_eq_some_iff.mp hi).1
        rw [List.length_append, List.length_singleton] at hone
        exact congrArg some (by omega)
  · rw [AList.lookup_insert_ne heq', h id' i]
    rcases Nat.lt_or_ge i s.episodeIds.length with hlt | hge
    · rw [List.getElem?_append_left hlt]
    · rw [List.getElem?_append_right hge, List.getElem?_eq_none hge]
      constructor
      · rintro ⟨⟩
      · intro hi
        exact absurd (List.mem_singleton.mp (List.mem_of_getElem? hi)) heq'

/-- Launches under names of their own are recorded one by one, whatever else is reported
in between. -/
theorem applyAll_ids {s : State} (h : Filed s) {calls : List Call} (hne : "" ∉ begun calls)
    (hnodup : (s.episodeIds ++ begun calls).Nodup) :
    (applyAll s calls).episodeIds = s.episodeIds ++ begun calls ∧ Filed (applyAll s calls) := by
  induction calls generalizing s with
  | nil => exact ⟨by simp [applyAll, begun], h⟩
  | cons call calls ih =>
    by_cases hb : ∃ id t, call = .beginEpisode id t
    · obtain ⟨id, t, rfl⟩ := hb
      have hbegun : begun (.beginEpisode id t :: calls) = id :: begun calls := rfl
      rw [hbegun] at hne hnodup ⊢
      rw [List.mem_cons, not_or] at hne
      have hnew : id ∉ s.episodeIds := fun hmem =>
        (List.nodup_append.mp hnodup).2.2 id hmem id (List.mem_cons_self ..) rfl
      obtain ⟨hids, hfiled⟩ := beginParallelEpisode_new h (Ne.symm hne.1) hnew t
      have hrest := ih hfiled hne.2 (by simpa [hids] using hnodup)
      rw [hids, List.append_assoc, List.singleton_append] at hrest
      exact hrest
    · push Not at hb
      obtain ⟨hids, hindex⟩ := apply_ids s call hb
      have hbegun : begun (call :: calls) = begun calls := by
        cases call with
        | beginEpisode id t => exact absurd rfl (hb id t)
        | _ => rfl
      rw [hbegun] at hne hnodup ⊢
      have hrest := ih (h.congr hids hindex) hne (by rwa [hids])
      rw [hids] at hrest
      exact hrest

/-- A ledger without episodes. -/
structure Unlaunched (s : State) : Prop where
  episodes : s.parallelEpisodes = []
  index : s.parallelEpisodeIndex = ∅

theorem Unlaunched.ids {s : State} (h : Unlaunched s) : s.episodeIds = [] := by
  rw [State.episodeIds, h.episodes]
  rfl

theorem Unlaunched.filed {s : State} (h : Unlaunched s) : Filed s := by
  intro id i
  rw [h.index, h.ids]
  simp

/-- One episode for each launch. -/
theorem Unlaunched.launched {s : State} (h : Unlaunched s) {calls : List Call} (hne : "" ∉ begun calls)
    (hnodup : (begun calls).Nodup) :
    (applyAll s calls).episodeIds = begun calls ∧ Filed (applyAll s calls) := by
  have hall := applyAll_ids h.filed hne (by rwa [h.ids])
  rwa [h.ids, List.nil_append] at hall

/-- The ledger with a change to one episode. -/
def State.editEpisode (s : State) (i : Nat) (f : ParallelEpisode → ParallelEpisode) : State :=
  {s with parallelEpisodes := s.parallelEpisodes.modify i f}

/-- A completion reaches the episode of its name and no other. -/
theorem completeEpisode_at {set : ParallelEpisode → Int → ParallelEpisode} {s : State} (h : Filed s)
    {id : String} {i : Nat} (hi : s.episodeIds[i]? = some id) (finish : Time) :
    completeEpisode set s id finish =
      s.editEpisode i fun e => set e (max e.launchNs (toNs finish)) := by
  rw [completeEpisode, (h id i).mpr hi]
  rfl

end Hsim.Metrics

namespace Hsim.TraceGenerator

open Host (samplePrefix)

/-! ### The stages of a replay -/

/-- However far the host has come with launching these records in order, and whatever else
was reported, the ledger has one episode for each launch; and a completion that names a
launched record sets a time of that record's episode only. -/
def OneEpisodeEach (controls : List SpeculativeControl) : Prop :=
  ∀ (ledger : Metrics.State) (calls : List Metrics.Call), ledger.parallelEpisodes = [] →
    ledger.parallelEpisodeIndex = ∅ → Metrics.begun calls <+: controls.map samplePrefix →
    let s := Metrics.applyAll ledger calls
    s.episodeIds = Metrics.begun calls ∧
      ∀ i id, (Metrics.begun calls)[i]? = some id → ∀ finish,
        Metrics.completeParallelNpuEpisode s id finish =
          s.editEpisode i (fun e => {e with npuEndNs := max e.launchNs (toNs finish)}) ∧
        Metrics.completeParallelPimEpisode s id finish =
          s.editEpisode i (fun e => {e with pimEndNs := max e.launchNs (toNs finish)})

/-- Every stage is an episode of its own. -/
def SeparateEpisodes (controls : List SpeculativeControl) : Prop :=
  (controls.map samplePrefix).Nodup ∧ OneEpisodeEach controls

theorem samplePrefix_ne_empty (control : SpeculativeControl) : samplePrefix control ≠ "" := by
  intro h
  have hchars := congrArg String.toList h
  rw [Host.samplePrefix_toList] at hchars
  simp at hchars

theorem oneEpisodeEach_of_nodup {controls : List SpeculativeControl}
    (h : (controls.map samplePrefix).Nodup) : OneEpisodeEach controls := by
  intro ledger calls hepisodes hindex hcalls s
  have hledger : Metrics.Unlaunched ledger := ⟨hepisodes, hindex⟩
  have hne : "" ∉ Metrics.begun calls := by
    intro hmem
    obtain ⟨control, -, hcontrol⟩ := List.mem_map.mp (hcalls.subset hmem)
    exact samplePrefix_ne_empty control hcontrol
  obtain ⟨hrecorded, hfiled⟩ := hledger.launched hne (h.sublist hcalls.sublist)
  refine ⟨hrecorded, fun i id hi finish => ?_⟩
  rw [← hrecorded] at hi
  exact ⟨Metrics.completeEpisode_at hfiled hi finish, Metrics.completeEpisode_at hfiled hi finish⟩

/-- No two replayed records of a sample have the same iteration number: of two records
that are kept, the later within the limit, the later has another number. -/
def DistinctIterations (spec : SpeculativeInfo) (samples : List (List SpeculativeControl)) : Prop :=
  ∀ earlier id sample later, replayedSamples spec samples = earlier ++ (id, sample) :: later →
    ∀ pre a mid b post, sample = pre ++ a :: mid ++ b :: post → kept spec a = true →
    kept spec b = true →
    WithinLimit spec (keptCount spec earlier + (pre.filter (kept spec)).length +
      (mid.filter (kept spec)).length + 2) → a.iteration ≠ b.iteration

/-- A list in which some value of `f` occurs twice. -/
theorem exists_pair_of_not_nodup {α β : Type} {f : α → β} {xs : List α} (h : ¬(xs.map f).Nodup) :
    ∃ u a y b v, xs = u ++ a :: y ++ b :: v ∧ f a = f b := by
  induction xs with
  | nil => exact absurd List.nodup_nil h
  | cons x xs ih =>
    rw [List.map_cons, List.nodup_cons, not_and_or, not_not] at h
    rcases h with hmem | hrest
    · obtain ⟨b, hb, hfb⟩ := List.mem_map.mp hmem
      obtain ⟨y, v, rfl⟩ := List.append_of_mem hb
      exact ⟨[], x, y, b, v, rfl, hfb.symm⟩
    · obtain ⟨u, a, y, b, v, rfl, hab⟩ := ih hrest
      exact ⟨x :: u, a, y, b, v, rfl, hab⟩

/-- The stages of a replay are separate episodes exactly when no sample replays an
iteration number twice. -/
theorem separateEpisodes_iff_distinctIterations {spec : SpeculativeInfo} {lines : List Line}
    {samples : List (List SpeculativeControl)} {controls : List SpeculativeControl}
    (hsamples : preparedSamples spec lines = .ok samples)
    (hload : loadSpeculativeControlTrace spec lines = .ok controls) :
    SeparateEpisodes controls ↔ DistinctIterations spec samples := by
  obtain ⟨samples', hprep, -, rfl⟩ := load_ok hload
  cases hsamples.symm.trans hprep
  constructor
  · rintro ⟨hnodup, -⟩ earlier id sample later hsel pre a mid b post hsample ha hb hlimit hiter
    obtain ⟨before, after, hreplay⟩ := pair_replayed earlier later id pre mid post ha hb hlimit
    rw [hsel, hsample, hreplay] at hnodup
    have hname : samplePrefix (a.inSample id) = samplePrefix (b.inSample id) :=
      Host.samplePrefix_inj.mpr ⟨rfl, hiter⟩
    simp [hname, List.nodup_append] at hnodup
  · intro hdistinct
    have hnodup : ((limited spec ((replayedSamples spec samples).flatMap (labelled spec))).map
        samplePrefix).Nodup := by
      by_contra hdup
      obtain ⟨before, a, y, b, after, hreplay, hname⟩ := exists_pair_of_not_nodup hdup
      obtain ⟨hindex, hiter⟩ := Host.samplePrefix_inj.mp hname
      obtain ⟨earlier, e, later, pre, a', mid, b', post, hsel, hsample, rfl, rfl, ha, hb, hmid, hlimit⟩ :=
        replayed_pair hreplay hindex
      exact hdistinct earlier e.1 e.2 later hsel pre a' mid b' post hsample ha hb (by rwa [hmid]) hiter
    exact ⟨hnodup, oneEpisodeEach_of_nodup hnodup⟩

/-- It is enough that the iteration numbers of each replayed sample are distinct. -/
theorem distinctIterations_of_nodup {spec : SpeculativeInfo} {samples : List (List SpeculativeControl)}
    (h : ∀ e ∈ replayedSamples spec samples, (e.2.map (·.iteration)).Nodup) :
    DistinctIterations spec samples := by
  intro earlier id sample later hsel pre a mid b post hsample _ _ _ hiter
  have hnodup := h (id, sample) (by rw [hsel]; simp)
  rw [hsample] at hnodup
  simp [hiter, List.nodup_append] at hnodup

/-- Three records with three iteration numbers. -/
theorem separateEpisodes_outOfOrder :
    ∃ controls, loadSpeculativeControlTrace {} outOfOrder = .ok controls ∧ controls.length = 3 ∧
      SeparateEpisodes controls := by
  obtain ⟨samples, controls, hprep, hload, hlength⟩ : ∃ samples controls,
      preparedSamples {} outOfOrder = .ok samples ∧
      loadSpeculativeControlTrace {} outOfOrder = .ok controls ∧ controls.length = 3 :=
    ⟨_, _, rfl, rfl, rfl⟩
  refine ⟨controls, hload, hlength, (separateEpisodes_iff_distinctIterations hprep hload).mpr ?_⟩
  apply distinctIterations_of_nodup
  cases hprep.symm.trans (show preparedSamples {} outOfOrder = .ok _ from rfl)
  decide +kernel

/-- Two records of one sample with iteration 1, the second where the first ended. -/
def repeatedIteration : List Line := [warmRecord 1 10 11, warmRecord 1 11 12]

/-- Both records are replayed under the name of the first, and the ledger has one episode
for the two. -/
theorem repeated_iteration_merged :
    ∃ a b, loadSpeculativeControlTrace {} repeatedIteration = .ok [a, b] ∧
      samplePrefix a = samplePrefix b ∧
      (Metrics.applyAll {} [.beginEpisode (samplePrefix a) 0,
        .beginEpisode (samplePrefix b) 100]).parallelEpisodes.length = 1 := by
  refine ⟨_, _, rfl, rfl, ?_⟩
  decide +kernel

end Hsim.TraceGenerator
