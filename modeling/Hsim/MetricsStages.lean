import Hsim.Episodes
import Hsim.MetricsDesk
import Hsim.MetricsIntervals

/-! The ledger's account of the stages.

A stage leaves two things in the ledger: an episode with a launch and two ends,
and an interval on the draft's timeline for every command that was served. An
end is set by a call under the episode's name, an interval by the completion of
a command whose record is open and whose label says that it is draft work. -/
namespace Hsim.Metrics

/-! ### Episodes that stay closed -/

/-- What later calls leave of an episode: an end that is set stays set. -/
structure Kept (e e' : ParallelEpisode) : Prop where
  id : e'.id = e.id
  npu : e.launchNs ≤ e.npuEndNs → e'.launchNs ≤ e'.npuEndNs
  pim : e.launchNs ≤ e.pimEndNs → e'.launchNs ≤ e'.pimEndNs

theorem Kept.refl (e : ParallelEpisode) : Kept e e := ⟨rfl, fun h => h, fun h => h⟩

theorem Kept.trans {a b c : ParallelEpisode} (h : Kept a b) (h' : Kept b c) : Kept a c :=
  ⟨h'.id.trans h.id, fun hn => h'.npu (h.npu hn), fun hp => h'.pim (h.pim hp)⟩

theorem completeEpisode_kept {set : ParallelEpisode → Int → ParallelEpisode}
    (hset : ∀ e t, e.launchNs ≤ t → Kept e (set e t)) (s : State) (id : String) (finish : Time)
    {i : Nat} {e : ParallelEpisode} (h : s.parallelEpisodes[i]? = some e) :
    ∃ e', (completeEpisode set s id finish).parallelEpisodes[i]? = some e' ∧ Kept e e' := by
  unfold completeEpisode
  split
  · exact ⟨e, h, .refl e⟩
  · next index _ =>
    simp only [List.getElem?_modify, h, Option.map_eq_map, Option.map_some]
    by_cases hi : index = i
    · exact ⟨_, by rw [if_pos hi], hset e _ (le_max_left _ _)⟩
    · exact ⟨e, by rw [if_neg hi], .refl e⟩

theorem apply_kept (s : State) (call : Call) {i : Nat} {e : ParallelEpisode}
    (h : s.parallelEpisodes[i]? = some e) :
    ∃ e', (apply s call).parallelEpisodes[i]? = some e' ∧ Kept e e' := by
  by_cases hb : ∃ id launch, call = .beginEpisode id launch
  · obtain ⟨id, launch, rfl⟩ := hb
    refine ⟨e, ?_, .refl e⟩
    simp only [apply, beginParallelEpisode]
    split
    · exact h
    · rw [List.getElem?_append_left (List.getElem?_eq_some_iff.mp h).1]
      exact h
  by_cases hn : ∃ id finish, call = .npuEpisode id finish
  · obtain ⟨id, finish, rfl⟩ := hn
    refine completeEpisode_kept (fun e t ht => ?_) s id finish h
    exact ⟨rfl, fun _ => ht, fun hp => hp⟩
  by_cases hp : ∃ id finish, call = .pimEpisode id finish
  · obtain ⟨id, finish, rfl⟩ := hp
    refine completeEpisode_kept (fun e t ht => ?_) s id finish h
    exact ⟨rfl, fun hn => hn, fun _ => ht⟩
  push Not at hb hn hp
  obtain ⟨hepisodes, -⟩ := apply_sameEpisodes s call hb hn hp
  exact ⟨e, by rw [hepisodes]; exact h, .refl e⟩

theorem applyAll_kept (s : State) (calls : List Call) {i : Nat} {e : ParallelEpisode}
    (h : s.parallelEpisodes[i]? = some e) :
    ∃ e', (applyAll s calls).parallelEpisodes[i]? = some e' ∧ Kept e e' := by
  induction calls generalizing s e with
  | nil => exact ⟨e, h, .refl e⟩
  | cons call calls ih =>
    obtain ⟨e₁, h₁, hkept⟩ := apply_kept s call h
    obtain ⟨e₂, h₂, hkept'⟩ := ih (apply s call) h₁
    exact ⟨e₂, h₂, hkept.trans hkept'⟩

/-- The end of an episode has been reported, after its launch. -/
def EndReported (report : String → Time → Call) (calls : List Call) (id : String) : Prop :=
  ∃ before finish after, calls = before ++ report id finish :: after ∧ id ∈ begun before

abbrev NpuReported : List Call → String → Prop := EndReported .npuEpisode

abbrev PimReported : List Call → String → Prop := EndReported .pimEpisode

section
variable {report : String → Time → Call} {id : String}

theorem EndReported.append {calls : List Call} (h : EndReported report calls id) (more : List Call) :
    EndReported report (calls ++ more) id := by
  obtain ⟨before, finish, after, rfl, hid⟩ := h
  exact ⟨before, finish, after ++ more, by simp, hid⟩

/-- A call that closes an episode launched before. -/
theorem endReported_of_mem {before calls : List Call} {finish : Time} (hid : id ∈ begun before)
    (hcall : report id finish ∈ calls) : EndReported report (before ++ calls) id := by
  obtain ⟨front, after, rfl⟩ := List.append_of_mem hcall
  refine ⟨before ++ front, finish, after, (List.append_assoc ..).symm, ?_⟩
  rw [begun_append]
  exact List.mem_append_left _ hid

end

/-- What the configuration of a device leaves alone is as in a new ledger. -/
theorem configured_kept {α : Type} (f : State → α)
    (hf : ∀ s device channels mode, f (configure s device channels mode) = f s)
    (setup : List (Device × UInt32 × String)) : f (configured setup) = f {} := by
  unfold configured
  induction setup using List.reverseRecOn with
  | nil => rfl
  | append_singleton setup c ih =>
    rw [List.foldl_append]
    exact (hf _ _ _ _).trans ih

theorem configured_unlaunched (setup : List (Device × UInt32 × String)) :
    Unlaunched (configured setup) := by
  constructor
  · refine configured_kept State.parallelEpisodes (fun s d channels mode => ?_) setup
    cases d <;> rfl
  · refine configured_kept State.parallelEpisodeIndex (fun s d channels mode => ?_) setup
    cases d <;> rfl

section
variable {ledger : State} {calls : List Call} (hledger : Unlaunched ledger) (hne : "" ∉ begun calls)
  (hnodup : (begun calls).Nodup)
include hledger hne hnodup

/-- A reported end is set in the episode of its name. -/
theorem Unlaunched.ended (set : ParallelEpisode → Int → ParallelEpisode)
    {before after : List Call} {c : Call} {id : String} {finish : Time}
    (hc : apply (applyAll ledger before) c = completeEpisode set (applyAll ledger before) id finish)
    (hcalls : calls = before ++ c :: after) (hid : id ∈ begun before) {i : Nat}
    (hi : (begun calls)[i]? = some id) :
    ∃ e e', (applyAll ledger calls).parallelEpisodes[i]? = some e' ∧
      Kept (set e (max e.launchNs (toNs finish))) e' := by
  obtain ⟨rest, hbegun⟩ : ∃ rest, begun calls = begun before ++ rest := by
    rw [hcalls, begun_append]
    exact ⟨_, rfl⟩
  have hfront : begun before <+: begun calls := hbegun ▸ List.prefix_append _ _
  have hne' : "" ∉ begun before := fun h => hne (hfront.subset h)
  obtain ⟨hids, hfiled⟩ := hledger.launched hne' (hnodup.sublist hfront.sublist)
  obtain ⟨j, hj⟩ := List.mem_iff_getElem?.mp hid
  have hji : j = i := by
    have hlt := (List.getElem?_eq_some_iff.mp hj).1
    have hat : (begun calls)[j]? = some id := by rw [hbegun, List.getElem?_append_left hlt, hj]
    exact (List.getElem?_inj (hlt.trans_le hfront.length_le) hnodup).mp (hat.trans hi.symm)
  rw [hji, ← hids] at hj
  obtain ⟨e, he⟩ : ∃ e, (applyAll ledger before).parallelEpisodes[i]? = some e := by
    rw [State.episodeIds, List.getElem?_map, Option.map_eq_some_iff] at hj
    obtain ⟨e, he, -⟩ := hj
    exact ⟨e, he⟩
  have hset : (apply (applyAll ledger before) c).parallelEpisodes[i]? =
      some (set e (max e.launchNs (toNs finish))) := by
    rw [hc, completeEpisode_at hfiled hj, State.editEpisode, List.getElem?_modify, he]
    simp
  obtain ⟨e', he', hkept⟩ := applyAll_kept _ after hset
  refine ⟨e, e', ?_, hkept⟩
  rw [hcalls, applyAll_append]
  exact he'

/-- **Both ends reported, the episode is closed.** -/
theorem Unlaunched.closed {i : Nat} {id : String} (hi : (begun calls)[i]? = some id)
    (hnpu : NpuReported calls id) (hpim : PimReported calls id) :
    ∃ e, (applyAll ledger calls).parallelEpisodes[i]? = some e ∧ e.id = id ∧
      e.launchNs ≤ e.npuEndNs ∧ e.launchNs ≤ e.pimEndNs := by
  obtain ⟨before, finish, after, hcalls, hid⟩ := hnpu
  obtain ⟨a, e, he, hkept⟩ :=
    hledger.ended hne hnodup (fun e t => {e with npuEndNs := t}) rfl hcalls hid hi
  obtain ⟨before', finish', after', hcalls', hid'⟩ := hpim
  obtain ⟨a', e', he', hkept'⟩ :=
    hledger.ended hne hnodup (fun e t => {e with pimEndNs := t}) rfl hcalls' hid' hi
  obtain rfl : e = e' := Option.some.inj (he.symm.trans he')
  refine ⟨e, he, ?_, hkept.npu (le_max_left _ _), hkept'.pim (le_max_left _ _)⟩
  have hids := (hledger.launched hne hnodup).1
  rw [← hids, State.episodeIds, List.getElem?_map, he] at hi
  exact Option.some.inj hi

end

/-- `completed_episodes` of the report: those with both ends set. -/
def State.completedEpisodes (s : State) : Nat :=
  (s.parallelEpisodes.filter fun e =>
    !(decide (e.npuEndNs < e.launchNs) || decide (e.pimEndNs < e.launchNs))).length

/-- With every launched episode closed, all of them are completed. -/
theorem completedEpisodes_eq {s : State}
    (h : ∀ e ∈ s.parallelEpisodes, e.launchNs ≤ e.npuEndNs ∧ e.launchNs ≤ e.pimEndNs) :
    s.completedEpisodes = s.parallelEpisodes.length := by
  rw [State.completedEpisodes, List.filter_eq_self.mpr]
  intro e he
  obtain ⟨hnpu, hpim⟩ := h e he
  simp [not_lt.mpr hnpu, not_lt.mpr hpim]

/-! ### The draft's timeline -/

/-- `pim_draft_busy_ns` of the report. -/
def State.pimDraftBusyNs (s : State) : UInt64 := intervalUnionNs s.pimDraftComputeIntervals

/-- The compute commands a sequence of calls completes. -/
def completedCommands (calls : List Call) : List Payload :=
  calls.filterMap fun
    | .completed .pim t _ => if t.isPim then some t else none
    | _ => none

theorem completedCommands_append (a b : List Call) :
    completedCommands (a ++ b) = completedCommands a ++ completedCommands b := List.filterMap_append

theorem completedCommands_asides {calls : List Call} (h : ∀ c ∈ calls, c.isRequest = false) :
    completedCommands calls = [] := by
  refine List.filterMap_eq_nil_iff.mpr fun c hc => ?_
  have hnot := h c hc
  cases c with
  | completed device t finish => simp [Call.isRequest] at hnot
  | _ => rfl

/-- The service interval of a command: from the start in its open record to its completion. -/
def ServedOver (ledger : State) (calls : List Call) (t : Payload) (i : Interval) : Prop :=
  ∃ before finish after r, calls = before ++ .completed .pim t finish :: after ∧
    OpenRecord .pim (applyAll ledger before) t r ∧ 0 ≤ r.startNs ∧
    i = ⟨r.startNs, max r.startNs (toNs finish)⟩

/-- The command has been served, and its interval is on the draft's timeline. -/
def Contributed (ledger : State) (calls : List Call) (t : Payload) : Prop :=
  ∃ i, ServedOver ledger calls t i ∧ i ∈ (applyAll ledger calls).pimDraftComputeIntervals

/-- A completed request with an open record, on the two compute timelines. -/
theorem requestCompleted_timelines {s : State} {d : Device} {t : Payload} {r : Request} (finish : Time)
    (hl : s.requests.lookup t.ptr = some r) (hd : r.device = d) (hr : 0 ≤ r.startNs) :
    (requestCompleted s d t finish).pimComputeIntervals = s.pimComputeIntervals ++
        (if r.pimCompute then [⟨r.startNs, max r.startNs (toNs finish)⟩] else []) ∧
      (requestCompleted s d t finish).pimDraftComputeIntervals = s.pimDraftComputeIntervals ++
        (if r.pimCompute && startsWith t.layer "draft_pim." then
          [⟨r.startNs, max r.startNs (toNs finish)⟩] else []) := by
  unfold requestCompleted
  rw [hl]
  dsimp only
  rw [if_neg (by simp [hd, hr])]
  have hsame := setDevice_sameTimelines
  unfold SameTimelines at hsame
  cases r.pimCompute with
  | false => simp [hsame, State.setRequests]
  | true =>
    cases hlabel : startsWith t.layer "draft_pim." <;>
      simp [State.recordPimCompute, hsame, State.setRequests, hlabel]

/-- Any other call leaves them alone. -/
theorem apply_timelines {s : State} {c : Call} (h : ∀ d t finish, c ≠ .completed d t finish) :
    SameTimelines s (apply s c) := by
  cases c with
  | completed d t finish => exact absurd rfl (h d t finish)
  | beginEpisode id launch =>
    simp only [apply, beginParallelEpisode]
    split <;> exact ⟨rfl, rfl⟩
  | npuEpisode id finish =>
    simp only [apply, completeParallelNpuEpisode, completeEpisode]
    split <;> exact ⟨rfl, rfl⟩
  | pimEpisode id finish =>
    simp only [apply, completeParallelPimEpisode, completeEpisode]
    split <;> exact ⟨rfl, rfl⟩
  | _ => exact (apply_elsewhere s _ h (by simp) (by simp) (by simp)).2

/-- What is on the draft's timeline stays there. -/
theorem applyAll_draft_subset (s : State) (calls : List Call) :
    s.pimDraftComputeIntervals ⊆ (applyAll s calls).pimDraftComputeIntervals := by
  induction calls generalizing s with
  | nil => exact fun _ hi => hi
  | cons c calls ih =>
    refine fun i hi => ih (apply s c) ?_
    by_cases hc : ∃ d t finish, c = .completed d t finish
    · obtain ⟨d, t, finish, rfl⟩ := hc
      cases hl : s.requests.lookup t.ptr with
      | none => simpa [apply, requestCompleted, hl] using hi
      | some r =>
        by_cases hserved : r.device = d ∧ 0 ≤ r.startNs
        · show i ∈ (requestCompleted s d t finish).pimDraftComputeIntervals
          rw [(requestCompleted_timelines finish hl hserved.1 hserved.2).2]
          exact List.mem_append_left _ hi
        · rw [not_and_or, not_le] at hserved
          simpa [apply, requestCompleted, hl, hserved, State.setRequests] using hi
    · push Not at hc
      rw [(apply_timelines hc).2]
      exact hi

theorem Contributed.append {ledger : State} {calls : List Call} {t : Payload}
    (h : Contributed ledger calls t) (more : List Call) : Contributed ledger (calls ++ more) t := by
  obtain ⟨i, ⟨before, finish, after, r, rfl, hr, hpos, hi⟩, hmem⟩ := h
  refine ⟨i, ⟨before, finish, after ++ more, r, by simp, hr, hpos, hi⟩, ?_⟩
  rw [applyAll_append]
  exact applyAll_draft_subset _ more hmem

theorem applyAll_concat (s : State) (calls : List Call) (c : Call) :
    applyAll s (calls ++ [c]) = apply (applyAll s calls) c := applyAll_append s calls [c]

/-- The label says that it is draft work. -/
def LabelledDraft (t : Payload) : Prop := t.isPim = true → startsWith t.layer "draft_pim." = true

section
variable {ledger : State} {waiting serving : Device → Multiset Payload}
  {done : Device → List Payload} {d : Device} {w s w' s' : Multiset Payload} {calls : List Call}

/-- The commands a module completes get their intervals. -/
theorem Tallied.contributes {before : List Call} (hh : Handles d w s calls w' s')
    (h : Tallied (applyAll ledger before) waiting serving done) (hw : waiting d = w)
    (hs : serving d = s) (hdraft : ∀ t ∈ w + s, LabelledDraft t) :
    ∀ t ∈ completedCommands calls, Contributed ledger (before ++ calls) t := by
  induction hh generalizing waiting serving done before with
  | nil w s => simp [completedCommands]
  | @start w s w' s' calls t start channel _ ih =>
    have hnext := h.start start channel hw
    have hcall : applyAll ledger (before ++ [.started d t start channel]) =
        requestStarted (applyAll ledger before) d t start channel := applyAll_concat ledger before _
    rw [← hcall] at hnext
    have hrest := ih hnext (Function.update_self _ _ _) (by rw [Function.update_self, hs])
      fun u hu => hdraft u (by rwa [Multiset.cons_add, ← Multiset.add_cons])
    rwa [List.append_assoc, List.singleton_append] at hrest
  | @complete w s w' s' calls t finish _ ih =>
    have hnext := h.complete finish hs
    have hcall : applyAll ledger (before ++ [.completed d t finish]) =
        requestCompleted (applyAll ledger before) d t finish := applyAll_concat ledger before _
    rw [← hcall] at hnext
    have hrest := ih hnext hw (Function.update_self _ _ _)
      fun u hu => hdraft u (by rw [Multiset.add_cons]; exact Multiset.mem_cons_of_mem hu)
    rw [List.append_assoc, List.singleton_append] at hrest
    intro u hu
    rw [← List.singleton_append, completedCommands_append] at hu
    rcases List.mem_append.mp hu with hu | hu
    · -- the one completed here
      obtain ⟨rfl, rfl, hpim⟩ : d = .pim ∧ u = t ∧ t.isPim = true := by
        cases d with
        | dram => simp [completedCommands] at hu
        | pim =>
          cases hk : t.isPim with
          | false => simp [completedCommands, hk] at hu
          | true => exact ⟨rfl, by simpa [completedCommands, hk] using hu, rfl⟩
      have hmem : u ∈ serving .pim := by
        rw [hs]
        exact Multiset.mem_cons_self u s
      obtain ⟨r, hr, hpos, hcharged⟩ := (h.desks.booked .pim).serving u hmem
      have hlabel := hdraft u (by rw [Multiset.add_cons]; exact Multiset.mem_cons_self u _) hpim
      refine ⟨_, ⟨before, finish, calls, r, rfl, hr, hpos, rfl⟩, ?_⟩
      rw [← List.singleton_append, ← List.append_assoc, applyAll_append]
      refine applyAll_draft_subset _ calls ?_
      rw [applyAll_concat, apply, (requestCompleted_timelines finish hr.lookup hr.device hpos).2,
        hcharged.kind, hpim, hlabel]
      simp
    · exact hrest u hu
  | @aside w s w' s' calls c hc _ ih =>
    have hnext := h.aside hc
    rw [← applyAll_concat] at hnext
    have hrest := ih hnext hw hs hdraft
    rw [List.append_assoc, List.singleton_append] at hrest
    intro u hu
    rw [← List.singleton_append, completedCommands_append, completedCommands_asides (by simpa using hc),
      List.nil_append] at hu
    exact hrest u hu

/-- While all commands are draft work, the draft's timeline is the PIM's. -/
theorem Tallied.sameTimelines (hh : Handles d w s calls w' s')
    (h : Tallied ledger waiting serving done) (hw : waiting d = w) (hs : serving d = s)
    (hdraft : ∀ t ∈ w + s, LabelledDraft t)
    (hsame : ledger.pimDraftComputeIntervals = ledger.pimComputeIntervals) :
    (applyAll ledger calls).pimDraftComputeIntervals = (applyAll ledger calls).pimComputeIntervals := by
  induction hh generalizing ledger waiting serving done with
  | nil w s => exact hsame
  | start t start channel _ ih =>
    have hkept := apply_timelines (s := ledger) (c := .started d t start channel) (by simp)
    refine ih (h.start start channel hw) (Function.update_self _ _ _) (by rw [Function.update_self, hs])
      (fun u hu => hdraft u (by rwa [Multiset.cons_add, ← Multiset.add_cons])) ?_
    exact (hkept.2.trans hsame).trans hkept.1.symm
  | @complete w s w' s' calls t finish _ ih =>
    have hmem : t ∈ serving d := by
      rw [hs]
      exact Multiset.mem_cons_self t s
    obtain ⟨r, hr, hpos, hcharged⟩ := (h.desks.booked d).serving t hmem
    have hlabel : (r.pimCompute && startsWith t.layer "draft_pim.") = r.pimCompute := by
      rw [hcharged.kind]
      cases hk : t.isPim with
      | false => rfl
      | true => exact hdraft t (by rw [Multiset.add_cons]; exact Multiset.mem_cons_self t _) hk
    obtain ⟨hcompute, hintervals⟩ := requestCompleted_timelines finish hr.lookup hr.device hpos
    refine ih (h.complete finish hs) hw (Function.update_self _ _ _)
      (fun u hu => hdraft u (by rw [Multiset.add_cons]; exact Multiset.mem_cons_of_mem hu)) ?_
    rw [apply, hcompute, hintervals, hsame, hlabel]
  | aside c hc _ ih =>
    have hkept : (apply ledger c).pimComputeIntervals = ledger.pimComputeIntervals ∧
        (apply ledger c).pimDraftComputeIntervals = ledger.pimDraftComputeIntervals := by
      refine apply_timelines fun d t finish he => ?_
      simp [he, Call.isRequest] at hc
    exact ih (h.aside hc) hw hs hdraft ((hkept.2.trans hsame).trans hkept.1.symm)

end

end Hsim.Metrics
