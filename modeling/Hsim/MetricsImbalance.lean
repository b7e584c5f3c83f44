import Hsim.Lib.Words
import Hsim.MetricsStages

/-! The parallel execution imbalance of the report, in `write_json`.

An episode counts once both its ends are set. The stretch from its launch to the
later end is then split in two, at the earlier end: what both branches took, and
what one of them took alone. The loop that adds the parts up and the loop that
prints them compute the split each for itself. -/
namespace Hsim.Metrics

/-! ### The report -/

namespace ParallelEpisode
variable (e : ParallelEpisode)

/-- An end that is not set is -1, below any launch. -/
def counted : Bool := !(decide (e.npuEndNs < e.launchNs) || decide (e.pimEndNs < e.launchNs))

def bothEnd : Int := min e.npuEndNs e.pimEndNs

/-- The parts, as `static_cast<uint64_t>` of 64-bit differences. -/
def bothNs : UInt64 := UInt64.ofInt (e.bothEnd - e.launchNs)

def pimOnlyNs : UInt64 := UInt64.ofInt (max 0 (e.pimEndNs - e.bothEnd))

def npuOnlyNs : UInt64 := UInt64.ofInt (max 0 (e.npuEndNs - e.bothEnd))

end ParallelEpisode

/-- `EEI`, with the signed difference of two 64-bit counts. -/
def eei (pimOnlyNs npuOnlyNs totalNs : UInt64) : Rat :=
  if totalNs = 0 then 0
  else (pimOnlyNs.toInt64.toInt - npuOnlyNs.toInt64.toInt : Int) / (totalNs.toNat : Rat)

/-- An entry of `episodes`. -/
structure EpisodeLine where
  id : String
  launchNs : Int
  npuEndNs : Int
  pimEndNs : Int
  pimOnlyNs : UInt64
  npuOnlyNs : UInt64
  bothNs : UInt64
  eei : Rat

/-- The whole episode, over the integers. -/
def EpisodeLine.durationNs (l : EpisodeLine) : Int := max l.npuEndNs l.pimEndNs - l.launchNs

def ParallelEpisode.line (e : ParallelEpisode) : EpisodeLine where
  id := e.id
  launchNs := e.launchNs
  npuEndNs := e.npuEndNs
  pimEndNs := e.pimEndNs
  pimOnlyNs := e.pimOnlyNs
  npuOnlyNs := e.npuOnlyNs
  bothNs := e.bothNs
  eei := Metrics.eei e.pimOnlyNs e.npuOnlyNs (e.pimOnlyNs + e.npuOnlyNs + e.bothNs)

/-- `parallel_execution_imbalance`. -/
structure Imbalance where
  episodesRecorded : Nat
  episodesCompleted : Nat
  pimOnlyNs : UInt64
  npuOnlyNs : UInt64
  bothNs : UInt64
  totalParallelNs : UInt64
  eei : Rat
  episodes : List EpisodeLine

def State.countedEpisodes (s : State) : List ParallelEpisode := s.parallelEpisodes.filter (·.counted)

def State.imbalance (s : State) : Imbalance :=
  let pimOnlyNs := (s.countedEpisodes.map (·.pimOnlyNs)).sum
  let npuOnlyNs := (s.countedEpisodes.map (·.npuOnlyNs)).sum
  let bothNs := (s.countedEpisodes.map (·.bothNs)).sum
  let total := pimOnlyNs + npuOnlyNs + bothNs
  {
    episodesRecorded := s.parallelEpisodes.length
    episodesCompleted := s.completedEpisodes
    pimOnlyNs := pimOnlyNs
    npuOnlyNs := npuOnlyNs
    bothNs := bothNs
    totalParallelNs := total
    eei := eei pimOnlyNs npuOnlyNs total
    episodes := s.countedEpisodes.map (·.line)}

/-! ### The split of an episode -/

theorem counted_iff {e : ParallelEpisode} :
    e.counted = true ↔ e.launchNs ≤ e.npuEndNs ∧ e.launchNs ≤ e.pimEndNs := by
  simp only [ParallelEpisode.counted, Bool.not_eq_true', Bool.or_eq_false_iff, decide_eq_false_iff_not,
    not_lt]

/-- The ends and the launch are in the range of `sc_time`: 2^64 picoseconds. -/
structure ParallelEpisode.InRange (e : ParallelEpisode) : Prop where
  launched : 0 ≤ e.launchNs
  launch : e.launchNs < 2 ^ 62
  npu : e.npuEndNs < 2 ^ 62
  pim : e.pimEndNs < 2 ^ 62

/-- The parts of an episode, over the integers. -/
structure EpisodeLine.Split (l : EpisodeLine) : Prop where
  both : (l.bothNs.toNat : Int) = min l.npuEndNs l.pimEndNs - l.launchNs
  pimOnly : (l.pimOnlyNs.toNat : Int) = l.pimEndNs - min l.npuEndNs l.pimEndNs
  npuOnly : (l.npuOnlyNs.toNat : Int) = l.npuEndNs - min l.npuEndNs l.pimEndNs
  whole : (l.bothNs.toNat + l.pimOnlyNs.toNat + l.npuOnlyNs.toNat : Int) = l.durationNs
  alone : l.pimOnlyNs = 0 ∨ l.npuOnlyNs = 0

theorem ParallelEpisode.InRange.split {e : ParallelEpisode} (h : e.InRange) (hcounted : e.counted = true) :
    e.line.Split := by
  obtain ⟨hlaunched, hlaunch, hnpu, hpim⟩ := h
  obtain ⟨hnpuSet, hpimSet⟩ := counted_iff.mp hcounted
  have hboth : (e.bothNs.toNat : Int) = min e.npuEndNs e.pimEndNs - e.launchNs :=
    Lib.toNat_ofInt (by rw [ParallelEpisode.bothEnd]; omega) (by rw [ParallelEpisode.bothEnd]; omega)
  have hpimOnly : (e.pimOnlyNs.toNat : Int) = max 0 (e.pimEndNs - min e.npuEndNs e.pimEndNs) :=
    Lib.toNat_ofInt (by omega) (by rw [ParallelEpisode.bothEnd]; omega)
  have hnpuOnly : (e.npuOnlyNs.toNat : Int) = max 0 (e.npuEndNs - min e.npuEndNs e.pimEndNs) :=
    Lib.toNat_ofInt (by omega) (by rw [ParallelEpisode.bothEnd]; omega)
  have hpimAlone : (e.pimOnlyNs.toNat : Int) = e.pimEndNs - min e.npuEndNs e.pimEndNs := by omega
  have hnpuAlone : (e.npuOnlyNs.toNat : Int) = e.npuEndNs - min e.npuEndNs e.pimEndNs := by omega
  have hwhole : (e.bothNs.toNat + e.pimOnlyNs.toNat + e.npuOnlyNs.toNat : Int) =
      max e.npuEndNs e.pimEndNs - e.launchNs := by omega
  have halone : e.pimOnlyNs = 0 ∨ e.npuOnlyNs = 0 := by
    rw [← UInt64.toNat_inj, ← UInt64.toNat_inj, UInt64.toNat_zero]
    omega
  exact ⟨hboth, hpimAlone, hnpuAlone, hwhole, halone⟩

/-! ### The totals -/

/-- `EEI` of a difference within the total. -/
theorem eei_bounds {pimOnlyNs npuOnlyNs totalNs : UInt64} (hpim : pimOnlyNs.toNat < 2 ^ 63)
    (hnpu : npuOnlyNs.toNat < 2 ^ 63)
    (h : |(pimOnlyNs.toNat : Int) - npuOnlyNs.toNat| ≤ totalNs.toNat) :
    -1 ≤ eei pimOnlyNs npuOnlyNs totalNs ∧ eei pimOnlyNs npuOnlyNs totalNs ≤ 1 := by
  unfold eei
  split
  · constructor <;> norm_num
  · next hne =>
    have hpos : (0 : Rat) < totalNs.toNat := by
      have hnat : 0 < totalNs.toNat := Nat.pos_of_ne_zero fun hz => hne (UInt64.toNat_inj.mp hz)
      exact_mod_cast hnat
    rw [Lib.toInt_toInt64 hpim, Lib.toInt_toInt64 hnpu]
    obtain ⟨hlow, hhigh⟩ := abs_le.mp h
    constructor
    · rw [le_div_iff₀ hpos, neg_one_mul]
      exact_mod_cast hlow
    · rw [div_le_one hpos]
      exact_mod_cast hhigh

/-- Sums of words that are bounded one by one. -/
theorem toNat_sum_le {lines : List EpisodeLine} {f : EpisodeLine → UInt64}
    (hle : ∀ l ∈ lines, ((f l).toNat : Int) ≤ l.durationNs)
    (hlt : (lines.map (·.durationNs)).sum < 2 ^ 63) :
    (lines.map f).sum.toNat = (lines.map fun l => (f l).toNat).sum ∧ (lines.map f).sum.toNat < 2 ^ 63 := by
  have hsum : (((lines.map fun l => (f l).toNat).sum : Nat) : Int) ≤ (lines.map (·.durationNs)).sum := by
    clear hlt
    induction lines with
    | nil => simp
    | cons l lines ih =>
      have hhead := hle l List.mem_cons_self
      have htail := ih fun l' hl' => hle l' (List.mem_cons_of_mem _ hl')
      simp only [List.map_cons, List.sum_cons]
      omega
  have hsame : (lines.map f).sum.toNat = (lines.map fun l => (f l).toNat).sum := by
    rw [Lib.toNat_sum, List.map_map]
    exact Nat.mod_eq_of_lt (show (lines.map fun l => (f l).toNat).sum < 2 ^ 64 by omega)
  exact ⟨hsame, by omega⟩

/-- The aggregate is the sum of the episodes it prints, and its `EEI` a ratio. -/
structure Imbalance.Totals (r : Imbalance) : Prop where
  pimOnly : r.pimOnlyNs.toNat = (r.episodes.map (·.pimOnlyNs.toNat)).sum
  npuOnly : r.npuOnlyNs.toNat = (r.episodes.map (·.npuOnlyNs.toNat)).sum
  both : r.bothNs.toNat = (r.episodes.map (·.bothNs.toNat)).sum
  total : (r.totalParallelNs.toNat : Int) = (r.episodes.map (·.durationNs)).sum
  within : |(r.pimOnlyNs.toNat : Int) - r.npuOnlyNs.toNat| ≤ r.totalParallelNs.toNat
  eei : -1 ≤ r.eei ∧ r.eei ≤ 1

theorem totals_of_split {s : State} (hsplit : ∀ l ∈ s.imbalance.episodes, l.Split)
    (hlt : (s.imbalance.episodes.map (·.durationNs)).sum < 2 ^ 63) : s.imbalance.Totals := by
  have hpart : ∀ {f : EpisodeLine → UInt64} {g : ParallelEpisode → UInt64}, (∀ e, f e.line = g e) →
      (s.countedEpisodes.map g).sum = (s.imbalance.episodes.map f).sum := by
    intro f g hfg
    show _ = ((s.countedEpisodes.map (·.line)).map f).sum
    rw [List.map_map]
    exact congrArg List.sum (List.map_congr_left fun e _ => (hfg e).symm)
  obtain ⟨hpim, hpimLt⟩ := toNat_sum_le (f := (·.pimOnlyNs))
    (fun l hl => by have h := (hsplit l hl).whole; omega) hlt
  obtain ⟨hnpu, hnpuLt⟩ := toNat_sum_le (f := (·.npuOnlyNs))
    (fun l hl => by have h := (hsplit l hl).whole; omega) hlt
  obtain ⟨hboth, -⟩ := toNat_sum_le (f := (·.bothNs))
    (fun l hl => by have h := (hsplit l hl).whole; omega) hlt
  rw [← hpart (g := (·.pimOnlyNs)) fun _ => rfl] at hpim hpimLt
  rw [← hpart (g := (·.npuOnlyNs)) fun _ => rfl] at hnpu hnpuLt
  rw [← hpart (g := (·.bothNs)) fun _ => rfl] at hboth
  have hwhole : (((s.imbalance.episodes.map (·.pimOnlyNs.toNat)).sum +
      (s.imbalance.episodes.map (·.npuOnlyNs.toNat)).sum +
      (s.imbalance.episodes.map (·.bothNs.toNat)).sum : Nat) : Int) =
      (s.imbalance.episodes.map (·.durationNs)).sum := by
    clear hpim hnpu hboth hpimLt hnpuLt hlt hpart
    revert hsplit
    induction s.imbalance.episodes with
    | nil => simp
    | cons l lines ih =>
      intro hsplit
      have hhead := (hsplit l List.mem_cons_self).whole
      have htail := ih fun l' hl' => hsplit l' (List.mem_cons_of_mem _ hl')
      simp only [List.map_cons, List.sum_cons]
      omega
  have htotal : (s.imbalance.totalParallelNs.toNat : Int) =
      (s.imbalance.episodes.map (·.durationNs)).sum := by
    show ((_ + _ + _ : UInt64).toNat : Int) = _
    rw [UInt64.toNat_add, UInt64.toNat_add, hpim, hnpu, hboth]
    omega
  have hwithin : |(s.imbalance.pimOnlyNs.toNat : Int) - s.imbalance.npuOnlyNs.toNat| ≤
      s.imbalance.totalParallelNs.toNat := by
    have hpim : s.imbalance.pimOnlyNs.toNat = _ := hpim
    have hnpu : s.imbalance.npuOnlyNs.toNat = _ := hnpu
    rw [htotal, ← hwhole, hpim, hnpu, abs_le]
    omega
  exact ⟨hpim, hnpu, hboth, htotal, hwithin, eei_bounds hpimLt hnpuLt hwithin⟩

/-! ### The episodes of a sequence of calls -/

/-- An end is set exactly if it has been reported after a launch. -/
def EndKnown (get : ParallelEpisode → Int) (report : String → Time → Call) (calls : List Call)
    (s : State) : Prop :=
  ∀ e ∈ s.parallelEpisodes, e.launchNs ≤ get e ↔ EndReported report calls e.id

/-- The episodes are those launched under a name, with the ends that were reported. -/
structure Entered (calls : List Call) (s : State) : Prop where
  filed : Filed s
  named : ∀ id, id ∈ s.episodeIds ↔ id ≠ "" ∧ id ∈ begun calls
  npu : EndKnown (·.npuEndNs) .npuEpisode calls s
  pim : EndKnown (·.pimEndNs) .pimEpisode calls s

theorem endReported_concat {report : String → Time → Call} {calls : List Call} {c : Call} {id : String} :
    EndReported report (calls ++ [c]) id ↔
      EndReported report calls id ∨ (∃ finish, c = report id finish) ∧ id ∈ begun calls := by
  constructor
  · rintro ⟨before, finish, after, hcalls, hid⟩
    rcases List.eq_nil_or_concat after with rfl | ⟨after, last, rfl⟩
    · obtain ⟨rfl, hc⟩ := List.append_inj' hcalls rfl
      exact .inr ⟨⟨finish, List.singleton_inj.mp hc⟩, hid⟩
    · refine .inl ⟨before, finish, after, ?_, hid⟩
      have hcalls : calls ++ [c] = (before ++ report id finish :: after) ++ [last] := by simpa using hcalls
      exact (List.append_inj' hcalls rfl).1
  · rintro (h | ⟨⟨finish, rfl⟩, hid⟩)
    · exact h.append [c]
    · exact ⟨calls, finish, [], rfl, hid⟩

theorem EndReported.begun {report : String → Time → Call} {calls : List Call} {id : String}
    (h : EndReported report calls id) : id ∈ begun calls := by
  obtain ⟨before, finish, after, rfl, hid⟩ := h
  rw [begun_append]
  exact List.mem_append_left _ hid

section
variable {calls : List Call} {s s' : State} {c : Call} {get : ParallelEpisode → Int}
  {report : String → Time → Call}

/-- A call that is not this report and leaves the names, launches and ends alone. -/
theorem EndKnown.other (h : EndKnown get report calls s) (hc : ∀ id finish, c ≠ report id finish)
    (hsame : ∀ e' ∈ s'.parallelEpisodes, ∃ e ∈ s.parallelEpisodes,
      e'.id = e.id ∧ e'.launchNs = e.launchNs ∧ get e' = get e) :
    EndKnown get report (calls ++ [c]) s' := by
  intro e' he'
  obtain ⟨e, he, hid, hlaunch, hget⟩ := hsame e' he'
  rw [hlaunch, hget, hid, h e he, endReported_concat]
  refine ⟨.inl, fun hreported => ?_⟩
  rcases hreported with hreported | ⟨⟨finish, hreport⟩, -⟩
  · exact hreported
  · exact absurd hreport (hc e.id finish)

/-- A launch adds an episode with no ends. -/
theorem EndKnown.launch (h : EndKnown get report calls s) (hc : ∀ id finish, c ≠ report id finish)
    {new : ParallelEpisode} (hepisodes : s'.parallelEpisodes = s.parallelEpisodes ++ [new])
    (hnew : new.id ∉ begun calls) (hunset : get new < new.launchNs) :
    EndKnown get report (calls ++ [c]) s' := by
  intro e he
  rw [hepisodes] at he
  rw [endReported_concat]
  rcases List.mem_append.mp he with he | he
  · rw [h e he]
    refine ⟨.inl, fun hreported => ?_⟩
    rcases hreported with hreported | ⟨⟨finish, hreport⟩, -⟩
    · exact hreported
    · exact absurd hreport (hc e.id finish)
  · obtain rfl := List.mem_singleton.mp he
    refine iff_of_false (not_le.mpr hunset) ?_
    rintro (hreported | ⟨-, hbegun⟩)
    · exact hnew hreported.begun
    · exact hnew hbegun

/-- A report sets the end of its episode, if it has one. -/
theorem EndKnown.own (h : EndKnown get report calls s) (hfiled : Filed s)
    (hnamed : ∀ id, id ∈ s.episodeIds → id ∈ begun calls) (set : ParallelEpisode → Int → ParallelEpisode)
    (hset : ∀ e t, (set e t).id = e.id ∧ (set e t).launchNs = e.launchNs ∧ get (set e t) = t)
    (hinj : ∀ id id' finish finish', report id finish = report id' finish' → id = id')
    (id : String) (finish : Time) :
    EndKnown get report (calls ++ [report id finish]) (completeEpisode set s id finish) := by
  have hother : ∀ e ∈ s.parallelEpisodes, e.id ≠ id →
      (e.launchNs ≤ get e ↔ EndReported report (calls ++ [report id finish]) e.id) := by
    intro e he hne
    rw [h e he, endReported_concat]
    refine ⟨.inl, fun hreported => ?_⟩
    rcases hreported with hreported | ⟨⟨finish', hreport⟩, -⟩
    · exact hreported
    · exact absurd (hinj _ _ _ _ hreport).symm hne
  cases hl : s.parallelEpisodeIndex.lookup id with
  | none =>
    have hsame : completeEpisode set s id finish = s := by rw [completeEpisode, hl]
    rw [hsame]
    intro e he
    refine hother e he fun heq => ?_
    obtain ⟨i, hi⟩ := List.mem_iff_getElem?.mp he
    have hat : s.episodeIds[i]? = some id := by rw [State.episodeIds, List.getElem?_map, hi, ← heq]; rfl
    rw [(hfiled id i).mpr hat] at hl
    cases hl
  | some index =>
    have hat := (hfiled id index).mp hl
    intro e' he'
    obtain ⟨i, hi⟩ := List.mem_iff_getElem?.mp he'
    rw [completeEpisode_at hfiled hat, State.editEpisode, List.getElem?_modify] at hi
    obtain ⟨e, he, rfl⟩ := Option.map_eq_some_iff.mp hi
    by_cases hindex : index = i
    · subst hindex
      have hid : e.id = id := by
        rw [State.episodeIds, List.getElem?_map, he] at hat
        exact Option.some.inj hat
      rw [if_pos rfl]
      obtain ⟨hsetId, hsetLaunch, hsetGet⟩ := hset e (max e.launchNs (toNs finish))
      rw [hsetId, hsetLaunch, hsetGet, hid]
      exact iff_of_true (le_max_left _ _)
        (endReported_concat.mpr (.inr ⟨⟨finish, rfl⟩, hnamed id (List.mem_of_getElem? hat)⟩))
    · rw [if_neg hindex]
      refine hother e (List.mem_of_getElem? he) fun heq => hindex ?_
      have hat' : s.episodeIds[i]? = some id := by rw [State.episodeIds, List.getElem?_map, he, ← heq]; rfl
      exact Option.some.inj (hl.symm.trans ((hfiled id i).mpr hat'))

end

/-- A completion changes one episode, by its end. -/
theorem mem_completeEpisode {set : ParallelEpisode → Int → ParallelEpisode} {s : State} {id : String}
    {finish : Time} {e' : ParallelEpisode} (h : e' ∈ (completeEpisode set s id finish).parallelEpisodes) :
    ∃ e ∈ s.parallelEpisodes, e' = e ∨ e' = set e (max e.launchNs (toNs finish)) := by
  unfold completeEpisode at h
  split at h
  · exact ⟨e', h, .inl rfl⟩
  · next index _ =>
    obtain ⟨i, hi⟩ := List.mem_iff_getElem?.mp h
    rw [List.getElem?_modify] at hi
    obtain ⟨e, he, rfl⟩ := Option.map_eq_some_iff.mp hi
    refine ⟨e, List.mem_of_getElem? he, ?_⟩
    by_cases hindex : index = i
    · exact .inr (if_pos hindex)
    · exact .inl (if_neg hindex)

section
variable {calls : List Call} {s : State}

theorem begun_concat {c : Call} (hc : ∀ id t, c ≠ .beginEpisode id t) :
    begun (calls ++ [c]) = begun calls := by
  rw [begun_append]
  cases c with
  | beginEpisode id t => exact absurd rfl (hc id t)
  | _ => exact List.append_nil _

/-- The names after a call that is not a launch. -/
theorem Entered.names (h : Entered calls s) {c : Call} (hc : ∀ id t, c ≠ .beginEpisode id t) :
    Filed (apply s c) ∧ ∀ id, id ∈ (apply s c).episodeIds ↔ id ≠ "" ∧ id ∈ begun (calls ++ [c]) := by
  obtain ⟨hids, hindex⟩ := apply_ids s c hc
  refine ⟨h.filed.congr hids hindex, fun id => ?_⟩
  rw [hids, begun_concat hc]
  exact h.named id

theorem Entered.launch (h : Entered calls s) (id : String) (launch : Time) :
    Entered (calls ++ [.beginEpisode id launch]) (apply s (.beginEpisode id launch)) := by
  have hbegun : begun (calls ++ [.beginEpisode id launch]) = begun calls ++ [id] := begun_append _ _
  by_cases hknown : id = "" ∨ id ∈ s.episodeIds
  · have hsame : apply s (.beginEpisode id launch) = s := by
      refine if_pos (hknown.imp_right fun hmem => ?_)
      obtain ⟨i, hi⟩ := List.mem_iff_getElem?.mp hmem
      rw [(h.filed id i).mpr hi]
      rfl
    rw [hsame]
    refine ⟨h.filed, fun id' => ?_, h.npu.other (by simp) fun e he => ⟨e, he, rfl, rfl, rfl⟩,
      h.pim.other (by simp) fun e he => ⟨e, he, rfl, rfl, rfl⟩⟩
    rw [h.named, hbegun, List.mem_append, List.mem_singleton]
    refine ⟨fun hid => ⟨hid.1, .inl hid.2⟩, fun ⟨hne, hid⟩ => ⟨hne, ?_⟩⟩
    rcases hid with hid | rfl
    · exact hid
    · rcases hknown with hempty | hmem
      · exact absurd hempty hne
      · exact ((h.named id').mp hmem).2
  · obtain ⟨hne, hnew⟩ := not_or.mp hknown
    obtain ⟨hids, hfiled⟩ := beginParallelEpisode_new h.filed hne hnew launch
    have hbegun' : id ∉ begun calls := fun hmem => hnew ((h.named id).mpr ⟨hne, hmem⟩)
    have hepisodes : (apply s (.beginEpisode id launch)).parallelEpisodes =
        s.parallelEpisodes ++ [{id := id, launchNs := toNs launch}] := by
      have hnone : s.parallelEpisodeIndex.lookup id = none := by
        cases hl : s.parallelEpisodeIndex.lookup id with
        | none => rfl
        | some i => exact absurd (List.mem_of_getElem? ((h.filed id i).mp hl)) hnew
      simp only [apply, beginParallelEpisode]
      rw [if_neg (by simp [hne, hnone])]
    have hunset : (-1 : Int) < toNs launch := by
      have hnonneg := toNs_nonneg launch
      omega
    refine ⟨hfiled, fun id' => ?_, h.npu.launch (by simp) hepisodes hbegun' hunset,
      h.pim.launch (by simp) hepisodes hbegun' hunset⟩
    show id' ∈ (beginParallelEpisode s id launch).episodeIds ↔ _
    rw [hids, hbegun, List.mem_append, List.mem_append, h.named, List.mem_singleton]
    constructor
    · rintro (⟨hne', hid'⟩ | rfl)
      · exact ⟨hne', .inl hid'⟩
      · exact ⟨hne, .inr rfl⟩
    · rintro ⟨hne', hid' | rfl⟩
      · exact .inl ⟨hne', hid'⟩
      · exact .inr rfl

/-- **One call.** -/
theorem Entered.call (h : Entered calls s) (c : Call) : Entered (calls ++ [c]) (apply s c) := by
  by_cases hb : ∃ id launch, c = .beginEpisode id launch
  · obtain ⟨id, launch, rfl⟩ := hb
    exact h.launch id launch
  push Not at hb
  obtain ⟨hfiled, hnamed⟩ := h.names hb
  have hbegun : ∀ id ∈ s.episodeIds, id ∈ begun calls := fun id hid => ((h.named id).mp hid).2
  by_cases hn : ∃ id finish, c = .npuEpisode id finish
  · obtain ⟨id, finish, rfl⟩ := hn
    refine ⟨hfiled, hnamed, h.npu.own h.filed hbegun (fun e t => {e with npuEndNs := t})
      (fun _ _ => ⟨rfl, rfl, rfl⟩) (by simp) id finish, h.pim.other (by simp) fun e' he' => ?_⟩
    obtain ⟨e, he, rfl | rfl⟩ := mem_completeEpisode he' <;> exact ⟨_, he, rfl, rfl, rfl⟩
  by_cases hp : ∃ id finish, c = .pimEpisode id finish
  · obtain ⟨id, finish, rfl⟩ := hp
    refine ⟨hfiled, hnamed, h.npu.other (by simp) fun e' he' => ?_,
      h.pim.own h.filed hbegun (fun e t => {e with pimEndNs := t}) (fun _ _ => ⟨rfl, rfl, rfl⟩) (by simp)
        id finish⟩
    obtain ⟨e, he, rfl | rfl⟩ := mem_completeEpisode he' <;> exact ⟨_, he, rfl, rfl, rfl⟩
  push Not at hn hp
  obtain ⟨hepisodes, -⟩ := apply_sameEpisodes s c hb hn hp
  refine ⟨hfiled, hnamed, h.npu.other hn fun e he => ?_, h.pim.other hp fun e he => ?_⟩
  · exact ⟨e, hepisodes ▸ he, rfl, rfl, rfl⟩
  · exact ⟨e, hepisodes ▸ he, rfl, rfl, rfl⟩

end

theorem Unlaunched.entered {ledger : State} (h : Unlaunched ledger) (calls : List Call) :
    Entered calls (applyAll ledger calls) := by
  induction calls using List.reverseRecOn with
  | nil =>
    refine ⟨h.filed, fun id => ?_, ?_, ?_⟩
    · show id ∈ ledger.episodeIds ↔ _
      rw [h.ids]
      simp [begun]
    · show ∀ e ∈ ledger.parallelEpisodes, _
      rw [h.episodes]
      simp
    · show ∀ e ∈ ledger.parallelEpisodes, _
      rw [h.episodes]
      simp
  | append_singleton calls c ih =>
    rw [applyAll_concat]
    exact ih.call c

/-! ### The report of a sequence of calls -/

/-- The time of a call about an episode is below a bound. -/
def Call.Below (bound : Time) : Call → Prop
  | .beginEpisode _ t | .npuEpisode _ t | .pimEpisode _ t => t < bound
  | _ => True

instance (bound : Time) : (c : Call) → Decidable (c.Below bound)
  | .beginEpisode _ t | .npuEpisode _ t | .pimEpisode _ t => inferInstanceAs (Decidable (t < bound))
  | .arrived .. | .started .. | .completed .. | .stall .. | .npuInterval .. | .npuComputeInterval .. =>
    .isTrue trivial

/-- The times of the episodes are those of the calls, in nanoseconds. -/
theorem Unlaunched.inRange {ledger : State} (h : Unlaunched ledger) {calls : List Call}
    (htimes : ∀ c ∈ calls, c.Below (2 ^ 64)) :
    ∀ e ∈ (applyAll ledger calls).parallelEpisodes, e.InRange := by
  have hns : ∀ t : Nat, t < 2 ^ 64 → toNs t < 2 ^ 62 := by
    intro t ht
    rw [toNs]
    omega
  induction calls using List.reverseRecOn with
  | nil =>
    show ∀ e ∈ ledger.parallelEpisodes, _
    rw [h.episodes]
    simp
  | append_singleton calls c ih =>
    have ih := ih fun c' hc' => htimes c' (List.mem_append_left _ hc')
    have htime : c.Below (2 ^ 64) := htimes c (by simp)
    rw [applyAll_concat]
    cases c with
    | beginEpisode id launch =>
      have hlaunch := hns launch htime
      simp only [apply, beginParallelEpisode]
      split
      · exact ih
      · intro e he
        rcases List.mem_append.mp he with he | he
        · exact ih e he
        · obtain rfl := List.mem_singleton.mp he
          have hunset : (-1 : Int) < 2 ^ 62 := by decide
          exact ⟨toNs_nonneg launch, hlaunch, hunset, hunset⟩
    | npuEpisode id finish =>
      intro e' he'
      obtain ⟨e, he, rfl | rfl⟩ := mem_completeEpisode he'
      · exact ih _ he
      · obtain ⟨hlaunched, hlaunch, -, hpim⟩ := ih e he
        exact ⟨hlaunched, hlaunch, max_lt hlaunch (hns finish htime), hpim⟩
    | pimEpisode id finish =>
      intro e' he'
      obtain ⟨e, he, rfl | rfl⟩ := mem_completeEpisode he'
      · exact ih _ he
      · obtain ⟨hlaunched, hlaunch, hnpu, -⟩ := ih e he
        exact ⟨hlaunched, hlaunch, hnpu, max_lt hlaunch (hns finish htime)⟩
    | _ =>
      rw [(apply_sameEpisodes _ _ (by simp) (by simp) (by simp)).1]
      exact ih

/-- No two episodes have the same name. -/
theorem Filed.nodup {s : State} (h : Filed s) : s.episodeIds.Nodup := by
  rw [List.nodup_iff_getElem?_ne_getElem?]
  intro i j hij hj heq
  have hat := List.getElem?_eq_getElem hj
  have hi := (h _ i).mpr (heq.trans hat)
  have hj := (h _ j).mpr hat
  exact absurd (Option.some.inj (hi.symm.trans hj)) (by omega)

/-- What the report owes to a sequence of calls. -/
structure Decomposes (calls : List Call) (r : Imbalance) : Prop where
  counted : ∀ id, id ∈ r.episodes.map (·.id) ↔ id ≠ "" ∧ NpuReported calls id ∧ PimReported calls id
  once : (r.episodes.map (·.id)).Nodup
  completed : r.episodesCompleted = r.episodes.length
  split : ∀ l ∈ r.episodes, l.Split
  totals : (r.episodes.map (·.durationNs)).sum < 2 ^ 63 → r.Totals

/-- **The report counts the episodes that were launched and then ended twice, and splits
them.** Any calls in any order, with times in the range of `sc_time`. -/
theorem episodes_decompose {ledger : State} (h : Unlaunched ledger) (calls : List Call)
    (htimes : ∀ c ∈ calls, c.Below (2 ^ 64)) : Decomposes calls (applyAll ledger calls).imbalance := by
  obtain ⟨hfiled, hnamed, hnpu, hpim⟩ := h.entered calls
  have hrange := h.inRange htimes
  have hids : (applyAll ledger calls).imbalance.episodes.map (·.id) =
      (applyAll ledger calls).countedEpisodes.map (·.id) := List.map_map
  have hsplit : ∀ l ∈ (applyAll ledger calls).imbalance.episodes, l.Split := by
    intro l hl
    obtain ⟨e, he, rfl⟩ := List.mem_map.mp hl
    obtain ⟨hmem, hcounted⟩ := List.mem_filter.mp he
    exact (hrange e hmem).split hcounted
  refine ⟨fun id => ?_, ?_, ?_, hsplit, totals_of_split hsplit⟩
  · rw [hids]
    constructor
    · intro hid
      obtain ⟨e, he, rfl⟩ := List.mem_map.mp hid
      obtain ⟨hmem, hcounted⟩ := List.mem_filter.mp he
      obtain ⟨hnpuSet, hpimSet⟩ := counted_iff.mp hcounted
      exact ⟨((hnamed e.id).mp (List.mem_map_of_mem hmem)).1, (hnpu e hmem).mp hnpuSet,
        (hpim e hmem).mp hpimSet⟩
    · rintro ⟨hne, hnpuEnd, hpimEnd⟩
      obtain ⟨e, hmem, rfl⟩ := List.mem_map.mp ((hnamed id).mpr ⟨hne, hnpuEnd.begun⟩)
      have hcounted := counted_iff.mpr ⟨(hnpu e hmem).mpr hnpuEnd, (hpim e hmem).mpr hpimEnd⟩
      exact List.mem_map_of_mem (List.mem_filter.mpr ⟨hmem, hcounted⟩)
  · rw [hids]
    exact hfiled.nodup.sublist (List.filter_sublist.map _)
  · exact (List.length_map _).symm

/-- Two episodes, the first with its NPU end reported twice and the second not ended on
the PIM. -/
def twoEpisodes : List Call := [.beginEpisode "sample0.iter0" 1000, .npuEpisode "sample0.iter0" 4000,
  .pimEpisode "sample0.iter0" 9000, .npuEpisode "sample0.iter0" 6000, .beginEpisode "sample0.iter1" 9000,
  .npuEpisode "sample0.iter1" 12000]

theorem episodes_decompose_two : Decomposes twoEpisodes (applyAll {} twoEpisodes).imbalance ∧
    (applyAll {} twoEpisodes).imbalance.episodesCompleted = 1 :=
  ⟨episodes_decompose ⟨rfl, rfl⟩ twoEpisodes (by decide), by decide +kernel⟩

/-- An episode without a name is launched and ended, and not counted. -/
theorem unnamed_episode_ignored : ¬ ∀ (calls : List Call) (id : String),
    id ∈ (applyAll {} calls).imbalance.episodes.map (·.id) ↔
      NpuReported calls id ∧ PimReported calls id := by
  intro hall
  have hcalls := hall [.beginEpisode "" 0, .npuEpisode "" 1000, .pimEpisode "" 2000] ""
  have hreported := hcalls.mpr
    ⟨⟨[.beginEpisode "" 0], 1000, [.pimEpisode "" 2000], rfl, List.mem_singleton.mpr rfl⟩,
      [.beginEpisode "" 0, .npuEpisode "" 1000], 2000, [], rfl, List.mem_singleton.mpr rfl⟩
  exact absurd hreported (by decide +kernel)

end Hsim.Metrics
