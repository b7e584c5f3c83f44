import Hsim.Lib.Serial
import Hsim.MetricsLedger

/-! Service as the ledger sees it.

A wrapper that serves requests in order gives each a slot. It reports the arrival
of a request, then the start of its slot, then its end; the ledger then holds the
slots that have ended, rounded to nanoseconds, and an open record for each of
the others. -/
namespace Hsim.Metrics

/-- The service interval of a slot, in nanoseconds. -/
def slotInterval (o : Lib.Slot Time Payload) : Interval := ⟨toNs o.start, toNs o.done⟩

/-- The open record of a request of device `d` and kind `k`. -/
structure Recorded (d : Device) (k : Bool) (ledger : State) (t : Payload) (r : Request) : Prop where
  lookup : ledger.requests.lookup t.ptr = some r
  device : r.device = d
  kind : r.pimCompute = k

/-- The ledger against a server: slots whose end is reported, slots given out and not
reported, requests still pending. -/
structure Reported (d : Device) (k : Bool) (ledger : State) (clock : Time)
    (reported opened : List (Lib.Slot Time Payload)) (pending : List Payload) : Prop where
  nodup : (opened.map (·.job.ptr) ++ pending.map (·.ptr)).Nodup
  proper : ∀ o ∈ opened, o.start ≤ o.done
  started : ∀ o ∈ opened, ∃ r, Recorded d k ledger o.job r ∧ r.startNs = toNs o.start
  waiting : ∀ t ∈ pending, ∃ r, Recorded d k ledger t r ∧ r.startNs < 0 ∧ r.arrivalNs ≤ toNs clock
  intervals : ledger.intervals d k = reported.map slotInterval

section Ledger

variable {d : Device} {k : Bool} {ledger ledger' : State} {clock now : Time} {t : Payload}
  {reported opened : List (Lib.Slot Time Payload)} {pending : List Payload}

theorem Recorded.of_lookup {u : Payload} {r : Request} (h : Recorded d k ledger u r)
    (hl : ledger'.requests.lookup u.ptr = ledger.requests.lookup u.ptr) : Recorded d k ledger' u r :=
  ⟨hl.trans h.lookup, h.device, h.kind⟩

theorem Reported.arrive (h : Reported d k ledger clock reported opened pending) (hnow : clock ≤ now)
    (bytes : UInt64) (hptr : t.ptr ≠ 0) (hl : ledger.requests.lookup t.ptr = none) :
    Reported d k (requestArrived ledger d t bytes k now) now reported opened
      (pending ++ [t]) := by
  obtain ⟨hreq, hint⟩ := requestArrived_fresh (d := d) bytes k now hptr hl
  have hother : ∀ u : Payload, u.ptr ≠ t.ptr →
      (requestArrived ledger d t bytes k now).requests.lookup u.ptr =
        ledger.requests.lookup u.ptr := by
    intro u hu
    rw [hreq, AList.lookup_insert_ne hu]
  have hne : ∀ (u : Payload) r, Recorded d k ledger u r → u.ptr ≠ t.ptr := by
    intro u r hr he
    have hsome := hr.lookup
    rw [he, hl] at hsome
    exact absurd hsome (by simp)
  refine ⟨?_, h.proper, fun o ho => ?_, fun u hu => ?_, by rw [hint, h.intervals]⟩
  · rw [List.map_append, ← List.append_assoc]
    refine h.nodup.append (List.nodup_singleton _) ?_
    rw [List.map_singleton, List.disjoint_singleton]
    intro hmem
    rcases List.mem_append.mp hmem with hmem | hmem
    · obtain ⟨o, ho, he⟩ := List.mem_map.mp hmem
      obtain ⟨r, hr, -⟩ := h.started o ho
      exact hne o.job r hr he
    · obtain ⟨u, hu, he⟩ := List.mem_map.mp hmem
      obtain ⟨r, hr, -⟩ := h.waiting u hu
      exact hne u r hr he
  · obtain ⟨r, hr, hs⟩ := h.started o ho
    exact ⟨r, hr.of_lookup (hother _ (hne _ r hr)), hs⟩
  · rcases List.mem_append.mp hu with hu | hu
    · obtain ⟨r, hr, hs, ha⟩ := h.waiting u hu
      exact ⟨r, hr.of_lookup (hother _ (hne _ r hr)), hs, ha.trans (toNs_mono hnow)⟩
    · obtain rfl := List.mem_singleton.mp hu
      let r : Request := {device := d, bytes := bytes, pimCompute := k, arrivalNs := toNs now}
      have hlookup : (requestArrived ledger d u bytes k now).requests.lookup u.ptr =
          some r := by
        rw [hreq]
        exact AList.lookup_insert _
      exact ⟨r, ⟨hlookup, rfl, rfl⟩, Int.negSucc_lt_zero 0, le_refl (toNs now)⟩

theorem Reported.start (h : Reported d k ledger clock reported opened (t :: pending))
    (start done : Time) (hstart : clock ≤ start) (hdone : start ≤ done) (hnow : clock ≤ now)
    (channel : Int) :
    Reported d k (requestStarted ledger d t start channel) now reported
      (opened ++ [⟨start, done, t⟩]) pending := by
  obtain ⟨r, hr, hneg, harr⟩ := h.waiting t List.mem_cons_self
  obtain ⟨hreq, hint⟩ := requestStarted_open start channel hr.lookup hr.device hneg
  have hother : ∀ u : Payload, u.ptr ≠ t.ptr →
      (requestStarted ledger d t start channel).requests.lookup u.ptr =
        ledger.requests.lookup u.ptr := by
    intro u hu
    rw [hreq, AList.lookup_insert_ne hu]
  have hopened : ∀ o ∈ opened, o.job.ptr ≠ t.ptr := by
    intro o ho he
    have hnd := List.nodup_append.mp h.nodup
    exact hnd.2.2 _ (List.mem_map_of_mem ho) _ (by simp) he
  have hpending : ∀ u ∈ pending, u.ptr ≠ t.ptr := by
    intro u hu he
    have hnd := (List.nodup_append.mp h.nodup).2.1
    rw [List.map_cons, List.nodup_cons] at hnd
    exact hnd.1 (he ▸ List.mem_map_of_mem hu)
  refine ⟨by simpa using h.nodup, fun o ho => ?_, fun o ho => ?_, fun u hu => ?_,
    by rw [hint, h.intervals]⟩
  · rcases List.mem_append.mp ho with ho | ho
    · exact h.proper o ho
    · obtain rfl := List.mem_singleton.mp ho
      exact hdone
  · rcases List.mem_append.mp ho with ho | ho
    · obtain ⟨r', hr', hs⟩ := h.started o ho
      exact ⟨r', hr'.of_lookup (hother _ (hopened o ho)), hs⟩
    · obtain rfl := List.mem_singleton.mp ho
      let r' : Request :=
        {r with startNs := max r.arrivalNs (toNs start), channel := channel}
      have hlookup : (requestStarted ledger d t start channel).requests.lookup t.ptr =
          some r' := by
        rw [hreq]
        exact AList.lookup_insert _
      exact ⟨r', ⟨hlookup, hr.device, hr.kind⟩, max_eq_right (harr.trans (toNs_mono hstart))⟩
  · obtain ⟨r', hr', hs, ha⟩ := h.waiting u (List.mem_cons_of_mem t hu)
    exact ⟨r', hr'.of_lookup (hother _ (hpending u hu)), hs, ha.trans (toNs_mono hnow)⟩

/-- Starting a list of pending requests, front first. -/
theorem Reported.startAll (slots : List (Lib.Slot Time Payload)) (channel : Int)
    (h : Reported d k ledger clock reported opened (slots.map (·.job) ++ pending))
    (hslots : ∀ o ∈ slots, clock ≤ o.start ∧ o.start ≤ o.done) :
    Reported d k (applyAll ledger (slots.map fun o => .started d o.job o.start channel)) clock
      reported (opened ++ slots) pending := by
  induction slots generalizing ledger opened with
  | nil => simpa [applyAll] using h
  | cons o slots ih =>
    obtain ⟨hclock, hproper⟩ := hslots o List.mem_cons_self
    have hnext := ih (h.start o.start o.done hclock hproper le_rfl channel)
      fun o' ho' => hslots o' (List.mem_cons_of_mem o ho')
    simpa [applyAll, apply] using hnext

theorem Reported.complete {o : Lib.Slot Time Payload}
    (h : Reported d k ledger clock reported (o :: opened) pending) :
    Reported d k (requestCompleted ledger d o.job o.done) clock (reported ++ [o]) opened
      pending := by
  obtain ⟨r, hr, hs⟩ := h.started o List.mem_cons_self
  have hpos : 0 ≤ r.startNs := hs ▸ toNs_nonneg _
  obtain ⟨hreq, hint⟩ := requestCompleted_started o.done hr.lookup hr.device hpos
  have hnd := h.nodup
  rw [List.map_cons, List.cons_append, List.nodup_cons] at hnd
  have hother : ∀ u : Payload, u.ptr ∈ opened.map (·.job.ptr) ++ pending.map (·.ptr) →
      (requestCompleted ledger d o.job o.done).requests.lookup u.ptr =
        ledger.requests.lookup u.ptr := by
    intro u hu
    rw [hreq, AList.lookup_erase_ne]
    rintro he
    exact hnd.1 (he ▸ hu)
  refine ⟨hnd.2, fun o' ho' => h.proper o' (List.mem_cons_of_mem o ho'), fun o' ho' => ?_,
    fun u hu => ?_, ?_⟩
  · obtain ⟨r', hr', hs'⟩ := h.started o' (List.mem_cons_of_mem o ho')
    exact ⟨r', hr'.of_lookup (hother _ (List.mem_append_left _ (List.mem_map_of_mem ho'))), hs'⟩
  · obtain ⟨r', hr', hs'⟩ := h.waiting u hu
    exact ⟨r', hr'.of_lookup (hother _ (List.mem_append_right _ (List.mem_map_of_mem hu))), hs'⟩
  · have hend : max r.startNs (toNs o.done) = toNs o.done := by
      rw [hs]
      exact max_eq_right (toNs_mono (h.proper o List.mem_cons_self))
    rw [hint, if_pos ⟨rfl, hr.kind.symm⟩, h.intervals, hs, List.map_append, ← hs, hend, hs]
    rfl

/-- Reporting a list of finished slots, front first. -/
theorem Reported.completeAll (slots : List (Lib.Slot Time Payload))
    (h : Reported d k ledger clock reported (slots ++ opened) pending) :
    Reported d k (applyAll ledger (slots.map fun o => .completed d o.job o.done)) clock
      (reported ++ slots) opened pending := by
  induction slots generalizing ledger reported with
  | nil => simpa [applyAll] using h
  | cons o slots ih =>
    have hnext := ih h.complete
    simpa [applyAll, apply] using hnext

theorem Reported.later (h : Reported d k ledger clock reported opened pending) (hnow : clock ≤ now) :
    Reported d k ledger now reported opened pending := by
  refine ⟨h.nodup, h.proper, h.started, fun u hu => ?_, h.intervals⟩
  obtain ⟨r, hr, hs, ha⟩ := h.waiting u hu
  exact ⟨r, hr, hs, ha.trans (toNs_mono hnow)⟩

end Ledger

end Hsim.Metrics
