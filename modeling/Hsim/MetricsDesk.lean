import Hsim.MetricsBooked
import Mathlib.Algebra.Order.Group.Multiset

/-! The ledger against the modules that report to it.

A device has a desk: the requests that wait at it and those it serves. A request
comes to a desk once, is started, and is completed; that is the order in which a
module makes its calls (`Handles`). As long as no two requests at the desks share
a pointer, the ledger's table has a record for each of them and for nothing else
(`Desks`), and every completed memory request has been counted once, with the
bytes it was charged with on arrival (`Counted`). -/
namespace Hsim.Metrics

/-! ### What is counted -/

/-- The memory requests a sequence of calls completes at a device. -/
def completedOf (d : Device) (calls : List Call) : List Payload :=
  calls.filterMap fun
    | .completed device t _ => if device = d ∧ t.isPim = false then some t else none
    | _ => none

@[simp] theorem completedOf_nil (d : Device) : completedOf d [] = [] := rfl

@[simp] theorem completedOf_append (d : Device) (a b : List Call) :
    completedOf d (a ++ b) = completedOf d a ++ completedOf d b := List.filterMap_append

theorem completedOf_cons (d : Device) (c : Call) (calls : List Call) :
    completedOf d (c :: calls) = completedOf d [c] ++ completedOf d calls :=
  completedOf_append d [c] calls

theorem completedOf_aside (d : Device) {c : Call} (h : c.isRequest = false) :
    completedOf d [c] = [] := by
  cases c with
  | completed device t finish => simp [Call.isRequest] at h
  | _ => rfl

theorem completedOf_asides (d : Device) {calls : List Call} (h : ∀ c ∈ calls, c.isRequest = false) :
    completedOf d calls = [] := by
  induction calls with
  | nil => rfl
  | cons c calls ih =>
    obtain ⟨hc, hrest⟩ := List.forall_mem_cons.mp h
    rw [completedOf_cons, completedOf_aside d hc, ih hrest, List.append_nil]

/-- The device has counted `done` and nothing else. -/
structure Counted (ledger : State) (d : Device) (done : List Payload) : Prop where
  requests : (ledger.deviceStats d).memory.requests = done.length
  bytes : (ledger.deviceStats d).memory.bytes = (done.map Payload.chargedBytes).sum

theorem Counted.of_memory {ledger ledger' : State} {d : Device} {done : List Payload}
    (h : Counted ledger d done)
    (hr : (ledger'.deviceStats d).memory.requests = (ledger.deviceStats d).memory.requests)
    (hb : (ledger'.deviceStats d).memory.bytes = (ledger.deviceStats d).memory.bytes) :
    Counted ledger' d done :=
  ⟨hr.trans h.requests, hb.trans h.bytes⟩

theorem Counted.of_traffic {ledger ledger' : State} {d : Device} {done : List Payload}
    (h : Counted ledger d done)
    (ht : (ledger'.deviceStats d).traffic false = (ledger.deviceStats d).traffic false) :
    Counted ledger' d done := by
  have hmemory : (ledger'.deviceStats d).memory = (ledger.deviceStats d).memory := ht
  exact h.of_memory (by rw [hmemory]) (by rw [hmemory])

theorem Blank.counted {ledger : State} (h : Blank ledger) (d : Device) : Counted ledger d [] := by
  have hmemory : (ledger.deviceStats d).memory = {} := h.traffic d false
  exact ⟨by rw [hmemory]; rfl, by rw [hmemory]; rfl⟩

/-! ### The desks -/

/-- What the record of a request says of it. -/
structure Charged (t : Payload) (r : Request) : Prop where
  kind : r.pimCompute = t.isPim
  bytes : t.isPim = false → r.bytes = t.chargedBytes

/-- Every request at a desk has a record of its own, and there is no other record. -/
structure Desks (ledger : State) (waiting serving : Device → Multiset Payload) : Prop where
  booked : ∀ d, Booked d Charged Charged ledger (waiting d) (serving d)
  noStale : ∀ ptr, ledger.requests.lookup ptr ≠ none →
    ∃ d, ∃ t ∈ waiting d + serving d, t.ptr = ptr

theorem Blank.desks {ledger : State} (h : Blank ledger) : Desks ledger (fun _ => 0) fun _ => 0 := by
  refine ⟨fun d => Booked.empty d _ _ _, fun ptr hptr => ?_⟩
  rw [h.requests] at hptr
  exact absurd rfl hptr

section
variable {ledger : State} {waiting serving waiting' serving' : Device → Multiset Payload}
  {d : Device} {t : Payload}

/-- A call at one desk does not reach the records of another. -/
theorem foreign_of_device {c : Call} {d' : Device} (hd : d' ≠ d)
    (hc : ∀ r, ledger.requests.lookup t.ptr = some r → r.device = d)
    (hcall : (∃ bytes k now, c = .arrived d t bytes k now) ∨
      (∃ start channel, c = .started d t start channel) ∨ ∃ finish, c = .completed d t finish) :
    c.Foreign d' ledger := by
  have hother : ∀ r, ledger.requests.lookup t.ptr = some r → r.device ≠ d' :=
    fun r hr he => hd (he.symm.trans (hc r hr))
  rcases hcall with ⟨bytes, k, now, rfl⟩ | ⟨start, channel, rfl⟩ | ⟨finish, rfl⟩
  · exact ⟨hd.symm, hother⟩
  · exact ⟨hd.symm, hother⟩
  · exact ⟨hd.symm, hother⟩

theorem Desks.arrive (h : Desks ledger waiting serving) {bytes : UInt64} (now : Time)
    (hbytes : t.isPim = false → bytes = t.chargedBytes) (hptr : t.ptr ≠ 0)
    (hnew : ∀ d', ∀ u ∈ waiting d' + serving d', u.ptr ≠ t.ptr)
    (hw : waiting' d = t ::ₘ waiting d) (hs : serving' d = serving d)
    (hother : ∀ d', d' ≠ d → waiting' d' = waiting d' ∧ serving' d' = serving d') :
    Desks (requestArrived ledger d t bytes t.isPim now) waiting' serving' := by
  have hl : ledger.requests.lookup t.ptr = none := by
    by_contra hsome
    obtain ⟨d', u, hu, he⟩ := h.noStale t.ptr hsome
    exact hnew d' u hu he
  refine ⟨fun d' => ?_, fun ptr hp => ?_⟩
  · by_cases hd : d' = d
    · subst hd
      rw [hw, hs]
      exact (h.booked d').arrive bytes t.isPim now hptr hl ⟨rfl, hbytes⟩
    · obtain ⟨hw', hs'⟩ := hother d' hd
      rw [hw', hs']
      exact (h.booked d').foreign (foreign_of_device hd (by simp [hl]) (.inl ⟨bytes, t.isPim, now, rfl⟩))
  · by_cases he : ptr = t.ptr
    · refine ⟨d, t, ?_, he.symm⟩
      rw [hw, Multiset.cons_add]
      exact Multiset.mem_cons_self t _
    · rw [requestArrived_lookup_ne he] at hp
      obtain ⟨d', u, hu, hptr'⟩ := h.noStale ptr hp
      refine ⟨d', u, ?_, hptr'⟩
      by_cases hd : d' = d
      · rw [hd] at hu ⊢
        rw [hw, hs, Multiset.cons_add]
        exact Multiset.mem_cons_of_mem hu
      · rw [(hother d' hd).1, (hother d' hd).2]
        exact hu

theorem Desks.start (h : Desks ledger waiting serving) (start : Time) (channel : Int)
    (hw : waiting d = t ::ₘ waiting' d) (hs : serving' d = t ::ₘ serving d)
    (hother : ∀ d', d' ≠ d → waiting' d' = waiting d' ∧ serving' d' = serving d') :
    Desks (requestStarted ledger d t start channel) waiting' serving' := by
  have hbooked := h.booked d
  rw [hw] at hbooked
  obtain ⟨r, hr, -, -⟩ := hbooked.waiting t (Multiset.mem_cons_self t _)
  refine ⟨fun d' => ?_, fun ptr hp => ?_⟩
  · by_cases hd : d' = d
    · subst hd
      rw [hs]
      exact hbooked.start start channel fun r' _ _ hc => ⟨hc.kind, hc.bytes⟩
    · obtain ⟨hw', hs'⟩ := hother d' hd
      rw [hw', hs']
      refine (h.booked d').foreign (foreign_of_device hd (t := t) ?_ (.inr (.inl ⟨start, channel, rfl⟩)))
      intro r' hr'
      rw [hr.lookup, Option.some.injEq] at hr'
      rw [← hr']
      exact hr.device
  · have hold : ledger.requests.lookup ptr ≠ none := by
      by_cases he : ptr = t.ptr
      · rw [he, hr.lookup]
        simp
      · rwa [requestStarted_lookup_ne he] at hp
    obtain ⟨d', u, hu, hptr⟩ := h.noStale ptr hold
    refine ⟨d', u, ?_, hptr⟩
    by_cases hd : d' = d
    · rw [hd, hw, Multiset.cons_add] at hu
      rw [hd, hs, Multiset.add_cons]
      exact hu
    · rw [(hother d' hd).1, (hother d' hd).2]
      exact hu

theorem Desks.complete (h : Desks ledger waiting serving) (finish : Time)
    (hw : waiting' d = waiting d) (hs : serving d = t ::ₘ serving' d)
    (hother : ∀ d', d' ≠ d → waiting' d' = waiting d' ∧ serving' d' = serving d') :
    Desks (requestCompleted ledger d t finish) waiting' serving' := by
  have hbooked := h.booked d
  rw [hs] at hbooked
  obtain ⟨r, hr, hpos, -⟩ := hbooked.serving t (Multiset.mem_cons_self t _)
  refine ⟨fun d' => ?_, fun ptr hp => ?_⟩
  · by_cases hd : d' = d
    · subst hd
      rw [hw]
      exact hbooked.complete finish
    · obtain ⟨hw', hs'⟩ := hother d' hd
      rw [hw', hs']
      refine (h.booked d').foreign (foreign_of_device hd (t := t) ?_ (.inr (.inr ⟨finish, rfl⟩)))
      intro r' hr'
      rw [hr.lookup, Option.some.injEq] at hr'
      rw [← hr']
      exact hr.device
  · have hne : ptr ≠ t.ptr := by
      rintro rfl
      rw [(requestCompleted_started finish hr.lookup hr.device hpos).1, AList.lookup_erase] at hp
      exact hp rfl
    rw [requestCompleted_lookup_ne hne] at hp
    obtain ⟨d', u, hu, hptr⟩ := h.noStale ptr hp
    refine ⟨d', u, ?_, hptr⟩
    by_cases hd : d' = d
    · rw [hd, hs, Multiset.add_cons] at hu
      rw [hd, hw]
      rcases Multiset.mem_cons.mp hu with rfl | hu
      · exact absurd hptr.symm hne
      · exact hu
    · rw [(hother d' hd).1, (hother d' hd).2]
      exact hu

theorem Desks.aside (h : Desks ledger waiting serving) {c : Call} (hc : c.isRequest = false) :
    Desks (apply ledger c) waiting serving := by
  have hsame := (apply_aside ledger hc).1
  refine ⟨fun d => (h.booked d).of_lookup fun t _ => by rw [hsame], fun ptr hp => ?_⟩
  rw [hsame] at hp
  exact h.noStale ptr hp

end

/-! ### What a module does with its requests -/

/-- The calls of a module of device `d` that move its requests on: `w` and `s` are what waits
and what is in service before them, `w'` and `s'` after. -/
inductive Handles (d : Device) : Multiset Payload → Multiset Payload → List Call →
    Multiset Payload → Multiset Payload → Prop where
  | nil (w s : Multiset Payload) : Handles d w s [] w s
  | start {w s w' s' : Multiset Payload} {calls : List Call} (t : Payload) (start : Time)
    (channel : Int) : Handles d w (t ::ₘ s) calls w' s' →
    Handles d (t ::ₘ w) s (.started d t start channel :: calls) w' s'
  | complete {w s w' s' : Multiset Payload} {calls : List Call} (t : Payload) (finish : Time) :
    Handles d w s calls w' s' → Handles d w (t ::ₘ s) (.completed d t finish :: calls) w' s'
  | aside {w s w' s' : Multiset Payload} {calls : List Call} (c : Call) : c.isRequest = false →
    Handles d w s calls w' s' → Handles d w s (c :: calls) w' s'

section
variable {d : Device} {w s w₁ s₁ w' s' : Multiset Payload} {calls calls' : List Call}

theorem Handles.append (h : Handles d w s calls w₁ s₁) (h' : Handles d w₁ s₁ calls' w' s') :
    Handles d w s (calls ++ calls') w' s' := by
  induction h with
  | nil w s => exact h'
  | start t start channel _ ih => exact .start t start channel (ih h')
  | complete t finish _ ih => exact .complete t finish (ih h')
  | aside c hc _ ih => exact .aside c hc (ih h')

theorem handles_asides (hcalls : ∀ c ∈ calls, c.isRequest = false) : Handles d w s calls w s := by
  induction calls with
  | nil => exact .nil w s
  | cons c calls ih =>
    obtain ⟨hc, hrest⟩ := List.forall_mem_cons.mp hcalls
    exact .aside c hc (ih hrest)

theorem handles_completeAll (done : List (Time × Payload)) :
    Handles d w ((done.map (·.2) : List Payload) + s)
      (done.map fun e => .completed d e.2 e.1) w s := by
  induction done with
  | nil =>
    rw [List.map_nil, Multiset.coe_nil, zero_add]
    exact .nil w s
  | cons e done ih =>
    rw [List.map_cons, ← Multiset.cons_coe, Multiset.cons_add]
    exact .complete e.2 e.1 ih

/-- What is completed comes from the desk, and the rest stays there. -/
theorem Handles.balance (h : Handles d w s calls w' s') :
    (w + s).filter (fun t => t.isPim = false) =
      (completedOf d calls : Multiset Payload) + (w' + s').filter (fun t => t.isPim = false) := by
  induction h with
  | nil w s => rw [completedOf_nil, Multiset.coe_nil, zero_add]
  | start t start channel _ ih =>
    rw [Multiset.cons_add, ← Multiset.add_cons, ih]
    rfl
  | complete t finish _ ih =>
    rw [Multiset.add_cons, completedOf_cons, ← Multiset.coe_add, add_assoc, ← ih]
    cases hk : t.isPim with
    | false => simp [completedOf, hk]
    | true => simp [completedOf, hk]
  | aside c hc _ ih =>
    rw [ih, completedOf_cons, completedOf_aside d hc, List.nil_append]

theorem Handles.le (h : Handles d w s calls w' s') : w' + s' ≤ w + s := by
  induction h with
  | nil w s => exact le_rfl
  | start t start channel _ ih =>
    rw [Multiset.cons_add, ← Multiset.add_cons]
    exact ih
  | complete t finish _ ih =>
    rw [Multiset.add_cons]
    exact ih.trans (Multiset.le_cons_self _ t)
  | aside c hc _ ih => exact ih

/-- Nothing is completed at another desk. -/
theorem Handles.elsewhere (h : Handles d w s calls w' s') {d' : Device} (hd : d' ≠ d) :
    completedOf d' calls = [] := by
  induction h with
  | nil w s => rfl
  | start t start channel _ ih => exact ih
  | complete t finish _ ih =>
    rw [completedOf_cons, ih, List.append_nil]
    simp [completedOf, hd.symm]
  | aside c hc _ ih => rw [completedOf_cons, completedOf_aside d' hc, ih, List.append_nil]

end

/-! ### The ledger follows the desks -/

/-- The ledger against the desks and what each has completed. -/
structure Tallied (ledger : State) (waiting serving : Device → Multiset Payload)
    (done : Device → List Payload) : Prop where
  desks : Desks ledger waiting serving
  counted : ∀ d, Counted ledger d (done d)

theorem Blank.tallied {ledger : State} (h : Blank ledger) :
    Tallied ledger (fun _ => 0) (fun _ => 0) fun _ => [] :=
  ⟨h.desks, h.counted⟩

section
variable {ledger : State} {waiting serving : Device → Multiset Payload}
  {done : Device → List Payload} {d : Device} {t : Payload}

theorem Tallied.arrive (h : Tallied ledger waiting serving done) {bytes : UInt64} {k : Bool}
    (now : Time) (hk : k = t.isPim) (hbytes : t.isPim = false → bytes = t.chargedBytes)
    (hptr : t.ptr ≠ 0) (hnew : ∀ d', ∀ u ∈ waiting d' + serving d', u.ptr ≠ t.ptr) :
    Tallied (requestArrived ledger d t bytes k now) (Function.update waiting d (t ::ₘ waiting d))
      serving done := by
  subst hk
  refine ⟨h.desks.arrive now hbytes hptr hnew (Function.update_self _ _ _) rfl fun d' hd => ?_,
    fun d' => (h.counted d').of_traffic (requestArrived_traffic ..)⟩
  exact ⟨Function.update_of_ne hd _ _, rfl⟩

theorem Tallied.aside (h : Tallied ledger waiting serving done) {c : Call} (hc : c.isRequest = false) :
    Tallied (apply ledger c) waiting serving done := by
  refine ⟨h.desks.aside hc, fun d' => (h.counted d').of_traffic ?_⟩
  rw [(apply_aside ledger hc).2]

theorem Tallied.start (h : Tallied ledger waiting serving done) (start : Time) (channel : Int)
    {w : Multiset Payload} (hw : waiting d = t ::ₘ w) :
    Tallied (requestStarted ledger d t start channel) (Function.update waiting d w)
      (Function.update serving d (t ::ₘ serving d)) done := by
  refine ⟨h.desks.start start channel ?_ (Function.update_self _ _ _) fun d' hd => ?_, fun d' => ?_⟩
  · rw [Function.update_self]
    exact hw
  · exact ⟨Function.update_of_ne hd _ _, Function.update_of_ne hd _ _⟩
  · have ht : t ∈ waiting d := by
      rw [hw]
      exact Multiset.mem_cons_self t w
    obtain ⟨r, hr, hneg, -⟩ := (h.desks.booked d).waiting t ht
    have htraffic := requestStarted_traffic start channel hr.lookup hr.device hneg d' false
    have hcounted := h.counted d'
    split at htraffic
    · have hmemory : ((requestStarted ledger d t start channel).deviceStats d').memory =
          (ledger.deviceStats d').memory.wait _ := htraffic
      exact hcounted.of_memory (by rw [hmemory]; rfl) (by rw [hmemory]; rfl)
    · exact hcounted.of_traffic htraffic

/-- A completed memory request is counted with the bytes of its record. -/
theorem Tallied.complete (h : Tallied ledger waiting serving done) (finish : Time)
    {s : Multiset Payload} (hs : serving d = t ::ₘ s) :
    Tallied (requestCompleted ledger d t finish) waiting (Function.update serving d s)
      fun d' => done d' ++ completedOf d' [.completed d t finish] := by
  refine ⟨h.desks.complete finish rfl ?_ fun d' hd => ?_, fun d' => ?_⟩
  · rw [Function.update_self]
    exact hs
  · exact ⟨rfl, Function.update_of_ne hd _ _⟩
  · have ht : t ∈ serving d := by
      rw [hs]
      exact Multiset.mem_cons_self t s
    obtain ⟨r, hr, hpos, hcharged⟩ := (h.desks.booked d).serving t ht
    have htraffic := requestCompleted_traffic finish hr.lookup hr.device hpos d' false
    have hcounted := h.counted d'
    by_cases hcount : d = d' ∧ t.isPim = false
    · obtain ⟨rfl, hk⟩ := hcount
      have hone : completedOf d [.completed d t finish] = [t] := by simp [completedOf, hk]
      rw [if_pos ⟨rfl, (hcharged.kind.trans hk).symm⟩] at htraffic
      have hmemory : ((requestCompleted ledger d t finish).deviceStats d).memory =
          (ledger.deviceStats d).memory.serve r.bytes _ := htraffic
      rw [hone]
      constructor
      · rw [hmemory, List.length_append, ← hcounted.requests]
        rfl
      · rw [hmemory, List.map_append, List.sum_append, ← hcounted.bytes, List.map_singleton,
          List.sum_singleton, ← hcharged.bytes hk]
        rfl
    · have hnone : completedOf d' [.completed d t finish] = [] := by simp [completedOf, hcount]
      rw [hnone, List.append_nil]
      refine hcounted.of_traffic ?_
      rw [htraffic, if_neg]
      rintro ⟨rfl, hk⟩
      exact hcount ⟨rfl, (hk.trans hcharged.kind).symm⟩

/-- **The ledger follows a module.** -/
theorem Tallied.handles {w s w' s' : Multiset Payload} {calls : List Call}
    (hh : Handles d w s calls w' s') (h : Tallied ledger waiting serving done)
    (hw : waiting d = w) (hs : serving d = s) :
    Tallied (applyAll ledger calls) (Function.update waiting d w') (Function.update serving d s')
      fun d' => done d' ++ completedOf d' calls := by
  induction hh generalizing ledger waiting serving done with
  | nil w s =>
    rw [← hw, ← hs, Function.update_eq_self, Function.update_eq_self]
    simpa [applyAll] using h
  | start t start channel _ ih =>
    have hnext := ih (h.start start channel hw) (Function.update_self _ _ _)
      (by rw [Function.update_self, hs])
    rw [Function.update_idem, Function.update_idem] at hnext
    exact hnext
  | complete t finish _ ih =>
    have hnext := ih (h.complete finish hs) hw (Function.update_self _ _ _)
    rw [Function.update_idem] at hnext
    simp only [List.append_assoc, ← completedOf_cons] at hnext
    exact hnext
  | aside c hc _ ih =>
    have hnext := ih (h.aside hc) hw hs
    have hsame : ∀ d' calls, completedOf d' (c :: calls) = completedOf d' calls := by
      intro d' calls
      rw [completedOf_cons, completedOf_aside d' hc, List.nil_append]
    simp only [hsame]
    exact hnext

end

end Hsim.Metrics
