import Hsim.MetricsService

/-! Open requests and exact totals.

A wrapper that serves requests in any order keeps two sets: those that wait and
those in service. Each has an open record in the ledger, under a pointer of its
own. What a claim needs to know about a record is a parameter: `W` for the
waiting ones, `S` for those in service.

The counters of the ledger are 64 bits wide. What they count is a number, and
the counter is that number in 64 bits. -/
namespace Hsim.Metrics

/-! ### What a call does to the traffic of a device -/

@[simp] theorem requestArrived_traffic (s : State) (d : Device) (t : Payload) (bytes : UInt64)
    (k : Bool) (now : Time) (d' : Device) (k' : Bool) :
    ((requestArrived s d t bytes k now).deviceStats d').traffic k' =
      (s.deviceStats d').traffic k' := by
  unfold requestArrived
  split
  · rfl
  · split
    · rfl
    · simp

theorem requestStarted_traffic {s : State} {d : Device} {t : Payload} {r : Request} (start : Time)
    (channel : Int) (hl : s.requests.lookup t.ptr = some r) (hd : r.device = d)
    (hr : r.startNs < 0) (d' : Device) (k' : Bool) :
    ((requestStarted s d t start channel).deviceStats d').traffic k' =
      if d' = d ∧ k' = r.pimCompute then
        ((s.deviceStats d').traffic k').wait
          (UInt64.ofNat (max r.arrivalNs (toNs start) - r.arrivalNs).toNat)
      else (s.deviceStats d').traffic k' := by
  unfold requestStarted
  rw [hl]
  dsimp only
  rw [if_neg (by simp [hd, hr])]
  simp only [deviceStats_setRequests, deviceStats_setDevice]
  by_cases hd' : d' = d
  · subst hd'
    by_cases hk : k' = r.pimCompute
    · simp [hk]
    · simp [hk]
  · simp [hd']

theorem requestCompleted_traffic {s : State} {d : Device} {t : Payload} {r : Request}
    (finish : Time) (hl : s.requests.lookup t.ptr = some r) (hd : r.device = d)
    (hr : 0 ≤ r.startNs) (d' : Device) (k' : Bool) :
    ((requestCompleted s d t finish).deviceStats d').traffic k' =
      if d' = d ∧ k' = r.pimCompute then
        ((s.deviceStats d').traffic k').serve r.bytes ⟨r.startNs, max r.startNs (toNs finish)⟩
      else (s.deviceStats d').traffic k' := by
  unfold requestCompleted
  rw [hl]
  dsimp only
  rw [if_neg (by simp [hd, hr])]
  have hview : ∀ s' : State, (if r.pimCompute = true then
      s'.recordPimCompute t ⟨r.startNs, max r.startNs (toNs finish)⟩ else s').deviceStats d' =
        s'.deviceStats d' := by
    intro s'
    split <;> simp
  rw [hview]
  simp only [deviceStats_setRequests, deviceStats_setDevice]
  by_cases hd' : d' = d
  · subst hd'
    by_cases hk : k' = r.pimCompute
    · simp [hk]
    · simp [hk]
  · simp [hd']

/-- A start that finds no waiting request of its device is ignored. -/
theorem requestStarted_ignored {s : State} {d : Device} {t : Payload} (start : Time) (channel : Int)
    (h : ∀ r, s.requests.lookup t.ptr = some r → r.device ≠ d ∨ 0 ≤ r.startNs) :
    requestStarted s d t start channel = s := by
  unfold requestStarted
  cases hl : s.requests.lookup t.ptr with
  | none => rfl
  | some r => simp only [if_pos (h r hl)]

/-- A completion that finds no started request of its device only drops the record. -/
theorem requestCompleted_ignored {s : State} {d : Device} {t : Payload} (finish : Time)
    (h : ∀ r, s.requests.lookup t.ptr = some r → r.device ≠ d ∨ r.startNs < 0) :
    requestCompleted s d t finish = s.setRequests (s.requests.erase t.ptr) := by
  unfold requestCompleted
  cases hl : s.requests.lookup t.ptr with
  | none =>
    have hnot : t.ptr ∉ s.requests := AList.lookup_eq_none.mp hl
    have hsame : s.requests.erase t.ptr = s.requests := by
      apply AList.ext
      exact List.kerase_of_notMem_keys hnot
    rw [hsame]
    rfl
  | some r => simp only [if_pos (h r hl)]

/-! ### What a call does to the records of others -/

section LookupNe

variable {s : State} {d : Device} {t : Payload} {ptr : Nat}

theorem requestArrived_lookup_ne (h : ptr ≠ t.ptr) (bytes : UInt64) (k : Bool) (now : Time) :
    (requestArrived s d t bytes k now).requests.lookup ptr = s.requests.lookup ptr := by
  unfold requestArrived
  split
  · rfl
  · split
    · rfl
    · rw [setRequests_requests, AList.lookup_insert_ne h]

theorem requestStarted_lookup_ne (h : ptr ≠ t.ptr) (start : Time) (channel : Int) :
    (requestStarted s d t start channel).requests.lookup ptr = s.requests.lookup ptr := by
  unfold requestStarted
  split
  · rfl
  · split
    · rfl
    · rw [setRequests_requests, AList.lookup_insert_ne h]

theorem requestCompleted_lookup_ne (h : ptr ≠ t.ptr) (finish : Time) :
    (requestCompleted s d t finish).requests.lookup ptr = s.requests.lookup ptr := by
  have herase : (s.requests.erase t.ptr).lookup ptr = s.requests.lookup ptr :=
    AList.lookup_erase_ne h
  unfold requestCompleted
  split
  · rfl
  · dsimp only
    split
    · exact herase
    · split <;> simpa using herase

end LookupNe

/-! ### Exact totals -/

/-- The wait a call adds to the traffic of a device and kind, before it is cut to 64
bits. -/
def Call.waitNs (s : State) (d : Device) (k : Bool) : Call → Nat
  | .started device t start _ =>
    match s.requests.lookup t.ptr with
    | none => 0
    | some r =>
      if device = d ∧ r.device = d ∧ r.pimCompute = k ∧ r.startNs < 0 then
        (max r.arrivalNs (toNs start) - r.arrivalNs).toNat
      else 0
  | _ => 0

/-- The waits of a sequence of calls. -/
def waitedNs (d : Device) (k : Bool) (s : State) : List Call → Nat
  | [] => 0
  | c :: calls => c.waitNs s d k + waitedNs d k (apply s c) calls

/-- The stall a call reports for compute commands (`true`) or for the target's memory
traffic. -/
def Call.stallNs (k : Bool) : Call → Nat
  | .stall start finish draftCompute =>
    if draftCompute = k then (toNs finish - toNs start).toNat else 0
  | _ => 0

def stalledNs (k : Bool) (calls : List Call) : Nat := (calls.map (Call.stallNs k)).sum

/-- `pim_draft_compute_resource_stall_ns_` or `pim_target_memory_resource_stall_ns_`. -/
def State.resourceStallNs (s : State) (k : Bool) : UInt64 :=
  if k then s.pimDraftComputeResourceStallNs else s.pimTargetMemoryResourceStallNs

theorem waitedNs_append (d : Device) (k : Bool) (s : State) (a b : List Call) :
    waitedNs d k s (a ++ b) = waitedNs d k s a + waitedNs d k (applyAll s a) b := by
  induction a generalizing s with
  | nil => simp [waitedNs, applyAll]
  | cons c a ih =>
    simp only [List.cons_append, waitedNs, ih, Nat.add_assoc]
    rfl

theorem stalledNs_append (k : Bool) (a b : List Call) :
    stalledNs k (a ++ b) = stalledNs k a + stalledNs k b := by
  simp [stalledNs]

theorem Call.waitNs_of_not_started {s : State} {d : Device} {k : Bool} {c : Call}
    (h : ∀ d t start channel, c ≠ .started d t start channel) : c.waitNs s d k = 0 := by
  cases c with
  | started d t start channel => exact absurd rfl (h d t start channel)
  | _ => rfl

theorem queueWaitNs_started (d : Device) (k : Bool) (s : State) (device : Device) (t : Payload)
    (start : Time) (channel : Int) :
    (((requestStarted s device t start channel).deviceStats d).traffic k).queueWaitNs =
      ((s.deviceStats d).traffic k).queueWaitNs +
        UInt64.ofNat ((Call.started device t start channel).waitNs s d k) := by
  simp only [Call.waitNs]
  cases hl : s.requests.lookup t.ptr with
  | none =>
    rw [requestStarted_ignored start channel (by simp [hl])]
    simp
  | some r =>
    by_cases hopen : r.device = device ∧ r.startNs < 0
    · rw [requestStarted_traffic start channel hl hopen.1 hopen.2]
      by_cases hk : d = device ∧ k = r.pimCompute
      · obtain ⟨rfl, rfl⟩ := hk
        simp [TrafficStats.wait, hopen.1, hopen.2]
      · have hno : ¬ (device = d ∧ r.device = d ∧ r.pimCompute = k ∧ r.startNs < 0) :=
          fun h => hk ⟨h.1.symm, h.2.2.1.symm⟩
        simp [hk, hno]
    · have hno : ¬ (device = d ∧ r.device = d ∧ r.pimCompute = k ∧ r.startNs < 0) :=
        fun h => hopen ⟨h.2.1.trans h.1.symm, h.2.2.2⟩
      rw [requestStarted_ignored start channel]
      · simp [hno]
      · intro r' hr'
        rw [hl, Option.some.injEq] at hr'
        subst hr'
        by_cases hd : r.device = device
        · exact .inr (not_lt.mp fun hneg => hopen ⟨hd, hneg⟩)
        · exact .inl hd

theorem queueWaitNs_completed (d : Device) (k : Bool) (s : State) (device : Device) (t : Payload)
    (finish : Time) :
    (((requestCompleted s device t finish).deviceStats d).traffic k).queueWaitNs =
      ((s.deviceStats d).traffic k).queueWaitNs := by
  by_cases hopen : ∃ r, s.requests.lookup t.ptr = some r ∧ r.device = device ∧ 0 ≤ r.startNs
  · obtain ⟨r, hl, hd, hr⟩ := hopen
    rw [requestCompleted_traffic finish hl hd hr]
    split <;> rfl
  · rw [requestCompleted_ignored finish]
    · simp
    · intro r hr
      by_cases hd : r.device = device
      · exact .inr (not_le.mp fun h => hopen ⟨r, hr, hd, h⟩)
      · exact .inl hd

theorem queueWaitNs_apply (d : Device) (k : Bool) (s : State) (c : Call) :
    (((apply s c).deviceStats d).traffic k).queueWaitNs =
      ((s.deviceStats d).traffic k).queueWaitNs + UInt64.ofNat (c.waitNs s d k) := by
  by_cases hreq : c.isRequest = false
  · rw [(apply_aside s hreq).2, Call.waitNs_of_not_started]
    · simp
    · rintro d t start channel rfl
      simp [Call.isRequest] at hreq
  · cases c with
    | arrived device t bytes pimCompute now => simp [apply, Call.waitNs]
    | started device t start channel => exact queueWaitNs_started d k s device t start channel
    | completed device t finish =>
      rw [apply, queueWaitNs_completed, Call.waitNs_of_not_started (by simp)]
      simp
    | _ => exact absurd rfl hreq

/-- The counter is the total wait, in 64 bits. -/
theorem queueWaitNs_applyAll (d : Device) (k : Bool) (s : State) (calls : List Call) :
    (((applyAll s calls).deviceStats d).traffic k).queueWaitNs =
      ((s.deviceStats d).traffic k).queueWaitNs + UInt64.ofNat (waitedNs d k s calls) := by
  induction calls generalizing s with
  | nil => simp [applyAll, waitedNs]
  | cons c calls ih =>
    have hstep := ih (apply s c)
    rw [queueWaitNs_apply] at hstep
    rw [waitedNs, UInt64.ofNat_add, ← UInt64.add_assoc]
    exact hstep

theorem resourceStallNs_stall (k : Bool) (s : State) (start finish : Time) (draft : Bool) :
    (recordPimResourceStall s start finish draft).resourceStallNs k =
      s.resourceStallNs k + UInt64.ofNat ((Call.stall start finish draft).stallNs k) := by
  unfold recordPimResourceStall
  simp only [Call.stallNs]
  split
  · rename_i hle
    have hzero : (toNs finish - toNs start).toNat = 0 := by omega
    simp [hzero]
  · cases draft <;> cases k <;> simp [State.resourceStallNs]

theorem resourceStallNs_apply (k : Bool) (s : State) (c : Call) :
    (apply s c).resourceStallNs k = s.resourceStallNs k + UInt64.ofNat (c.stallNs k) := by
  cases c with
  | stall start finish draft => exact resourceStallNs_stall k s start finish draft
  | arrived device t bytes pimCompute now =>
    simp only [apply, Call.stallNs, requestArrived]
    split <;> (try split) <;> simp [State.resourceStallNs, State.setRequests]
  | started device t start channel =>
    simp only [apply, Call.stallNs, requestStarted]
    split <;> (try split) <;> cases device <;>
      simp [State.resourceStallNs, State.setRequests, State.setDevice]
  | completed device t finish =>
    simp only [apply, Call.stallNs, requestCompleted]
    split <;> (try split) <;> (try split) <;> cases device <;>
      simp [State.resourceStallNs, State.setRequests, State.setDevice, State.recordPimCompute]
  | npuInterval start finish =>
    simp only [apply, Call.stallNs, recordNpuInterval]
    split <;> simp [State.resourceStallNs]
  | npuComputeInterval start finish =>
    simp only [apply, Call.stallNs, recordNpuComputeInterval]
    split <;> simp [State.resourceStallNs]
  | beginEpisode id launch =>
    simp only [apply, Call.stallNs, beginParallelEpisode]
    split <;> simp [State.resourceStallNs]
  | npuEpisode id finish =>
    simp only [apply, Call.stallNs, completeParallelNpuEpisode, completeEpisode]
    split <;> simp [State.resourceStallNs]
  | pimEpisode id finish =>
    simp only [apply, Call.stallNs, completeParallelPimEpisode, completeEpisode]
    split <;> simp [State.resourceStallNs]

/-- The counter is the total stall, in 64 bits. -/
theorem resourceStallNs_applyAll (k : Bool) (s : State) (calls : List Call) :
    (applyAll s calls).resourceStallNs k =
      s.resourceStallNs k + UInt64.ofNat (stalledNs k calls) := by
  induction calls generalizing s with
  | nil => simp [applyAll, stalledNs]
  | cons c calls ih =>
    have hstep := ih (apply s c)
    rw [resourceStallNs_apply] at hstep
    rw [stalledNs, List.map_cons, List.sum_cons, UInt64.ofNat_add, ← UInt64.add_assoc]
    exact hstep

theorem configured_resourceStallNs (setup : List (Device × UInt32 × String)) (k : Bool) :
    (configured setup).resourceStallNs k = 0 := by
  have hconfigure : ∀ (s : State) (c : Device × UInt32 × String),
      (configure s c.1 c.2.1 c.2.2).resourceStallNs k = s.resourceStallNs k := by
    intro s c
    simp only [configure]
    cases c.1 <;> rfl
  unfold configured
  induction setup using List.reverseRecOn with
  | nil => cases k <;> rfl
  | append_singleton setup c ih => rw [List.foldl_append, List.foldl_cons, List.foldl_nil, hconfigure, ih]

/-! ### Open requests -/

/-- The open record under which the ledger knows a request of device `d`. -/
structure OpenRecord (d : Device) (ledger : State) (t : Payload) (r : Request) : Prop where
  lookup : ledger.requests.lookup t.ptr = some r
  device : r.device = d

/-- Every request of a device that waits or is in service has an open record of its own. -/
structure Booked (d : Device) (W S : Payload → Request → Prop) (ledger : State)
    (waiting serving : Multiset Payload) : Prop where
  nodup : ((waiting + serving).map (·.ptr)).Nodup
  waiting : ∀ t ∈ waiting, ∃ r, OpenRecord d ledger t r ∧ r.startNs < 0 ∧ W t r
  serving : ∀ t ∈ serving, ∃ r, OpenRecord d ledger t r ∧ 0 ≤ r.startNs ∧ S t r

section Booked

variable {d : Device} {W S W' S' : Payload → Request → Prop} {ledger ledger' : State}
  {waiting serving : Multiset Payload} {t : Payload}

theorem OpenRecord.of_lookup {u : Payload} {r : Request} (h : OpenRecord d ledger u r)
    (hl : ledger'.requests.lookup u.ptr = ledger.requests.lookup u.ptr) : OpenRecord d ledger' u r :=
  ⟨hl.trans h.lookup, h.device⟩

theorem Booked.isOpen (h : Booked d W S ledger waiting serving) (ht : t ∈ waiting + serving) :
    ∃ r, OpenRecord d ledger t r := by
  rcases Multiset.mem_add.mp ht with ht | ht
  · obtain ⟨r, hr, -⟩ := h.waiting t ht
    exact ⟨r, hr⟩
  · obtain ⟨r, hr, -⟩ := h.serving t ht
    exact ⟨r, hr⟩

/-- A waiting request and one in service have different pointers. -/
theorem Booked.ptr_ne (h : Booked d W S ledger waiting serving) {u : Payload} (ht : t ∈ waiting)
    (hu : u ∈ serving) : t.ptr ≠ u.ptr := by
  intro he
  have hnodup := h.nodup
  rw [Multiset.map_add, Multiset.nodup_add] at hnodup
  exact Multiset.disjoint_left.mp hnodup.2.2 (Multiset.mem_map_of_mem (·.ptr) ht)
    (he ▸ Multiset.mem_map_of_mem (·.ptr) hu)

/-- A ledger that knows the same records. -/
theorem Booked.of_lookup (h : Booked d W S ledger waiting serving)
    (hl : ∀ t ∈ waiting + serving, ledger'.requests.lookup t.ptr = ledger.requests.lookup t.ptr) :
    Booked d W S ledger' waiting serving := by
  refine ⟨h.nodup, fun t ht => ?_, fun t ht => ?_⟩
  · obtain ⟨r, hr, hw⟩ := h.waiting t ht
    exact ⟨r, hr.of_lookup (hl t (Multiset.mem_add.mpr (.inl ht))), hw⟩
  · obtain ⟨r, hr, hs⟩ := h.serving t ht
    exact ⟨r, hr.of_lookup (hl t (Multiset.mem_add.mpr (.inr ht))), hs⟩

theorem Booked.weaken (h : Booked d W S ledger waiting serving)
    (hw : ∀ t ∈ waiting, ∀ r, r.startNs < 0 → W t r → W' t r)
    (hs : ∀ t ∈ serving, ∀ r, S t r → S' t r) : Booked d W' S' ledger waiting serving := by
  refine ⟨h.nodup, fun t ht => ?_, fun t ht => ?_⟩
  · obtain ⟨r, hr, hneg, hwr⟩ := h.waiting t ht
    exact ⟨r, hr, hneg, hw t ht r hneg hwr⟩
  · obtain ⟨r, hr, hpos, hsr⟩ := h.serving t ht
    exact ⟨r, hr, hpos, hs t ht r hsr⟩

theorem Booked.empty (d : Device) (W S : Payload → Request → Prop) (ledger : State) :
    Booked d W S ledger 0 0 :=
  ⟨by simp, by simp, by simp⟩

theorem Booked.arrive (h : Booked d W S ledger waiting serving) (bytes : UInt64) (k : Bool)
    (now : Time) (hptr : t.ptr ≠ 0) (hl : ledger.requests.lookup t.ptr = none)
    (hw : W t {device := d, bytes := bytes, pimCompute := k, arrivalNs := toNs now}) :
    Booked d W S (requestArrived ledger d t bytes k now) (t ::ₘ waiting) serving := by
  obtain ⟨hreq, -⟩ := requestArrived_fresh (d := d) bytes k now hptr hl
  have hne : ∀ u ∈ waiting + serving, u.ptr ≠ t.ptr := by
    intro u hu he
    obtain ⟨r, hr⟩ := h.isOpen hu
    have hsome := hr.lookup
    rw [he, hl] at hsome
    exact absurd hsome (by simp)
  have hkept := h.of_lookup fun u hu => requestArrived_lookup_ne (hne u hu) (d := d) bytes k now
  refine ⟨?_, fun u hu => ?_, hkept.serving⟩
  · rw [Multiset.cons_add, Multiset.map_cons, Multiset.nodup_cons]
    refine ⟨fun hmem => ?_, h.nodup⟩
    obtain ⟨u, hu, he⟩ := Multiset.mem_map.mp hmem
    exact hne u hu he
  · rcases Multiset.mem_cons.mp hu with rfl | hu
    · refine ⟨_, ⟨?_, rfl⟩, Int.negSucc_lt_zero 0, hw⟩
      rw [hreq]
      exact AList.lookup_insert _
    · exact hkept.waiting u hu

theorem Booked.start (h : Booked d W S ledger (t ::ₘ waiting) serving) (start : Time)
    (channel : Int)
    (hs : ∀ r, r.device = d → r.startNs < 0 → W t r →
      S t {r with startNs := max r.arrivalNs (toNs start), channel := channel}) :
    Booked d W S (requestStarted ledger d t start channel) waiting (t ::ₘ serving) := by
  obtain ⟨r, hr, hneg, hw⟩ := h.waiting t (Multiset.mem_cons_self t waiting)
  obtain ⟨hreq, -⟩ := requestStarted_open start channel hr.lookup hr.device hneg
  have hnodup := h.nodup
  rw [Multiset.cons_add, Multiset.map_cons, Multiset.nodup_cons] at hnodup
  have hne : ∀ u ∈ waiting + serving, u.ptr ≠ t.ptr := by
    intro u hu he
    exact hnodup.1 (Multiset.mem_map.mpr ⟨u, hu, he⟩)
  have hrest : Booked d W S ledger waiting serving :=
    ⟨hnodup.2, fun u hu => h.waiting u (Multiset.mem_cons_of_mem hu), h.serving⟩
  have hkept := hrest.of_lookup fun u hu =>
    requestStarted_lookup_ne (hne u hu) (d := d) start channel
  refine ⟨?_, hkept.waiting, fun u hu => ?_⟩
  · rw [Multiset.add_cons, Multiset.map_cons, Multiset.nodup_cons]
    exact hnodup
  · rcases Multiset.mem_cons.mp hu with rfl | hu
    · let r' : Request := {r with startNs := max r.arrivalNs (toNs start), channel := channel}
      have hpos : 0 ≤ r'.startNs := (toNs_nonneg start).trans (le_max_right r.arrivalNs _)
      refine ⟨r', ⟨?_, hr.device⟩, hpos, hs r hr.device hneg hw⟩
      rw [hreq]
      exact AList.lookup_insert _
    · exact hkept.serving u hu

theorem Booked.complete (h : Booked d W S ledger waiting (t ::ₘ serving)) (finish : Time) :
    Booked d W S (requestCompleted ledger d t finish) waiting serving := by
  have hnodup := h.nodup
  rw [Multiset.add_cons, Multiset.map_cons, Multiset.nodup_cons] at hnodup
  have hrest : Booked d W S ledger waiting serving :=
    ⟨hnodup.2, h.waiting, fun u hu => h.serving u (Multiset.mem_cons_of_mem hu)⟩
  refine hrest.of_lookup fun u hu => requestCompleted_lookup_ne (fun he => ?_) finish
  exact hnodup.1 (Multiset.mem_map.mpr ⟨u, hu, he⟩)

end Booked

/-! ### Calls of others -/

/-- A call that other modules make: no stall, and no request of device `d` or under a
pointer that `d` has open. -/
def Call.Foreign (d : Device) (ledger : State) : Call → Prop
  | .arrived device t _ _ _ => device ≠ d ∧ ∀ r, ledger.requests.lookup t.ptr = some r → r.device ≠ d
  | .started device t _ _ => device ≠ d ∧ ∀ r, ledger.requests.lookup t.ptr = some r → r.device ≠ d
  | .completed device t _ => device ≠ d ∧ ∀ r, ledger.requests.lookup t.ptr = some r → r.device ≠ d
  | .stall .. => False
  | _ => True

section Foreign

variable {d : Device} {W S : Payload → Request → Prop} {ledger : State}
  {waiting serving : Multiset Payload} {c : Call}

/-- The records of a device are out of the reach of the others. -/
theorem Call.Foreign.lookup (h : c.Foreign d ledger) {ptr : Nat} {r : Request}
    (hl : ledger.requests.lookup ptr = some r) (hr : r.device = d) :
    (apply ledger c).requests.lookup ptr = some r := by
  by_cases hreq : c.isRequest = false
  · rw [(apply_aside ledger hreq).1, hl]
  · cases c with
    | arrived device t bytes k now =>
      rw [apply, requestArrived_lookup_ne fun he => h.2 r (he ▸ hl) hr, hl]
    | started device t start channel =>
      rw [apply, requestStarted_lookup_ne fun he => h.2 r (he ▸ hl) hr, hl]
    | completed device t finish =>
      rw [apply, requestCompleted_lookup_ne fun he => h.2 r (he ▸ hl) hr, hl]
    | _ => exact absurd rfl hreq

theorem Call.Foreign.traffic (h : c.Foreign d ledger) (k : Bool) :
    ((apply ledger c).deviceStats d).traffic k = (ledger.deviceStats d).traffic k := by
  by_cases hreq : c.isRequest = false
  · rw [(apply_aside ledger hreq).2]
  · cases c with
    | arrived device t bytes k' now => simp [apply]
    | started device t start channel =>
      have hd : d ≠ device := h.1.symm
      simp only [apply, requestStarted]
      split
      · rfl
      · split
        · rfl
        · simp [hd]
    | completed device t finish =>
      have hd : d ≠ device := h.1.symm
      simp only [apply, requestCompleted]
      split
      · rfl
      · split
        · simp
        · split <;> simp [hd]
    | _ => exact absurd rfl hreq

theorem Call.Foreign.stallNs (h : c.Foreign d ledger) (k : Bool) : c.stallNs k = 0 := by
  cases c with
  | stall start finish draft => exact h.elim
  | _ => rfl

theorem Call.Foreign.waitNs (h : c.Foreign d ledger) (k : Bool) : c.waitNs ledger d k = 0 := by
  cases c with
  | started device t start channel =>
    simp only [Call.waitNs]
    split
    · rfl
    · simp [h.1]
  | _ => rfl

theorem Booked.foreign (h : Booked d W S ledger waiting serving) (hc : c.Foreign d ledger) :
    Booked d W S (apply ledger c) waiting serving := by
  refine h.of_lookup fun t ht => ?_
  obtain ⟨r, hr⟩ := h.isOpen ht
  rw [hr.lookup, hc.lookup hr.lookup hr.device]

end Foreign

end Hsim.Metrics
