import Hsim.MetricsIntervals
import Hsim.PimClocked

/-! Busy time of a unified memory is additive.

The two kinds of traffic are never in flight together, and a request starts no
earlier than the instant of its hand-over. So when a request starts, everything
recorded of the other kind is over, and nothing of the other kind is recorded
before it is done. The recorded intervals of the two kinds do not overlap, and
the device is busy for the sum of the two. -/
namespace Hsim.PimWrapper

/-- The recorded intervals against the clock and the requests in service. -/
structure Ordered (ledger : Metrics.State) (now : Time) (promise : Nat → Time)
    (waiting serving : Multiset Payload) : Prop where
  onRecord : OnRecord ledger now promise waiting serving
  past : ∀ k, ∀ i ∈ ledger.intervals .pim k, i.endNs ≤ toNs now
  after : ∀ t ∈ serving, ∀ r, ledger.requests.lookup t.ptr = some r →
    ∀ i ∈ ledger.intervals .pim (!t.isPim), i.endNs ≤ r.startNs
  apart : ∀ i ∈ ledger.intervals .pim false, ∀ j ∈ ledger.intervals .pim true, i.Apart j

section Ordered

variable {ledger ledger' : Metrics.State} {now now' : Time} {promise : Nat → Time}
  {waiting serving : Multiset Payload} {t : Payload}

theorem Ordered.later (h : Ordered ledger now promise waiting serving) (hle : now ≤ now') :
    Ordered ledger now' promise waiting serving :=
  ⟨h.onRecord.later hle, fun k i hi => (h.past k i hi).trans (toNs_mono hle), h.after, h.apart⟩

/-- A ledger that knows the same records and intervals. -/
theorem Ordered.of_view (h : Ordered ledger now promise waiting serving)
    (hl : ∀ t ∈ waiting + serving, ledger'.requests.lookup t.ptr = ledger.requests.lookup t.ptr)
    (hi : ∀ k, ledger'.intervals .pim k = ledger.intervals .pim k) :
    Ordered ledger' now promise waiting serving := by
  refine ⟨Metrics.Booked.of_lookup h.onRecord hl, fun k => ?_, fun t ht r hr => ?_, ?_⟩
  · rw [hi]
    exact h.past k
  · rw [hl t (Multiset.mem_add.mpr (.inr ht))] at hr
    rw [hi]
    exact h.after t ht r hr
  · rw [hi, hi]
    exact h.apart

theorem Ordered.foreign (h : Ordered ledger now promise waiting serving) {c : Metrics.Call}
    (hc : c.Foreign .pim ledger) : Ordered (Metrics.apply ledger c) now promise waiting serving := by
  refine h.of_view (fun t ht => ?_) fun k => ?_
  · obtain ⟨r, hr⟩ := Metrics.Booked.isOpen h.onRecord ht
    rw [hr.lookup, hc.lookup hr.lookup hr.device]
  · rw [Metrics.State.intervals, Metrics.State.intervals, hc.traffic]

theorem Ordered.aside (h : Ordered ledger now promise waiting serving) {c : Metrics.Call}
    (hc : c.isRequest = false) : Ordered (Metrics.apply ledger c) now promise waiting serving := by
  obtain ⟨hreq, hstats⟩ := Metrics.apply_aside ledger hc
  refine h.of_view (fun t _ => by rw [hreq]) fun k => ?_
  rw [Metrics.State.intervals, Metrics.State.intervals, hstats]

theorem Ordered.asides (calls : List Metrics.Call) (h : Ordered ledger now promise waiting serving)
    (hc : ∀ c ∈ calls, c.isRequest = false) :
    Ordered (Metrics.applyAll ledger calls) now promise waiting serving := by
  induction calls generalizing ledger with
  | nil => exact h
  | cons c calls ih =>
    exact ih (h.aside (hc c List.mem_cons_self)) fun c' hc' => hc c' (List.mem_cons_of_mem c hc')

theorem Ordered.arrive (h : Ordered ledger now promise waiting serving) (bytes : UInt64)
    (hptr : t.ptr ≠ 0) (hl : ledger.requests.lookup t.ptr = none) :
    Ordered (Metrics.requestArrived ledger .pim t bytes t.isPim now) now promise (t ::ₘ waiting)
      serving := by
  obtain ⟨hreq, hint⟩ :=
    Metrics.requestArrived_fresh (d := .pim) bytes t.isPim now hptr hl
  refine ⟨h.onRecord.arrive bytes hptr hl, fun k => ?_, fun u hu r hr => ?_, ?_⟩
  · rw [hint]
    exact h.past k
  · obtain ⟨r', hr', -⟩ := h.onRecord.serving u hu
    have hne : u.ptr ≠ t.ptr := by
      intro he
      have hsome := hr'.lookup
      rw [he, hl] at hsome
      exact absurd hsome (by simp)
    rw [hreq, AList.lookup_insert_ne hne] at hr
    rw [hint]
    exact h.after u hu r hr
  · rw [hint, hint]
    exact h.apart

theorem Ordered.start (h : Ordered ledger now promise (t ::ₘ waiting) serving) {start done : Time}
    (hstart : now ≤ start) (hdone : start ≤ done) (channel : Int) :
    Ordered (Metrics.requestStarted ledger .pim t start channel) now
      (Function.update promise t.ptr done) waiting (t ::ₘ serving) := by
  obtain ⟨r, hr, hneg, -⟩ := h.onRecord.waiting t (Multiset.mem_cons_self t waiting)
  obtain ⟨hreq, hint⟩ := Metrics.requestStarted_open start channel hr.lookup hr.device hneg
  refine ⟨h.onRecord.start hstart hdone channel, fun k => ?_, fun u hu r' hr' => ?_, ?_⟩
  · rw [hint]
    exact h.past k
  · rw [hint]
    rw [hreq] at hr'
    rcases Multiset.mem_cons.mp hu with rfl | hu
    · -- everything recorded is over by now, and the request starts no earlier
      rw [AList.lookup_insert, Option.some.injEq] at hr'
      intro i hi
      rw [← hr']
      exact ((h.past _ i hi).trans (toNs_mono hstart)).trans (le_max_right _ _)
    · rw [AList.lookup_insert_ne (h.onRecord.ptr_ne u hu)] at hr'
      exact h.after u hu r' hr'
  · rw [hint, hint]
    exact h.apart

/-- A completion while nothing of the other kind is in service. -/
theorem Ordered.complete (h : Ordered ledger now promise waiting (t ::ₘ serving)) {finish : Time}
    (hfinish : finish ≤ now) (hpast : promise t.ptr ≤ now)
    (hkind : ∀ u ∈ serving, u.isPim = t.isPim) :
    Ordered (Metrics.requestCompleted ledger .pim t finish) now promise waiting serving := by
  obtain ⟨r, hr, hpos, hs⟩ := h.onRecord.serving t (Multiset.mem_cons_self t serving)
  obtain ⟨hreq, hint⟩ := Metrics.requestCompleted_started finish hr.lookup hr.device hpos
  have hend : max r.startNs (toNs finish) ≤ toNs now :=
    max_le (hs.start.trans (toNs_mono hpast)) (toNs_mono hfinish)
  have hnew : ∀ k, ∀ i ∈ (Metrics.requestCompleted ledger .pim t finish).intervals .pim k,
      i ∈ ledger.intervals .pim k ∨
        (k = t.isPim ∧ i = ⟨r.startNs, max r.startNs (toNs finish)⟩) := by
    intro k i hi
    rw [hint] at hi
    split at hi
    · rename_i hk
      rcases List.mem_append.mp hi with hi | hi
      · exact .inl hi
      · exact .inr ⟨hk.2.trans hs.kind, List.mem_singleton.mp hi⟩
    · exact .inl hi
  have hother := h.after t (Multiset.mem_cons_self t serving) r hr.lookup
  refine ⟨Metrics.Booked.complete h.onRecord finish, fun k i hi => ?_, fun u hu r' hr' i hi => ?_,
    fun i hi j hj => ?_⟩
  · rcases hnew k i hi with hi | ⟨-, rfl⟩
    · exact h.past k i hi
    · exact hend
  · have hne : u.ptr ≠ t.ptr := by
      intro he
      have hnodup := h.onRecord.nodup
      rw [Multiset.add_cons, Multiset.map_cons, Multiset.nodup_cons] at hnodup
      exact hnodup.1 (Multiset.mem_map.mpr ⟨u, Multiset.mem_add.mpr (.inr hu), he⟩)
    rw [hreq, AList.lookup_erase_ne hne] at hr'
    rcases hnew _ i hi with hi | ⟨hk, -⟩
    · exact h.after u (Multiset.mem_cons_of_mem hu) r' hr' i hi
    · rw [hkind u hu] at hk
      exact absurd hk (by cases t.isPim <;> simp)
  · -- the new interval starts after everything of the other kind
    rcases hnew false i hi with hi | ⟨hki, rfl⟩
    · rcases hnew true j hj with hj | ⟨hkj, rfl⟩
      · exact h.apart i hi j hj
      · exact .inl (hother i (by rw [← hkj]; exact hi))
    · rcases hnew true j hj with hj | ⟨hkj, -⟩
      · exact .inr (hother j (by rw [← hki]; exact hj))
      · exact absurd (hki.trans hkj.symm) (by simp)

theorem Ordered.completeAll (done : List (Time × Payload))
    (h : Ordered ledger now promise waiting ((done.map (·.2) : List Payload) + serving))
    (hdue : ∀ e ∈ done, e.1 ≤ now ∧ promise e.2.ptr ≤ now)
    (hkind : ∀ t ∈ ((done.map (·.2) : List Payload) : Multiset Payload) + serving,
      ∀ u ∈ ((done.map (·.2) : List Payload) : Multiset Payload) + serving, u.isPim = t.isPim) :
    Ordered (Metrics.applyAll ledger (done.map fun e => .completed .pim e.2 e.1)) now promise waiting
      serving := by
  induction done generalizing ledger with
  | nil => simpa [Metrics.applyAll] using h
  | cons e done ih =>
    rw [List.map_cons, ← Multiset.cons_coe, Multiset.cons_add] at h hkind
    obtain ⟨hfinish, hpast⟩ := hdue e List.mem_cons_self
    refine ih (h.complete hfinish hpast fun u hu => ?_)
      (fun e' he' => hdue e' (List.mem_cons_of_mem e he')) fun t ht u hu => ?_
    · exact hkind e.2 (Multiset.mem_cons_self _ _) u (Multiset.mem_cons_of_mem hu)
    · exact hkind t (Multiset.mem_cons_of_mem ht) u (Multiset.mem_cons_of_mem hu)

end Ordered

/-! ### Runs -/

/-- The module against its ledger. -/
def Clocked.InOrder (setup : List (Metrics.Device × UInt32 × String)) (x : Clocked) : Prop :=
  ∃ promise, Promised promise x.now x.wrapper ∧
    Ordered (x.ledger setup) x.now promise x.wrapper.waiting x.wrapper.serving

/-- What is in service is in flight. -/
theorem Promised.mem_inFlight {promise : Nat → Time} {now : Time} {s : State}
    (h : Promised promise now s) {t : Payload} (ht : t ∈ s.serving) : t ∈ s.inFlight t.isPim := by
  have hfast : ∀ k, t ∈ (s.fastCompletedQueue k).map (·.2) → t ∈ s.inFlight t.isPim := by
    intro k hmem
    obtain ⟨e, he, rfl⟩ := List.mem_map.mp hmem
    rw [h.kinds k e he]
    exact Multiset.mem_add.mpr (.inl (Multiset.mem_add.mpr (.inr hmem)))
  rcases Multiset.mem_add.mp ht with ht | ht
  · rcases Multiset.mem_add.mp ht with ht | ht
    · exact hfast false ht
    · exact hfast true ht
  · exact Multiset.mem_add.mpr (.inr (Multiset.mem_filter.mpr ⟨ht, rfl⟩))

/-- One kind of traffic is in service at a time. -/
theorem Guarded.oneKind {promise : Nat → Time} {now : Time} {s : State} (h : Guarded s)
    (hp : Promised promise now s) : ∀ t ∈ s.serving, ∀ u ∈ s.serving, u.isPim = t.isPim := by
  intro t ht u hu
  have hmode : ∀ v ∈ s.serving, s.pimMode = modeOf v.isPim := by
    intro v hv
    refine h.mode _ fun hempty => ?_
    have hmem := hp.mem_inFlight hv
    rw [hempty] at hmem
    simp at hmem
  exact modeOf_injective ((hmode u hu).symm.trans (hmode t ht))

section Steps

variable {cfg : Config} {setup : List (Metrics.Device × UInt32 × String)} {x : Clocked}

/-- A transaction that is sent starts now or later, or waits in the hands of the thread. -/
theorem Ordered.sent {ledger : Metrics.State} {now : Time} {promise : Nat → Time} {s s' : State}
    {t : Payload} {calls : List Metrics.Call} (hp : Promised promise now s)
    (h : Ordered ledger now promise (t ::ₘ (s.pendingQueue : Multiset Payload)) s.serving)
    (hs : Sent promise now t s s' calls) :
    ∃ promise', Promised promise' now s' ∧
      Ordered (Metrics.applyAll ledger calls) now promise' s'.waiting s'.serving := by
  cases hs with
  | handed start done channel hserved hwaiting _ =>
    refine ⟨_, hserved.promised, ?_⟩
    rw [hserved.reported, hwaiting, hserved.serving]
    exact h.start hserved.notBefore hserved.proper channel
  | switched wake hcalls hplaces hpending _ hthread =>
    refine ⟨promise, hplaces.promised hp, ?_⟩
    rw [hcalls, waiting_switching hthread, hpending, hplaces.serving]
    exact h

/-- The part of an iteration after the collecting. -/
theorem Ordered.processUnified {ledger : Metrics.State} {now : Time} {promise : Nat → Time}
    {s : State} (cfg : Config) (env : Env) (hp : Promised promise now s)
    (h : Ordered ledger now promise s.pendingQueue s.serving) :
    ∃ promise', Promised promise' now (processUnified cfg env now s).1 ∧
      Ordered (Metrics.applyAll ledger (metricsCalls (PimWrapper.processUnified cfg env now s).2))
        now promise' (PimWrapper.processUnified cfg env now s).1.waiting
        (PimWrapper.processUnified cfg env now s).1.serving := by
  rcases processUnified_cases cfg env now s with
    ⟨-, he⟩ | ⟨t, rest, -, -, he⟩ | ⟨t, rest, hq, -, he⟩
  · obtain ⟨hpromised, hserving, hwaiting, hcalls⟩ := finishIteration_promised cfg env false hp
    rw [he, hwaiting, hserving, hcalls]
    exact ⟨promise, hpromised, h⟩
  · have hnote : SamePlaces s (noteContention now t s) ∧
        (noteContention now t s).pendingQueue = s.pendingQueue := by
      unfold noteContention
      split <;> exact ⟨⟨rfl, rfl, rfl, rfl⟩, rfl⟩
    obtain ⟨hpromised, hserving, hwaiting, hcalls⟩ :=
      finishIteration_promised cfg env cfg.fastLayerMode (hnote.1.promised hp)
    rw [he, hwaiting, hserving, hcalls, hnote.2, hnote.1.serving]
    exact ⟨promise, hpromised, h⟩
  · have hdeq := (finishContentionWait_spec now t {s with pendingQueue := rest}).1
    have hstall := (finishContentionWait_calls now t {s with pendingQueue := rest}).1
    have hpending := hdeq.unchanged.2.1
    have hplaces : SamePlaces s (finishContentionWait now t {s with pendingQueue := rest}).1 := by
      obtain ⟨a, b, c, d⟩ := hdeq.samePlaces
      exact ⟨a, b, c, d⟩
    rw [he, Action.seq_fst, Action.seq_snd, metricsCalls_append, hstall, Metrics.applyAll_append]
    generalize (finishContentionWait now t {s with pendingQueue := rest}).1 = s₀ at hpending hplaces ⊢
    rw [hq, ← Multiset.cons_coe, ← hplaces.serving] at h
    have hpending₀ : (rest : Multiset Payload) = s₀.pendingQueue := by rw [hpending]
    rw [hpending₀] at h
    have hasides := h.asides _ (stallCalls_aside now t {s with pendingQueue := rest})
    have hsent := sendTransaction_sent cfg env (hplaces.promised hp)
      hasides.onRecord.ptr_ne
    exact Ordered.sent (hplaces.promised hp) hasides hsent

/-- An activation, by what it leaves in the module and in the ledger. -/
theorem Clocked.inOrder_act {run : Traced} {r : State × List Effect} {promise : Nat → Time}
    (hrun : run.wrapper = r.1) (hp : Promised promise x.now r.1)
    (h : Ordered (Metrics.applyAll (x.ledger setup) (metricsCalls r.2)) x.now promise r.1.waiting
      r.1.serving) : (x.act run r.2).InOrder setup := by
  refine ⟨promise, ?_⟩
  rw [Clocked.ledger_act]
  show Promised promise x.now run.wrapper ∧
    Ordered _ x.now promise run.wrapper.waiting run.wrapper.serving
  rw [hrun]
  exact ⟨hp, h⟩

theorem Clocked.InOrder.iterate (hc : cfg.memoryStructure = .unified) (h : x.InOrder setup)
    (hg : Guarded x.wrapper) (env : Env) {wake : Time} {onEvent : Bool}
    (ht : x.wrapper.thread = .waiting wake onEvent) :
    (x.iterate cfg env).InOrder setup := by
  obtain ⟨promise, hp, ho⟩ := h
  obtain ⟨done, hcollected⟩ := collect_collected hp
  have hkind := hg.oneKind hp
  rw [hcollected.serving] at ho hkind
  have hcomplete := ho.completeAll done hcollected.due hkind
  rw [← hcollected.calls, ← hcollected.waiting] at hcomplete
  have hthread : ∀ t wake, (collect x.now x.wrapper).1.thread ≠ .switching t wake := by
    rw [(collect_frame x.now x.wrapper).1, ht]
    simp
  rw [waiting_eq_of_thread hthread] at hcomplete
  obtain ⟨promise', hp', ho'⟩ :=
    hcomplete.processUnified cfg env hcollected.promised
  have hprocess : process cfg env x.now = PimWrapper.processUnified cfg env x.now := by
    simp only [process, hc]
  have hnext : (x.act (x.run.act (PimWrapper.iterate cfg env x.now x.wrapper))
      (PimWrapper.iterate cfg env x.now x.wrapper).2).InOrder setup := by
    rw [PimWrapper.iterate, hprocess]
    refine Clocked.inOrder_act rfl hp' ?_
    rw [Action.seq_snd, metricsCalls_append, Metrics.applyAll_append]
    exact ho'
  exact hnext

theorem Clocked.InOrder.resume (h : x.InOrder setup) (env : Env) {t : Payload} {wake : Time}
    (ht : x.wrapper.thread = .switching t wake) :
    (x.resume cfg env t).InOrder setup := by
  obtain ⟨promise, hp, ho⟩ := h
  rw [waiting_switching ht] at ho
  obtain ⟨start, finish, channel, hserved, hwaiting, -⟩ :=
    resume_served cfg env hp ho.onRecord.ptr_ne
  refine Clocked.inOrder_act rfl hserved.promised ?_
  rw [hserved.reported, hwaiting, hserved.serving]
  exact ho.start hserved.notBefore hserved.proper channel

/-- An edge moves no request that waits or is in service. -/
theorem Clocked.InOrder.edge (h : x.InOrder setup) {k : Bool} {r : State × List Effect}
    (hplaces : SamePlaces x.wrapper r.1) (hwaiting : r.1.waiting = x.wrapper.waiting)
    (hcalls : ∀ c ∈ metricsCalls r.2, c.isRequest = false) :
    (x.act (x.run.pop k r) r.2).InOrder setup := by
  obtain ⟨promise, hp, ho⟩ := h
  refine Clocked.inOrder_act rfl (hplaces.promised hp) ?_
  rw [hwaiting, hplaces.serving]
  exact ho.asides _ hcalls

end Steps

theorem Tick.inOrder {cfg : Config} {setup : List (Metrics.Device × UInt32 × String)}
    (hc : cfg.memoryStructure = .unified) {x x' : Clocked} (hs : Tick cfg setup x x')
    (h : x.InOrder setup) (hg : Guarded x.wrapper) : x'.InOrder setup := by
  cases hs with
  | elapse now hnow =>
    obtain ⟨promise, hp, ho⟩ := h
    exact ⟨promise, hp.later hnow, ho.later hnow⟩
  | report c hforeign =>
    obtain ⟨promise, hp, ho⟩ := h
    refine ⟨promise, hp, ?_⟩
    show Ordered (Metrics.applyAll _ (x.calls ++ [c])) _ _ _ _
    rw [Metrics.applyAll_append]
    exact ho.foreign hforeign
  | arrive t hptr hl =>
    obtain ⟨promise, hp, ho⟩ := h
    have hwaiting := peqCb_waiting x.now t x.wrapper
    have hplaces : SamePlaces x.wrapper (peqCb x.now t x.wrapper).1 := ⟨rfl, rfl, rfl, rfl⟩
    have hnext : (x.act (x.run.act (peqCb x.now t x.wrapper))
        (peqCb x.now t x.wrapper).2).InOrder setup := by
      refine Clocked.inOrder_act rfl (hplaces.promised hp) ?_
      rw [hwaiting]
      exact ho.arrive _ hptr hl
    exact hnext
  | iterate env wake onEvent ht => exact h.iterate hc hg env ht
  | resume env t wake ht => exact h.resume env ht
  | posedge =>
    refine h.edge ?_ ?_ fun c hcall => ?_
    · unfold clockPosedge
      split <;> exact ⟨rfl, rfl, rfl, rfl⟩
    · unfold clockPosedge
      split <;> rfl
    · rw [metricsCalls_clockPosedge] at hcall
      simp at hcall
  | negedge =>
    refine h.edge ?_ ?_ fun c hcall => ?_
    · unfold clockNegedge
      split <;> exact ⟨rfl, rfl, rfl, rfl⟩
    · unfold clockNegedge
      split <;> rfl
    · obtain ⟨id, finish, rfl⟩ := metricsCalls_clockNegedge cfg x.now x.wrapper c hcall
      rfl

theorem inOrder_initial (setup : List (Metrics.Device × UInt32 × String)) :
    ({} : Clocked).InOrder setup := by
  have hblank := Metrics.configured_blank setup
  have hnone : ∀ k, (({} : Clocked).ledger setup).intervals .pim k = [] := by
    intro k
    simp [Clocked.ledger, Metrics.applyAll, Metrics.State.intervals, hblank.traffic]
  have hwaiting : ({} : Clocked).wrapper.waiting = 0 := by simp [Clocked.wrapper, State.waiting]
  have hserving : ({} : Clocked).wrapper.serving = 0 := by simp [Clocked.wrapper, State.serving]
  refine ⟨fun _ => 0, promised_initial _ _, ?_⟩
  rw [hwaiting, hserving]
  exact ⟨Metrics.Booked.empty _ _ _ _, by simp [hnone], by simp, by simp [hnone]⟩

/-- A step after which fewer than 2^32 transactions of each kind are in flight. -/
def Clocked.Bounded (x x' : Clocked) : Prop := PimWrapper.Bounded x.run x'.run

/-- What the report of a unified memory relies on. -/
structure Additive (ledger : Metrics.State) : Prop where
  apart : ∀ i ∈ ledger.pim.memory.serviceIntervals, ∀ j ∈ ledger.pim.compute.serviceIntervals,
    i.Apart j
  busy : ledger.pim.deviceBusyNs = ledger.pim.memory.busyNs + ledger.pim.compute.busyNs

theorem Additive.intervals {ledger : Metrics.State} (h : Additive ledger) :
    ∀ i ∈ ledger.intervals .pim false, ∀ j ∈ ledger.intervals .pim true, i.Apart j := h.apart

theorem Ordered.additive {ledger : Metrics.State} {now : Time} {promise : Nat → Time}
    {waiting serving : Multiset Payload} (h : Ordered ledger now promise waiting serving) :
    Additive ledger :=
  ⟨h.apart, Metrics.intervalUnionNs_append h.apart⟩

/-- **Busy time is additive.** In every run of a unified memory that never has 2^32
transactions of a kind in flight, no memory interval overlaps a compute interval, and the
device is busy for the sum of the two. -/
theorem unified_busy_additive {cfg : Config} (hc : cfg.memoryStructure = .unified)
    (setup : List (Metrics.Device × UInt32 × String)) {x : Clocked}
    (h : Lib.Reach (· = {}) (Lib.Kept (Tick cfg setup) Clocked.Bounded) x) :
    Additive (x.ledger setup) := by
  have hinv : Inv x.run ∧ x.InOrder setup := by
    refine h.invariant (P := fun x => Inv x.run ∧ x.InOrder setup) ?_ ?_
    · rintro _ rfl
      exact ⟨inv_initial, inOrder_initial setup⟩
    · rintro x x' ⟨hinv, horder⟩ ⟨hs, hb⟩
      refine ⟨?_, hs.inOrder hc horder hinv.guarded⟩
      rcases hs.step with hsame | hstep
      · rw [hsame]
        exact hinv
      · exact Step.inv hc hinv hstep hb
  obtain ⟨-, promise, -, ho⟩ := hinv
  exact ho.additive

/-- A macro command and a tensor read, both through the local queues. -/
theorem unified_busy_additive_macro :
    let cfg : Config := {
      memoryStructure := .unified, fastLayerMode := true, period := 1000000,
      modeChangeDelay := (0, 0), pimSyncMap := fun _ => none, hostSyncMap := fun _ => none,
      memorySystem := ⟨1, fun _ => 0⟩, estimateNs := fun _ _ => 5}
    let a : Payload := {
      ptr := 1, command := .pim, address := 3, srcId := .host, dstId := .pim, pimCmd := "macro(qkv)"}
    let b : Payload := {
      ptr := 2, command := .read, srcId := .npu, dstId := .dram, pimCmd := "fast_memory"}
    let x₁ := (((({} : Clocked).arrive a).iterate cfg {}).resume cfg {} a).elapse 3500
    let x₂ := ((((x₁.iterate cfg {}).negedge cfg).arrive b).iterate cfg {}).resume cfg {} b
    let x := (x₂.elapse 8500).iterate cfg {}
    (x.ledger []).pim.compute.serviceIntervals = [⟨0, 4⟩] ∧
      (x.ledger []).pim.memory.serviceIntervals = [⟨4, 9⟩] ∧ Additive (x.ledger []) := by
  intro cfg a b x₁ x₂ x
  have hnext : ∀ {y z : Clocked}, Lib.Reach (· = {}) (Lib.Kept (Tick cfg []) Clocked.Bounded) y →
      Tick cfg [] y z → z.run.sent.length < 2 ^ 32 →
      Lib.Reach (· = {}) (Lib.Kept (Tick cfg []) Clocked.Bounded) z :=
    fun hy hs hb => .next hy ⟨hs, bounded_of_sent _ _ hb⟩
  have h₁ : Lib.Reach (· = {}) (Lib.Kept (Tick cfg []) Clocked.Bounded) x₁ := by
    refine hnext (hnext (hnext (hnext (.start rfl) (.arrive a ?_ ?_) ?_) (.iterate {} 0 false ?_) ?_)
      (.resume {} a 0 ?_) ?_) (.elapse 3500 ?_) ?_ <;> decide
  have h₂ : Lib.Reach (· = {}) (Lib.Kept (Tick cfg []) Clocked.Bounded) x₂ := by
    refine hnext (hnext (hnext (hnext (hnext h₁ (.iterate {} 3500 true ?_) ?_) .negedge ?_)
      (.arrive b ?_ ?_) ?_) (.iterate {} 1000003500 true ?_) ?_) (.resume {} b 3500 ?_) ?_ <;> decide +kernel
  have hx : Lib.Reach (· = {}) (Lib.Kept (Tick cfg []) Clocked.Bounded) x := by
    refine hnext (hnext h₂ (.elapse 8500 ?_) ?_) (.iterate {} 8500 true ?_) ?_ <;> decide +kernel
  exact ⟨by decide +kernel, by decide +kernel, unified_busy_additive rfl [] hx⟩

/-! ### The counters are 32 bits wide

With 2^32 + 1 compute commands in flight the counter reads one. The first of them to
be answered clears the flag, and a read is let in among the others. -/

/-- When the first command is done: after 2^32 ns. -/
def firstDone : Time := 4294967296500

/-- When the second one is done: 100 ns later. -/
def secondDone : Time := 4294967397000

/-- The `n`-th of a stream of commands. The first one is long enough for the rest of the
stream to be handed over behind it. -/
def nthCommand (n : Nat) : Payload where
  ptr := n + 1
  command := .pim
  address := if n = 0 then 4294967296 else 100
  srcId := .host
  dstId := .pim

/-- The module with at least two commands behind each other. -/
def jammed (count : UInt32) (rest : List (Time × Payload)) (table : AList (fun _ : Nat => Time))
    (start done wake : Time) : State where
  thread := .waiting wake false
  pimMode := .compute
  computeBusy := true
  computeBusyCount := count
  detailedComputeDoneTime := table
  bridge := {
    pimComputeQueue := (firstDone, nthCommand 0) :: (secondDone, nthCommand 1) :: rest
    lastComputeStartTime := start
    lastComputeDoneTime := done}

/-- The next command is handed over behind the others while the first one runs. -/
theorem jammed_iterate {now : Time} (hnow : now < firstDone) (n : Nat) (count : UInt32)
    (rest : List (Time × Payload)) (table : AList (fun _ : Nat => Time)) (start done wake : Time) :
    let done' := max now done + Bridge.computeDelay (nthCommand n)
    iterate detailed {} now
        {jammed count rest table start done wake with pendingQueue := [nthCommand n]} =
      (jammed (count + 1) (rest ++ [(done', nthCommand n)]) (table.insert (n + 1) done')
        (max now done) done' (now + 500),
        [.metrics (.started .pim (nthCommand n) (max now done) Metrics.kAllChannels),
          .updateStart "" .pim (toCycle (max now done))]) := by
  intro done'
  let s := jammed (count + 1) (rest ++ [(done', nthCommand n)]) (table.insert (n + 1) done')
    (max now done) done' (now + 500)
  have hdrain : Bridge.drainCompute s.bridge now = s.bridge := by
    have hlate : ¬ firstDone ≤ now := not_le.mpr hnow
    have hdue : Lib.due now s.bridge.pimComputeQueue = [] := by simp [s, jammed, Lib.due, hlate]
    have hrest : Lib.notDue now s.bridge.pimComputeQueue = s.bridge.pimComputeQueue := by
      simp [s, jammed, Lib.notDue, hlate]
    rw [Bridge.drainCompute, hdue, hrest, List.map_nil, List.append_nil]
  have hstep : iterate detailed {} now
      {jammed count rest table start done wake with pendingQueue := [nthCommand n]} =
      ({s with bridge := Bridge.drainCompute s.bridge now},
        [.metrics (.started .pim (nthCommand n) (max now done) Metrics.kAllChannels),
          .updateStart "" .pim (toCycle (max now done))]) := rfl
  rw [hstep, hdrain]

/-- `n` commands have been handed over, and the second one waits behind the first. -/
structure Jammed (n : Nat) (x : Clocked) : Prop where
  now : x.now < 500 * n
  wrapper : ∃ rest table start done wake,
    x.wrapper = jammed (UInt32.ofNat n) rest table start done wake ∧
      table.lookup 1 = some firstDone ∧ table.lookup 2 = some secondDone
  fresh : ∀ ptr, n < ptr → (x.ledger []).requests.lookup ptr = none
  second : ∃ r, Metrics.OpenRecord .pim (x.ledger []) (nthCommand 1) r ∧ r.pimCompute = true ∧
    r.startNs = toNs firstDone

/-- The first command, which finds the module in memory mode. -/
def alone : Clocked :=
  ((({} : Clocked).arrive (nthCommand 0)).iterate detailed {}).resume detailed {} (nthCommand 0)

/-- The first two commands. -/
def jam : Clocked := ((alone.elapse 500).arrive (nthCommand 1)).iterate detailed {}

set_option maxRecDepth 2000 in
theorem alone_wrapper : alone.wrapper = {
    thread := .waiting 500 false
    pimMode := .compute
    computeBusy := true
    computeBusyCount := 1
    detailedComputeDoneTime := AList.insert 1 firstDone ∅
    bridge := {
      pimComputeQueue := [(firstDone, nthCommand 0)]
      lastComputeDoneTime := firstDone}} := rfl

theorem jam_wrapper : jam.wrapper =
    jammed 2 [] (AList.insert 2 secondDone (AList.insert 1 firstDone ∅)) firstDone secondDone 1000 := by
  show (iterate detailed {} 500 (peqCb 500 (nthCommand 1) alone.wrapper).1).1 = _
  rw [alone_wrapper]
  rfl

theorem jam_reachable : Lib.Reach (· = {}) (Tick detailed []) jam := by
  refine .next (.next (.next (.next (.next (.next (.start rfl) (.arrive _ ?_ ?_))
    (.iterate {} 0 false ?_)) (.resume {} _ 0 ?_)) (.elapse 500 ?_)) (.arrive _ ?_ ?_))
    (.iterate {} 500 false ?_)
  all_goals decide +kernel

theorem jam_jammed : Jammed 2 jam := by
  refine ⟨by decide, ⟨[], _, _, _, _, jam_wrapper, by decide, by decide⟩, fun ptr hptr => ?_, ?_⟩
  · have hkeys : (jam.ledger []).requests.entries.map (·.1) = [2, 1] := by decide +kernel
    have hnot : ptr ∉ (jam.ledger []).requests.entries.map (·.1) := by
      rw [hkeys]
      simp only [List.mem_cons, List.not_mem_nil, or_false]
      omega
    exact AList.lookup_eq_none.mpr hnot
  · refine ⟨⟨.pim, 0, true, 1, 4294967297, -1⟩, ⟨by decide +kernel, rfl⟩, rfl, by decide +kernel⟩

/-- The run with one more command, at the next iteration of the thread. -/
def Clocked.jamNext (n : Nat) (x : Clocked) : Clocked :=
  ((x.elapse (500 * n)).arrive (nthCommand n)).iterate detailed {}

theorem Jammed.next {n : Nat} {x : Clocked} (h : Jammed n x) (h2 : 2 ≤ n) (hn : 500 * n < firstDone) :
    Jammed (n + 1) (x.jamNext n) := by
  obtain ⟨rest, table, start, done, wake, hw, hfirst, hsecond⟩ := h.wrapper
  have hiterate := jammed_iterate hn n (UInt32.ofNat n) rest table start done wake
  have hwrapper : (x.jamNext n).wrapper = (iterate detailed {} (500 * n)
      {jammed (UInt32.ofNat n) rest table start done wake with pendingQueue := [nthCommand n]}).1 := by
    show (iterate detailed {} (500 * n) (peqCb (500 * n) (nthCommand n) x.wrapper).1).1 = _
    rw [hw]
    rfl
  have hledger : (x.jamNext n).ledger [] = Metrics.requestStarted
      (Metrics.requestArrived (x.ledger []) .pim (nthCommand n) 0 true (500 * n)) .pim (nthCommand n)
      (max (500 * n) done) Metrics.kAllChannels := by
    have hcalls : metricsCalls (iterate detailed {} (500 * n)
        (peqCb (500 * n) (nthCommand n) x.wrapper).1).2 =
        [.started .pim (nthCommand n) (max (500 * n) done) Metrics.kAllChannels] := by
      have hpeq : (peqCb (500 * n) (nthCommand n) x.wrapper).1 =
          {jammed (UInt32.ofNat n) rest table start done wake with
            pendingQueue := [nthCommand n]} := by
        rw [hw]
        rfl
      rw [hpeq, hiterate]
      rfl
    show Metrics.applyAll _ ((x.calls ++ _) ++ metricsCalls (iterate detailed {} (500 * n)
        (peqCb (500 * n) (nthCommand n) x.wrapper).1).2) = _
    rw [hcalls, Metrics.applyAll_append, Metrics.applyAll_append]
    rfl
  have hother : ∀ ptr, ptr ≠ (nthCommand n).ptr → ((x.jamNext n).ledger []).requests.lookup ptr =
      (x.ledger []).requests.lookup ptr := by
    intro ptr hptr
    rw [hledger, Metrics.requestStarted_lookup_ne hptr, Metrics.requestArrived_lookup_ne hptr]
  refine ⟨?_, ⟨_, _, _, _, _, hwrapper.trans (by rw [hiterate, ← UInt32.ofNat_one,
    ← UInt32.ofNat_add]), ?_, ?_⟩, fun ptr hptr => ?_, ?_⟩
  · show 500 * n < 500 * (n + 1)
    omega
  · rw [AList.lookup_insert_ne (by omega)]
    exact hfirst
  · rw [AList.lookup_insert_ne (by omega)]
    exact hsecond
  · rw [hother ptr (by show ptr ≠ n + 1; omega)]
    exact h.fresh ptr (by omega)
  · obtain ⟨r, hr, hkind, hstart⟩ := h.second
    exact ⟨r, hr.of_lookup (hother _ (by show 2 ≠ n + 1; omega)), hkind, hstart⟩

theorem jammed_reachable (n : Nat) (h2 : 2 ≤ n) (hn : 500 * n < firstDone) :
    ∃ x, Lib.Reach (· = {}) (Tick detailed []) x ∧ Jammed n x := by
  induction n, h2 using Nat.le_induction with
  | base => exact ⟨jam, jam_reachable, jam_jammed⟩
  | succ n h2 ih =>
    have hn' : 500 * n < firstDone := by omega
    obtain ⟨x, hx, hj⟩ := ih hn'
    obtain ⟨rest, table, start, done, wake, hw, -⟩ := hj.wrapper
    refine ⟨x.jamNext n, ?_, hj.next h2 hn'⟩
    refine .next (.next (.next hx (.elapse (500 * n) hj.now.le)) (.arrive (nthCommand n) ?_ ?_))
      (.iterate {} wake false ?_)
    · exact Nat.succ_ne_zero n
    · exact hj.fresh (n + 1) (Nat.lt_succ_self n)
    · show (peqCb (500 * n) (nthCommand n) x.wrapper).1.thread = _
      rw [hw]
      rfl

/-- A read that arrives when the first command has been answered. -/
def strayRead : Payload := {ptr := 4294967298, command := .read, srcId := .npu, dstId := .dram}

/-- The bridge once the first command has left it. -/
def behindFirst (rest : List (Time × Payload)) (start done : Time) : Bridge.State where
  pimComputeQueue := (secondDone, nthCommand 1) :: rest
  lastComputeStartTime := start
  lastComputeDoneTime := done

section Overlap

variable (rest : List (Time × Payload)) (table : AList (fun _ : Nat => Time)) (start done wake : Time)

/-- The first command waits for the falling edge. -/
def firstCollected : State where
  thread := .waiting (firstDone + 1000) false
  pimMode := .compute
  computeBusy := true
  computeBusyCount := 1
  computeCompletedQueue := [nthCommand 0]
  detailedComputeDoneTime := table
  bridge := behindFirst rest start done

/-- The flag is down, with the second command in the engine. -/
def firstAnswered : State where
  thread := .waiting (firstDone + 1000) false
  pimMode := .compute
  detailedComputeDoneTime := table
  bridge := behindFirst rest start done

/-- The read is with the memory system. -/
def readLetIn : State where
  thread := .waiting (firstDone + 1500) false
  memoryBusy := true
  memoryBusyCount := 1
  detailedComputeDoneTime := table
  bridge := {behindFirst rest start done with
    readDone := [(0, strayRead)]
    incomingQueue := Function.update (Function.update (fun _ => []) 0 [strayRead]) 0 []}

/-- The read waits for the rising edge. -/
def readCollected : State where
  thread := .waiting (firstDone + 6000) false
  memoryBusy := true
  memoryBusyCount := 1
  memoryCompletedQueue := [strayRead]
  detailedComputeDoneTime := table
  bridge := {behindFirst rest start done with
    incomingQueue := Function.update (Function.update (fun _ => []) 0 [strayRead]) 0 []}

namespace Clocked

def collectFirst (x : Clocked) : Clocked :=
  (((x.elapse firstDone).iterate detailed {}).elapse (firstDone + 500)).iterate detailed {}

def letIn (x : Clocked) : Clocked :=
  (((x.arrive strayRead).elapse (firstDone + 1000)).iterate detailed {}).resume detailed
    {answers := {accepts := fun _ => true}} strayRead

def serveRead (x : Clocked) : Clocked :=
  (((x.elapse (firstDone + 5000)).iterate detailed
    {answers := {callbacks := [(false, 0)]}}).elapse (firstDone + 5500)).iterate detailed {}

def collectSecond (x : Clocked) : Clocked :=
  (((x.elapse secondDone).iterate detailed {}).elapse (secondDone + 500)).iterate detailed {}

end Clocked

theorem collectFirst_now (x : Clocked) : (x.collectFirst.negedge detailed).now = firstDone + 500 := rfl

theorem letIn_now (x : Clocked) : x.letIn.now = firstDone + 1000 := rfl

theorem serveRead_now (x : Clocked) : x.serveRead.now = firstDone + 5500 := rfl

variable {x : Clocked}

theorem collectFirst_spec (hx : Lib.Reach (· = {}) (Tick detailed []) x) (hnow : x.now ≤ firstDone)
    (hw : x.wrapper = jammed 1 rest table start done wake) :
    Lib.Reach (· = {}) (Tick detailed []) x.collectFirst ∧
      x.collectFirst.wrapper = firstCollected rest (table.erase 1) start done ∧
      x.collectFirst.calls = x.calls ++ [] ++
        [.completed .pim (nthCommand 0) ((table.lookup 1).getD (firstDone + 500))] := by
  obtain ⟨now, ⟨wrapper, sent, popped⟩, calls, arrived, stalled⟩ := x
  obtain rfl : wrapper = _ := hw
  refine ⟨?_, rfl, rfl⟩
  exact .next (.next (.next (.next hx (.elapse _ hnow)) (.iterate {} wake false rfl))
    (.elapse _ (Nat.le_add_right _ _))) (.iterate {} (firstDone + 500) false rfl)

theorem answerFirst_spec (hx : Lib.Reach (· = {}) (Tick detailed []) x)
    (hw : x.wrapper = firstCollected rest table start done) :
    Lib.Reach (· = {}) (Tick detailed []) (x.negedge detailed) ∧
      (x.negedge detailed).wrapper = firstAnswered rest table start done ∧
      (x.negedge detailed).calls = x.calls ++ [] := by
  obtain ⟨now, ⟨wrapper, sent, popped⟩, calls, arrived, stalled⟩ := x
  obtain rfl : wrapper = _ := hw
  refine ⟨.next hx .negedge, ?_, rfl⟩
  simp [Clocked.negedge, Clocked.act, Clocked.wrapper, Traced.pop, Traced.act, clockNegedge,
    firstCollected, firstAnswered]

theorem letIn_spec (hx : Lib.Reach (· = {}) (Tick detailed []) x) (hnow : x.now = firstDone + 500)
    (hfresh : (x.ledger []).requests.lookup strayRead.ptr = none)
    (hw : x.wrapper = firstAnswered rest table start done) :
    Lib.Reach (· = {}) (Tick detailed []) x.letIn ∧
      x.letIn.wrapper = readLetIn rest table start done ∧
      x.letIn.calls = x.calls ++ [.arrived .pim strayRead 0 false (firstDone + 500)] ++ [] ++
        [.started .pim strayRead (firstDone + 1000) 0] := by
  obtain ⟨now, ⟨wrapper, sent, popped⟩, calls, arrived, stalled⟩ := x
  obtain rfl : wrapper = _ := hw
  obtain rfl : now = _ := hnow
  refine ⟨?_, rfl, rfl⟩
  exact .next (.next (.next (.next hx (.arrive strayRead (by decide) hfresh))
    (.elapse _ (Nat.le_add_right _ 500))) (.iterate {} (firstDone + 1000) false rfl))
    (.resume _ strayRead (firstDone + 1000) rfl)

theorem serveRead_spec (hx : Lib.Reach (· = {}) (Tick detailed []) x)
    (hnow : x.now = firstDone + 1000) (hw : x.wrapper = readLetIn rest table start done) :
    Lib.Reach (· = {}) (Tick detailed []) x.serveRead ∧
      x.serveRead.wrapper = readCollected rest table start done ∧
      x.serveRead.calls = x.calls ++ [] ++ [.completed .pim strayRead (firstDone + 5500)] := by
  obtain ⟨now, ⟨wrapper, sent, popped⟩, calls, arrived, stalled⟩ := x
  obtain rfl : wrapper = _ := hw
  obtain rfl : now = _ := hnow
  refine ⟨?_, rfl, rfl⟩
  exact .next (.next (.next (.next hx (.elapse _ (Nat.le_add_right _ 4000)))
    (.iterate _ (firstDone + 1500) false rfl)) (.elapse _ (Nat.le_add_right _ 500)))
    (.iterate {} (firstDone + 5500) false rfl)

theorem collectSecond_spec (hx : Lib.Reach (· = {}) (Tick detailed []) x)
    (hnow : x.now ≤ secondDone) (hw : x.wrapper = readCollected rest table start done) :
    Lib.Reach (· = {}) (Tick detailed []) x.collectSecond ∧
      x.collectSecond.calls = x.calls ++ [] ++
        [.completed .pim (nthCommand 1) ((table.lookup 2).getD (secondDone + 500))] := by
  obtain ⟨now, ⟨wrapper, sent, popped⟩, calls, arrived, stalled⟩ := x
  obtain rfl : wrapper = _ := hw
  refine ⟨?_, rfl⟩
  exact .next (.next (.next (.next hx (.elapse _ hnow)) (.iterate {} (firstDone + 6000) false rfl))
    (.elapse _ (Nat.le_add_right _ _))) (.iterate {} (secondDone + 500) false rfl)

end Overlap

/-- The calls from the collection of the first command to that of the second. -/
def overlapCalls : List Metrics.Call :=
  [.completed .pim (nthCommand 0) firstDone, .arrived .pim strayRead 0 false (firstDone + 500),
    .started .pim strayRead (firstDone + 1000) 0, .completed .pim strayRead (firstDone + 5500),
    .completed .pim (nthCommand 1) secondDone]

/-- The read and the second command are recorded across each other. -/
theorem overlapCalls_overlap {ledger : Metrics.State}
    (hfresh : ledger.requests.lookup strayRead.ptr = none)
    (hsecond : ∃ r, Metrics.OpenRecord .pim ledger (nthCommand 1) r ∧ r.pimCompute = true ∧
      r.startNs = toNs firstDone) : ¬ Additive (Metrics.applyAll ledger overlapCalls) := by
  obtain ⟨r, hr, hkind, hstart⟩ := hsecond
  let l₁ := Metrics.requestCompleted ledger .pim (nthCommand 0) firstDone
  let l₂ := Metrics.requestArrived l₁ .pim strayRead 0 false (firstDone + 500)
  let l₃ := Metrics.requestStarted l₂ .pim strayRead (firstDone + 1000) 0
  let l₄ := Metrics.requestCompleted l₃ .pim strayRead (firstDone + 5500)
  let l₅ := Metrics.requestCompleted l₄ .pim (nthCommand 1) secondDone
  have hread : l₁.requests.lookup strayRead.ptr = none := by
    rw [Metrics.requestCompleted_lookup_ne (by decide), hfresh]
  obtain ⟨hreq₂, -⟩ := Metrics.requestArrived_fresh (s := l₁) (d := .pim) 0 false (firstDone + 500)
    (by decide) hread
  have hl₂ : l₂.requests.lookup strayRead.ptr = some
      {device := .pim, bytes := 0, pimCompute := false, arrivalNs := toNs (firstDone + 500)} := by
    rw [hreq₂]
    exact AList.lookup_insert _
  obtain ⟨hreq₃, -⟩ := Metrics.requestStarted_open (s := l₂) (firstDone + 1000) 0 hl₂ rfl
    (Int.negSucc_lt_zero 0)
  have hl₃ : l₃.requests.lookup strayRead.ptr = some
      {device := .pim, bytes := 0, pimCompute := false, arrivalNs := toNs (firstDone + 500),
        startNs := toNs (firstDone + 1000), channel := 0} := by
    rw [hreq₃]
    exact AList.lookup_insert _
  obtain ⟨-, hint₄⟩ := Metrics.requestCompleted_started (s := l₃) (firstDone + 5500) hl₃ rfl
    (toNs_nonneg _)
  have hl₄ : l₄.requests.lookup (nthCommand 1).ptr = some r := by
    rw [Metrics.requestCompleted_lookup_ne (by decide), Metrics.requestStarted_lookup_ne (by decide),
      Metrics.requestArrived_lookup_ne (by decide), Metrics.requestCompleted_lookup_ne (by decide)]
    exact hr.lookup
  obtain ⟨-, hint₅⟩ := Metrics.requestCompleted_started (s := l₄) secondDone hl₄ hr.device
    (by rw [hstart]; exact toNs_nonneg _)
  have hmemory : (⟨toNs (firstDone + 1000), toNs (firstDone + 5500)⟩ : Metrics.Interval) ∈
      l₅.intervals .pim false := by
    rw [hint₅, if_neg (by simp [hkind]), hint₄, if_pos ⟨rfl, rfl⟩]
    exact List.mem_append_right _ (List.mem_singleton.mpr (by decide))
  have hcompute : (⟨toNs firstDone, toNs secondDone⟩ : Metrics.Interval) ∈
      l₅.intervals .pim true := by
    rw [hint₅, if_pos ⟨rfl, hkind.symm⟩, hstart]
    exact List.mem_append_right _ (List.mem_singleton.mpr (by decide))
  intro hadditive
  have hledger : Metrics.applyAll ledger overlapCalls = l₅ := rfl
  rw [hledger] at hadditive
  rcases hadditive.intervals _ hmemory _ hcompute with hle | hle
  · exact absurd hle (by decide)
  · exact absurd hle (by decide)

/-- 2^32 + 1 commands in flight, and a read whose service overlaps that of a command. -/
theorem counter_wrap_overlaps : ¬ ∀ cfg : Config, cfg.memoryStructure = .unified →
    ∀ setup x, Lib.Reach (· = {}) (Tick cfg setup) x → Additive (x.ledger setup) := by
  intro hall
  obtain ⟨x, hx, hj⟩ := jammed_reachable 4294967297 (by decide) (by decide)
  obtain ⟨rest, table, start, done, wake, hw, hfirst, hsecond⟩ := hj.wrapper
  rw [show UInt32.ofNat 4294967297 = 1 by decide] at hw
  have hfresh : (x.ledger []).requests.lookup strayRead.ptr = none := hj.fresh _ (by decide)
  obtain ⟨hx₁, hw₁, hc₁⟩ := collectFirst_spec rest table start done wake hx
    (hj.now.le.trans (by decide)) hw
  obtain ⟨hx₂, hw₂, hc₂⟩ := answerFirst_spec rest (table.erase 1) start done hx₁ hw₁
  have hfresh₂ : ((x.collectFirst.negedge detailed).ledger []).requests.lookup strayRead.ptr = none := by
    rw [Clocked.ledger, hc₂, hc₁, List.append_nil, List.append_nil, Metrics.applyAll_append]
    exact (Metrics.requestCompleted_lookup_ne (by decide) _).trans hfresh
  obtain ⟨hx₃, hw₃, hc₃⟩ :=
    letIn_spec rest (table.erase 1) start done hx₂ (collectFirst_now x) hfresh₂ hw₂
  obtain ⟨hx₄, hw₄, hc₄⟩ :=
    serveRead_spec rest (table.erase 1) start done hx₃ (letIn_now _) hw₃
  obtain ⟨hx₅, hc₅⟩ := collectSecond_spec rest (table.erase 1) start done hx₄
    (by rw [serveRead_now]; decide) hw₄
  have hsecond' : (table.erase 1).lookup 2 = some secondDone := by
    rw [AList.lookup_erase_ne (by decide), hsecond]
  refine overlapCalls_overlap hfresh hj.second ?_
  have hadditive := hall detailed rfl [] _ hx₅
  rw [Clocked.ledger, hc₅, hc₄, hc₃, hc₂, hc₁, hfirst, hsecond'] at hadditive
  simp only [List.append_nil, List.append_assoc, List.singleton_append, Option.getD_some] at hadditive
  rwa [Metrics.applyAll_append] at hadditive

end Hsim.PimWrapper
