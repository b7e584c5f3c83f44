import Hsim.PimClocked

/-! Resource stall is part of queue wait.

The wait of a request is counted when it starts, its stall when the thread takes
it off the pending queue, possibly a mode change earlier. The stall began after
the arrival and ends before the start, so it is no longer than the wait. What is
reported ahead of its wait is the stall of the one request in the hands of the
thread; at the top of the loop there is none. -/
namespace Hsim.PimWrapper

/-- A stall reported for kind `k` whose wait is not counted yet. -/
def Owed (ledger : Metrics.State) (now : Time) (s : State) (k : Bool) (owed : Nat) : Prop :=
  owed = 0 ∨ ∃ t wake, s.thread = .switching t wake ∧ t.isPim = k ∧
    ∀ r, ledger.requests.lookup t.ptr = some r → r.arrivalNs + owed ≤ toNs now

/-- The table of contention waits knows at most the head of the queue, and that since its
arrival or later. -/
structure HeadNoted (ledger : Metrics.State) (now : Time) (s : State) : Prop where
  head : ∀ ptr, (s.contentionWaitStart.lookup ptr).isSome →
    s.pendingQueue.head?.map (·.ptr) = some ptr
  since : ∀ t ∈ s.pendingQueue.head?, ∀ start, s.contentionWaitStart.lookup t.ptr = some start →
    start ≤ now ∧ ∀ r, ledger.requests.lookup t.ptr = some r → r.arrivalNs ≤ toNs start

/-- Stalls against waits, over all the calls so far. -/
def Balanced (base : Metrics.State) (calls : List Metrics.Call) (now : Time) (s : State) : Prop :=
  ∀ k, ∃ owed, Owed (Metrics.applyAll base calls) now s k owed ∧
    Metrics.stalledNs k calls ≤ Metrics.waitedNs .pim k base calls + owed

/-! ### Calls that count nothing -/

/-- A sequence of calls without a stall or a start. -/
def Quiet (calls : List Metrics.Call) : Prop :=
  ∀ c ∈ calls, (∀ d t start channel, c ≠ .started d t start channel) ∧
    ∀ start finish draft, c ≠ .stall start finish draft

theorem Quiet.stalledNs {calls : List Metrics.Call} (h : Quiet calls) (k : Bool) :
    Metrics.stalledNs k calls = 0 := by
  refine List.sum_eq_zero fun n hn => ?_
  obtain ⟨c, hc, rfl⟩ := List.mem_map.mp hn
  cases c with
  | stall start finish draft => exact absurd rfl ((h _ hc).2 start finish draft)
  | _ => rfl

theorem Quiet.waitedNs {calls : List Metrics.Call} (h : Quiet calls) (d : Metrics.Device) (k : Bool)
    (s : Metrics.State) : Metrics.waitedNs d k s calls = 0 := by
  induction calls generalizing s with
  | nil => rfl
  | cons c calls ih =>
    rw [Metrics.waitedNs, Metrics.Call.waitNs_of_not_started (h c List.mem_cons_self).1,
      ih fun c' hc' => h c' (List.mem_cons_of_mem c hc')]

theorem quiet_completed (done : List (Time × Payload)) :
    Quiet (done.map fun e => .completed .pim e.2 e.1) := by
  intro c hc
  obtain ⟨e, -, rfl⟩ := List.mem_map.mp hc
  exact ⟨by simp, by simp⟩

section Balance

variable {base : Metrics.State} {calls more : List Metrics.Call} {now now' : Time} {s s' : State}

theorem Owed.later {ledger : Metrics.State} {k : Bool} {owed : Nat}
    (h : Owed ledger now s k owed) (hle : now ≤ now') : Owed ledger now' s k owed := by
  rcases h with h | ⟨t, wake, ht, hk, hr⟩
  · exact .inl h
  · exact .inr ⟨t, wake, ht, hk, fun r hl => (hr r hl).trans (toNs_mono hle)⟩

/-- Calls that count nothing and touch no waiting request leave the balance as it is. -/
theorem Balanced.quiet (h : Balanced base calls now s) (hthread : s'.thread = s.thread)
    (hstall : ∀ k, Metrics.stalledNs k more = 0)
    (hwait : ∀ k, Metrics.waitedNs .pim k (Metrics.applyAll base calls) more = 0)
    (hl : ∀ t ∈ s.waiting, (Metrics.applyAll base (calls ++ more)).requests.lookup t.ptr =
      (Metrics.applyAll base calls).requests.lookup t.ptr) :
    Balanced base (calls ++ more) now s' := by
  intro k
  obtain ⟨owed, howed, hle⟩ := h k
  refine ⟨owed, ?_, ?_⟩
  · rcases howed with h0 | ⟨t, wake, ht, hk, hr⟩
    · exact .inl h0
    · refine .inr ⟨t, wake, hthread.trans ht, hk, fun r hrl => hr r ?_⟩
      rwa [hl t (by rw [State.waiting, ht]; simp)] at hrl
  · rw [Metrics.stalledNs_append, Metrics.waitedNs_append, hstall, hwait]
    omega

/-- With nothing in the hands of the thread, nothing is owed. -/
theorem Balanced.settled (h : Balanced base calls now s)
    (ht : ∀ t wake, s.thread ≠ .switching t wake) (k : Bool) :
    Metrics.stalledNs k calls ≤ Metrics.waitedNs .pim k base calls := by
  obtain ⟨owed, h0 | ⟨t, wake, hs, -⟩, hle⟩ := h k
  · omega
  · exact absurd hs (ht t wake)

end Balance

theorem applyAll_aside {calls : List Metrics.Call} (ledger : Metrics.State)
    (h : ∀ c ∈ calls, c.isRequest = false) :
    (Metrics.applyAll ledger calls).requests = ledger.requests := by
  induction calls generalizing ledger with
  | nil => rfl
  | cons c calls ih =>
    have hrest := ih (Metrics.apply ledger c) fun c' hc' => h c' (List.mem_cons_of_mem c hc')
    exact hrest.trans (Metrics.apply_aside ledger (h c List.mem_cons_self)).1

/-! ### The invariant -/

/-- The requests in the module against all the calls so far. -/
structure Waits (base : Metrics.State) (calls : List Metrics.Call) (now : Time) (s : State) : Prop where
  records : ∃ promise, Promised promise now s ∧
    OnRecord (Metrics.applyAll base calls) now promise s.waiting s.serving
  noted : HeadNoted (Metrics.applyAll base calls) now s
  balanced : Balanced base calls now s

/-- What the invariant reads of the module besides the requests in service. -/
structure SameWaits (s s' : State) : Prop where
  thread : s'.thread = s.thread
  pending : s'.pendingQueue = s.pendingQueue
  contention : s'.contentionWaitStart = s.contentionWaitStart

theorem SameWaits.waiting {s s' : State} (h : SameWaits s s') : s'.waiting = s.waiting := by
  rw [State.waiting, State.waiting, h.thread, h.pending]

section Waits

variable {base : Metrics.State} {calls more : List Metrics.Call} {now now' : Time} {s s' : State}

theorem mem_waiting_of_head {t : Payload} (h : t ∈ s.pendingQueue.head?) : t ∈ s.waiting :=
  Multiset.mem_add.mpr (.inl (Multiset.mem_coe.mpr (List.mem_of_mem_head? h)))

theorem HeadNoted.of_same {ledger ledger' : Metrics.State} (h : HeadNoted ledger now s)
    (hs : SameWaits s s') (hl : ∀ t ∈ s.waiting, ledger'.requests.lookup t.ptr =
      ledger.requests.lookup t.ptr) : HeadNoted ledger' now s' := by
  refine ⟨fun ptr hptr => ?_, fun t ht start hstart => ?_⟩
  · rw [hs.contention] at hptr
    rw [hs.pending]
    exact h.head ptr hptr
  · rw [hs.pending] at ht
    rw [hs.contention] at hstart
    rw [hl t (mem_waiting_of_head ht)]
    exact h.since t ht start hstart

theorem Waits.later (h : Waits base calls now s) (hle : now ≤ now') : Waits base calls now' s := by
  obtain ⟨promise, hp, hr⟩ := h.records
  refine ⟨⟨promise, hp.later hle, hr.later hle⟩, ⟨h.noted.head, fun t ht start hstart => ?_⟩,
    fun k => ?_⟩
  · obtain ⟨hnow, harr⟩ := h.noted.since t ht start hstart
    exact ⟨hnow.trans hle, harr⟩
  · obtain ⟨owed, howed, hsum⟩ := h.balanced k
    exact ⟨owed, howed.later hle, hsum⟩

/-- A step that leaves the waiting requests alone, with calls that count nothing. -/
theorem Waits.quiet (h : Waits base calls now s) (hs : SameWaits s s')
    (hrecords : ∃ promise, Promised promise now s' ∧
      OnRecord (Metrics.applyAll base (calls ++ more)) now promise s'.waiting s'.serving)
    (hstall : ∀ k, Metrics.stalledNs k more = 0)
    (hwait : ∀ k, Metrics.waitedNs .pim k (Metrics.applyAll base calls) more = 0)
    (hl : ∀ t ∈ s.waiting, (Metrics.applyAll base (calls ++ more)).requests.lookup t.ptr =
      (Metrics.applyAll base calls).requests.lookup t.ptr) :
    Waits base (calls ++ more) now s' :=
  ⟨hrecords, h.noted.of_same hs hl, h.balanced.quiet hs.thread hstall hwait hl⟩

theorem lookup_completed (done : List (Time × Payload)) (ledger : Metrics.State) {ptr : Nat}
    (h : ∀ e ∈ done, ptr ≠ e.2.ptr) :
    (Metrics.applyAll ledger (done.map fun e => .completed .pim e.2 e.1)).requests.lookup ptr =
      ledger.requests.lookup ptr := by
  induction done generalizing ledger with
  | nil => rfl
  | cons e done ih =>
    have hrest := ih (Metrics.requestCompleted ledger .pim e.2 e.1)
      fun e' he' => h e' (List.mem_cons_of_mem e he')
    exact hrest.trans (Metrics.requestCompleted_lookup_ne (h e List.mem_cons_self) e.1)

/-- Collecting reports only requests in service. -/
theorem Waits.collect (h : Waits base calls now s) :
    Waits base (calls ++ metricsCalls (collect now s).2) now (collect now s).1 := by
  obtain ⟨promise, hp, hr⟩ := h.records
  obtain ⟨done, hcollected⟩ := collect_collected hp
  have hne : ∀ t ∈ s.waiting, ∀ e ∈ done, t.ptr ≠ e.2.ptr := by
    intro t ht e he
    have hserving : e.2 ∈ s.serving := by
      rw [hcollected.serving]
      exact Multiset.mem_add.mpr (.inl (List.mem_map_of_mem he))
    exact Metrics.Booked.ptr_ne hr ht hserving
  have hcontention : (PimWrapper.collect now s).1.contentionWaitStart = s.contentionWaitStart := by
    simp only [PimWrapper.collect, Action.seq_fst, takeCompleted]
    split
    · rfl
    · split <;> rfl
  obtain ⟨hthread, hpending⟩ := collect_frame now s
  rw [hcollected.serving] at hr
  rw [hcollected.calls]
  refine h.quiet ⟨hthread, hpending, hcontention⟩ ⟨promise, hcollected.promised, ?_⟩
    (quiet_completed done).stalledNs (fun k => (quiet_completed done).waitedNs _ k _) fun t ht => ?_
  · rw [Metrics.applyAll_append, hcollected.waiting]
    exact OnRecord.completeAll done hr
  · rw [Metrics.applyAll_append]
    exact lookup_completed done _ (hne t ht)

/-- The end of the loop body, with nothing in the hands of the thread. -/
theorem Waits.finishIteration (h : Waits base calls now s)
    (ht : ∀ t wake, s.thread ≠ .switching t wake) (cfg : Config) (env : Env) (blocked : Bool) :
    Waits base (calls ++ metricsCalls (finishIteration cfg env now blocked s).2) now
      (finishIteration cfg env now blocked s).1 := by
  obtain ⟨promise, hp, hr⟩ := h.records
  obtain ⟨hpromised, hserving, hwaiting, hcalls⟩ := finishIteration_promised cfg env blocked hp
  obtain ⟨hpending, hthread, -⟩ := finishIteration_frame cfg env now blocked s
  obtain ⟨thread, -, hstate, -⟩ := finishIteration_spec cfg env now blocked s
  have hcontention : (PimWrapper.finishIteration cfg env now blocked s).1.contentionWaitStart =
      s.contentionWaitStart := by
    rw [hstate]
    rfl
  rw [hcalls, List.append_nil]
  refine ⟨⟨promise, hpromised, ?_⟩, ⟨fun ptr hptr => ?_, fun t ht' start hstart => ?_⟩, fun k => ?_⟩
  · rw [hserving, hwaiting]
    rwa [waiting_eq_of_thread ht] at hr
  · rw [hcontention] at hptr
    rw [hpending]
    exact h.noted.head ptr hptr
  · rw [hpending] at ht'
    rw [hcontention] at hstart
    exact h.noted.since t ht' start hstart
  · exact ⟨0, .inl rfl, h.balanced.settled ht k⟩

end Waits

/-! ### The head of the queue -/

section Head

variable {base : Metrics.State} {calls : List Metrics.Call} {now : Time} {s : State}
  {cfg : Config} {env : Env} {t : Payload} {rest : List Payload}

/-- A blocked head is noted once, after its arrival. -/
theorem Waits.noteContention (h : Waits base calls now s) (hq : s.pendingQueue = t :: rest) :
    Waits base calls now (noteContention now t s) := by
  unfold PimWrapper.noteContention
  split
  · exact h
  · obtain ⟨promise, hp, hr⟩ := h.records
    have hplaces : SamePlaces s
        {s with contentionWaitStart := s.contentionWaitStart.insert t.ptr now} := ⟨rfl, rfl, rfl, rfl⟩
    refine ⟨⟨promise, hplaces.promised hp, hr⟩, ⟨fun ptr hptr => ?_, fun u hu start hstart => ?_⟩,
      h.balanced⟩
    · by_cases he : ptr = t.ptr
      · simp [hq, he]
      · rw [AList.lookup_insert_ne he] at hptr
        exact h.noted.head ptr hptr
    · have hut : u = t := by simpa [hq] using hu.symm
      subst hut
      rw [AList.lookup_insert, Option.some.injEq] at hstart
      subst hstart
      refine ⟨le_rfl, fun r hl => ?_⟩
      obtain ⟨r', hr', -, hw⟩ := hr.waiting u (mem_waiting_of_head hu)
      rw [hr'.lookup, Option.some.injEq] at hl
      rw [← hl]
      exact hw.arrival

/-- When the head is taken, what it is owed is covered by the time since its arrival. -/
theorem HeadNoted.owed {ledger : Metrics.State} (h : HeadNoted ledger now s)
    (hq : s.pendingQueue = t :: rest) (k : Bool) :
    ∃ owed, Metrics.stalledNs k (stallCalls now t s) = owed ∧ (owed = 0 ∨ t.isPim = k ∧
      ∀ r, ledger.requests.lookup t.ptr = some r → r.arrivalNs + owed ≤ toNs now) := by
  refine ⟨_, rfl, ?_⟩
  unfold stallCalls
  cases hl : s.contentionWaitStart.lookup t.ptr with
  | none => exact .inl rfl
  | some start =>
    dsimp only
    split
    · obtain ⟨hstart, harr⟩ := h.since t (by simp [hq]) start hl
      by_cases hk : t.isPim = k
      · right
        refine ⟨hk, fun r hr => ?_⟩
        have hle := toNs_mono hstart
        have ha := harr r hr
        simp only [Metrics.stalledNs, List.map_cons, List.map_nil, Metrics.Call.stallNs, hk, if_true,
          List.sum_cons, List.sum_nil]
        omega
      · left
        simp [Metrics.stalledNs, Metrics.Call.stallNs, hk]
    · exact .inl rfl

/-- Once the head is taken the table is empty. -/
theorem HeadNoted.taken {ledger : Metrics.State} (h : HeadNoted ledger now s)
    (hq : s.pendingQueue = t :: rest) (ptr : Nat) :
    (s.contentionWaitStart.erase t.ptr).lookup ptr = none := by
  by_cases he : ptr = t.ptr
  · rw [he]
    exact AList.lookup_erase t.ptr s.contentionWaitStart
  · rw [AList.lookup_erase_ne he]
    cases hl : s.contentionWaitStart.lookup ptr with
    | none => rfl
    | some start =>
      have hhead := h.head ptr (by simp [hl])
      rw [hq] at hhead
      exact absurd (by simpa using hhead.symm) he

theorem headNoted_of_empty {ledger : Metrics.State} (h : ∀ ptr, s.contentionWaitStart.lookup ptr = none) :
    HeadNoted ledger now s :=
  ⟨fun ptr hptr => by simp [h ptr] at hptr, fun t _ start hstart => by simp [h t.ptr] at hstart⟩

/-- The wait counted at the start of a request covers what it is owed. -/
theorem waitNs_covers {ledger : Metrics.State} {r : Metrics.Request} {start : Time} (channel : Int)
    (hr : Metrics.OpenRecord .pim ledger t r) (hneg : r.startNs < 0) (hkind : r.pimCompute = t.isPim)
    (hstart : now ≤ start) {k : Bool} {owed : Nat} (howed : owed = 0 ∨ t.isPim = k ∧
      ∀ r, ledger.requests.lookup t.ptr = some r → r.arrivalNs + owed ≤ toNs now) :
    owed ≤ (Metrics.Call.started .pim t start channel).waitNs ledger .pim k := by
  rcases howed with rfl | ⟨hk, hle⟩
  · exact Nat.zero_le _
  · have hbound := hle r hr.lookup
    have hmono := toNs_mono hstart
    simp only [Metrics.Call.waitNs, hr.lookup, true_and]
    rw [if_pos ⟨hr.device, hkind.trans hk, hneg⟩]
    omega

end Head

/-! ### One request in the hands of the thread -/

/-- The thread has taken `t` off the queue and not handed it over. -/
structure InHand (base : Metrics.State) (calls : List Metrics.Call) (now : Time) (t : Payload)
    (s : State) : Prop where
  records : ∃ promise, Promised promise now s ∧ OnRecord (Metrics.applyAll base calls) now promise
    (t ::ₘ (s.pendingQueue : Multiset Payload)) s.serving
  noted : HeadNoted (Metrics.applyAll base calls) now s
  balanced : ∀ k, ∃ owed : Nat, (owed = 0 ∨ t.isPim = k ∧
      ∀ r, (Metrics.applyAll base calls).requests.lookup t.ptr = some r →
        r.arrivalNs + owed ≤ toNs now) ∧
    Metrics.stalledNs k calls ≤ Metrics.waitedNs .pim k base calls + owed

section InHand

variable {base : Metrics.State} {calls more : List Metrics.Call} {now : Time} {s s' : State}
  {cfg : Config} {env : Env} {t : Payload}

theorem Waits.inHand {wake : Time} (h : Waits base calls now s) (ht : s.thread = .switching t wake) :
    InHand base calls now t s := by
  obtain ⟨promise, hp, hr⟩ := h.records
  rw [waiting_switching ht] at hr
  refine ⟨⟨promise, hp, hr⟩, h.noted, fun k => ?_⟩
  obtain ⟨owed, howed, hle⟩ := h.balanced k
  refine ⟨owed, ?_, hle⟩
  rcases howed with h0 | ⟨t', wake', ht', hk, hbound⟩
  · exact .inl h0
  · rw [ht, Thread.switching.injEq] at ht'
    obtain ⟨rfl, -⟩ := ht'
    exact .inr ⟨hk, hbound⟩

theorem InHand.served {promise : Nat → Time} {start done : Time} {channel : Int}
    (h : InHand base calls now t s)
    (hr : OnRecord (Metrics.applyAll base calls) now promise
      (t ::ₘ (s.pendingQueue : Multiset Payload)) s.serving)
    (hs : Served promise now t s s' more start done channel) (hwaiting : s'.waiting = s.pendingQueue) :
    Waits base (calls ++ more) now s' := by
  obtain ⟨r, hrec, hneg, hw⟩ := hr.waiting t (Multiset.mem_cons_self t _)
  rw [hs.reported]
  refine ⟨⟨_, hs.promised, ?_⟩, ⟨fun ptr hptr => ?_, fun u hu since hsince => ?_⟩, fun k => ?_⟩
  · rw [Metrics.applyAll_append, hwaiting, hs.serving]
    exact hr.start hs.notBefore hs.proper channel
  · rw [hs.contention] at hptr
    rw [hs.pending]
    exact h.noted.head ptr hptr
  · rw [hs.contention] at hsince
    rw [hs.pending] at hu
    have hne : u.ptr ≠ t.ptr := by
      intro he
      have hnodup := hr.nodup
      rw [Multiset.cons_add, Multiset.map_cons, Multiset.nodup_cons] at hnodup
      exact hnodup.1 (Multiset.mem_map.mpr ⟨u, Multiset.mem_add.mpr (.inl (Multiset.mem_coe.mpr
        (List.mem_of_mem_head? hu))), he⟩)
    obtain ⟨hle, harr⟩ := h.noted.since u hu since hsince
    refine ⟨hle, fun r' hr' => harr r' ?_⟩
    rw [Metrics.applyAll_append] at hr'
    exact (Metrics.requestStarted_lookup_ne hne start channel).symm.trans hr'
  · obtain ⟨owed, howed, hle⟩ := h.balanced k
    have hcover := waitNs_covers channel hrec hneg hw.kind hs.notBefore howed
    refine ⟨0, .inl rfl, ?_⟩
    rw [Metrics.stalledNs_append, Metrics.waitedNs_append]
    simp only [Metrics.stalledNs, List.map_cons, List.map_nil, Metrics.Call.stallNs, List.sum_cons,
      List.sum_nil, Metrics.waitedNs] at hle ⊢
    omega

theorem InHand.sent (h : InHand base calls now t s) :
    Waits base (calls ++ metricsCalls (sendTransaction cfg env now t s).2) now
      (sendTransaction cfg env now t s).1 := by
  obtain ⟨promise, hp, hr⟩ := h.records
  have hsent := sendTransaction_sent cfg env hp (OnRecord.ptr_ne hr)
  cases hsent with
  | handed start done channel hserved hwaiting _ => exact h.served hr hserved hwaiting
  | switched wake hcalls hplaces hpending hcontention hthread =>
    rw [hcalls, List.append_nil]
    refine ⟨⟨promise, hplaces.promised hp, ?_⟩, ⟨fun ptr hptr => ?_, fun u hu since hsince => ?_⟩,
      fun k => ?_⟩
    · rw [waiting_switching hthread, hpending, hplaces.serving]
      exact hr
    · rw [hcontention] at hptr
      rw [hpending]
      exact h.noted.head ptr hptr
    · rw [hcontention] at hsince
      rw [hpending] at hu
      exact h.noted.since u hu since hsince
    · obtain ⟨owed, howed, hle⟩ := h.balanced k
      refine ⟨owed, ?_, hle⟩
      rcases howed with h0 | ⟨hk, hbound⟩
      · exact .inl h0
      · exact .inr ⟨t, wake, hthread, hk, hbound⟩

/-- Taking the head off the queue ends its contention wait. -/
theorem Waits.dequeue {rest : List Payload} (h : Waits base calls now s)
    (ht : ∀ t wake, s.thread ≠ .switching t wake) (hq : s.pendingQueue = t :: rest) :
    InHand base
      (calls ++ metricsCalls (finishContentionWait now t {s with pendingQueue := rest}).2) now t
      (finishContentionWait now t {s with pendingQueue := rest}).1 := by
  obtain ⟨promise, hp, hr⟩ := h.records
  obtain ⟨hcalls, hcontention⟩ := finishContentionWait_calls now t {s with pendingQueue := rest}
  have hdeq := (finishContentionWait_spec now t {s with pendingQueue := rest}).1
  have hpending := hdeq.unchanged.2.1
  have hplaces : SamePlaces s (finishContentionWait now t {s with pendingQueue := rest}).1 := by
    obtain ⟨a, b, c, d⟩ := hdeq.samePlaces
    exact ⟨a, b, c, d⟩
  have hstall : stallCalls now t {s with pendingQueue := rest} = stallCalls now t s := rfl
  have hsame := applyAll_aside (Metrics.applyAll base calls) (stallCalls_aside now t s)
  rw [hcalls, hstall]
  rw [waiting_eq_of_thread ht, hq, ← Multiset.cons_coe] at hr
  refine ⟨⟨promise, hplaces.promised hp, ?_⟩, headNoted_of_empty fun ptr => ?_, fun k => ?_⟩
  · rw [Metrics.applyAll_append, hpending, hplaces.serving]
    exact Metrics.Booked.of_lookup hr fun u _ => by rw [hsame]
  · rw [hcontention]
    exact h.noted.taken hq ptr
  · obtain ⟨owed, howed, hbound⟩ := h.noted.owed hq k
    have hle := h.balanced.settled ht k
    refine ⟨owed, ?_, ?_⟩
    · rw [Metrics.applyAll_append, hsame]
      exact hbound
    · rw [Metrics.stalledNs_append, howed]
      have hmono : Metrics.waitedNs .pim k base calls ≤
          Metrics.waitedNs .pim k base (calls ++ stallCalls now t s) := by
        rw [Metrics.waitedNs_append]
        exact Nat.le_add_right _ _
      omega

end InHand

/-! ### Runs -/

section Runs

variable {base : Metrics.State} {calls : List Metrics.Call} {now : Time} {s : State} {cfg : Config}

theorem Waits.iterate (hc : cfg.memoryStructure = .unified) (h : Waits base calls now s)
    {wake : Time} {onEvent : Bool} (ht : s.thread = .waiting wake onEvent) (env : Env) :
    Waits base (calls ++ metricsCalls (iterate cfg env now s).2) now (iterate cfg env now s).1 := by
  have hprocess : process cfg env now = processUnified cfg env now := by
    simp only [process, hc]
  have hcollect := h.collect
  have hthread : ∀ t wake, (PimWrapper.collect now s).1.thread ≠ .switching t wake := by
    rw [(collect_frame now s).1, ht]
    simp
  rw [PimWrapper.iterate, Action.seq_fst, Action.seq_snd, metricsCalls_append, ← List.append_assoc,
    hprocess]
  generalize (PimWrapper.collect now s).1 = c at hcollect hthread ⊢
  generalize calls ++ metricsCalls (PimWrapper.collect now s).2 = calls' at hcollect ⊢
  rcases processUnified_cases cfg env now c with
    ⟨-, he⟩ | ⟨t, rest, hq, -, he⟩ | ⟨t, rest, hq, -, he⟩
  · rw [he]
    exact hcollect.finishIteration hthread cfg env false
  · have hnoted : ∀ t' wake, (PimWrapper.noteContention now t c).thread ≠ .switching t' wake := by
      unfold PimWrapper.noteContention
      split <;> exact hthread
    rw [he]
    exact (hcollect.noteContention hq).finishIteration hnoted cfg env cfg.fastLayerMode
  · rw [he, Action.seq_fst, Action.seq_snd, metricsCalls_append, ← List.append_assoc]
    exact (hcollect.dequeue hthread hq).sent

theorem Waits.resume (h : Waits base calls now s) {t : Payload} {wake : Time}
    (ht : s.thread = .switching t wake) (env : Env) :
    Waits base (calls ++ metricsCalls (resume cfg env now t s).2) now (resume cfg env now t s).1 := by
  have hhand := h.inHand ht
  obtain ⟨promise, hp, hr⟩ := hhand.records
  obtain ⟨start, done, channel, hserved, hwaiting, -⟩ :=
    resume_served cfg env hp (OnRecord.ptr_ne hr)
  exact hhand.served hr hserved hwaiting

/-- Calls without a stall name no stalled request. -/
theorem stalledBy_eq_nil {effects : List Effect}
    (h : ∀ c ∈ metricsCalls effects, ∀ start finish draft, c ≠ .stall start finish draft) :
    Clocked.stalledBy s effects = [] := by
  refine List.filterMap_eq_nil_iff.mpr fun c hc => ?_
  cases c with
  | stall start finish draft => exact absurd rfl (h _ hc start finish draft)
  | _ => rfl

theorem stalledBy_append (a b : List Effect) :
    Clocked.stalledBy s (a ++ b) = Clocked.stalledBy s a ++ Clocked.stalledBy s b := by
  rw [Clocked.stalledBy, metricsCalls_append, List.filterMap_append]
  rfl

theorem stalledBy_finishIteration (env : Env) (blocked : Bool) (s' : State) :
    Clocked.stalledBy s (finishIteration cfg env now blocked s').2 = [] := by
  obtain ⟨thread, -, -, heffects⟩ := finishIteration_spec cfg env now blocked s'
  refine stalledBy_eq_nil fun c hc => ?_
  rw [heffects] at hc
  split at hc <;> simp [metricsCalls] at hc

theorem stalledBy_handOver (t : Payload) (s' : State) :
    Clocked.stalledBy s (handOver cfg now t s').2 = [] := by
  refine stalledBy_eq_nil fun c hc => ?_
  unfold handOver handOverCompute handOverMemory at hc
  split at hc <;> dsimp only at hc <;> split at hc <;> simp [metricsCalls] at hc <;> simp [hc]

theorem stalledBy_sendTransaction (cfg : Config) (env : Env) (now : Time) (t : Payload)
    (s s' : State) :
    Clocked.stalledBy s (sendTransaction cfg env now t s').2 = [] ∧
      (sendTransaction cfg env now t s').1.pendingQueue = s'.pendingQueue := by
  unfold sendTransaction
  split
  · rw [Action.seq_snd, stalledBy_append, stalledBy_handOver, stalledBy_finishIteration,
      Action.seq_fst, (finishIteration_frame cfg env now false _).1,
      (handOver_spec cfg now t s').2.2]
    exact ⟨rfl, rfl⟩
  · exact ⟨rfl, rfl⟩

theorem stalledBy_collect : Clocked.stalledBy s (PimWrapper.collect now s).2 = [] := by
  refine stalledBy_eq_nil fun c hc => ?_
  simp only [PimWrapper.collect, Action.seq_snd, metricsCalls_append, List.mem_append,
    completeFastMemoryRequests, completeFastComputeRequests, metricsCalls_due] at hc
  rcases hc with hc | hc | hc
  · exact ((quiet_completed _) c hc).2
  · exact ((quiet_completed _) c hc).2
  · unfold takeCompleted at hc
    split at hc
    · simp [metricsCalls] at hc
    · split at hc <;> simp [metricsCalls] at hc <;> simp [hc]

/-- The head an iteration reports a stall for is gone from the queue. -/
theorem stalledBy_iterate (hc : cfg.memoryStructure = .unified) (env : Env) (now : Time) (s : State) :
    (Clocked.stalledBy s (PimWrapper.iterate cfg env now s).2 : Multiset Payload) +
      (PimWrapper.iterate cfg env now s).1.pendingQueue ≤ s.pendingQueue := by
  have hprocess : process cfg env now = processUnified cfg env now := by
    simp only [process, hc]
  have hpending := (collect_frame now s).2
  rw [PimWrapper.iterate, Action.seq_fst, Action.seq_snd, stalledBy_append, stalledBy_collect,
    hprocess, List.nil_append]
  generalize (PimWrapper.collect now s).1 = c at hpending ⊢
  rcases processUnified_cases cfg env now c with
    ⟨-, he⟩ | ⟨t, rest, -, -, he⟩ | ⟨t, rest, hq, -, he⟩
  · rw [he, stalledBy_finishIteration, (finishIteration_frame cfg env now false c).1, hpending]
    simp
  · rw [he, stalledBy_finishIteration, (finishIteration_frame cfg env now _ _).1,
      (noteContention_unchanged now t c).2, hpending]
    simp
  · have hdeq := (finishContentionWait_spec now t {c with pendingQueue := rest}).1
    have hcalls := (finishContentionWait_calls now t {c with pendingQueue := rest}).1
    obtain ⟨hquiet, hsent⟩ := stalledBy_sendTransaction cfg env now t s
      (finishContentionWait now t {c with pendingQueue := rest}).1
    rw [hpending] at hq
    have hhead : Clocked.stalledBy s (finishContentionWait now t {c with pendingQueue := rest}).2 = [] ∨
        Clocked.stalledBy s (finishContentionWait now t {c with pendingQueue := rest}).2 = [t] := by
      rw [Clocked.stalledBy, hcalls, stallCalls]
      split
      · exact .inl rfl
      · split
        · right
          simp [hq]
        · exact .inl rfl
    rw [he, Action.seq_fst, Action.seq_snd, stalledBy_append, hquiet, List.append_nil, hsent,
      hdeq.unchanged.2.1, hq, ← Multiset.cons_coe]
    rcases hhead with hnone | hone
    · rw [hnone, Multiset.coe_nil, zero_add]
      exact Multiset.le_cons_self _ _
    · rw [hone, Multiset.coe_singleton, Multiset.singleton_add]

end Runs

/-- The invariant of a clocked run. -/
structure Clocked.Contended (setup : List (Metrics.Device × UInt32 × String)) (x : Clocked) : Prop where
  waits : Waits (Metrics.configured setup) x.calls x.now x.wrapper
  once : (x.stalled : Multiset Payload) + x.wrapper.pendingQueue ≤ x.arrived

/-- An edge touches no waiting request. -/
theorem Waits.edge {base : Metrics.State} {calls : List Metrics.Call} {now : Time} {s : State}
    (h : Waits base calls now s) {r : State × List Effect} (hplaces : SamePlaces s r.1)
    (hsame : SameWaits s r.1) (hcalls : ∀ c ∈ metricsCalls r.2, ∃ id finish, c = .pimEpisode id finish) :
    Waits base (calls ++ metricsCalls r.2) now r.1 := by
  have hquiet : Quiet (metricsCalls r.2) := by
    intro c hc
    obtain ⟨id, finish, rfl⟩ := hcalls c hc
    exact ⟨by simp, by simp⟩
  have hledger : (Metrics.applyAll base (calls ++ metricsCalls r.2)).requests =
      (Metrics.applyAll base calls).requests := by
    rw [Metrics.applyAll_append]
    refine applyAll_aside _ fun c hc => ?_
    obtain ⟨id, finish, rfl⟩ := hcalls c hc
    rfl
  obtain ⟨promise, hp, hr⟩ := h.records
  refine h.quiet hsame ⟨promise, hplaces.promised hp, ?_⟩ hquiet.stalledNs
    (fun k => hquiet.waitedNs _ k _) fun t _ => by rw [hledger]
  rw [hsame.waiting, hplaces.serving]
  exact Metrics.Booked.of_lookup hr fun t _ => by rw [hledger]

theorem Waits.arrive {base : Metrics.State} {calls : List Metrics.Call} {now : Time} {s : State}
    (h : Waits base calls now s) {t : Payload} (hptr : t.ptr ≠ 0)
    (hl : (Metrics.applyAll base calls).requests.lookup t.ptr = none) :
    Waits base (calls ++ metricsCalls (peqCb now t s).2) now (peqCb now t s).1 := by
  obtain ⟨promise, hp, hr⟩ := h.records
  have hplaces : SamePlaces s (peqCb now t s).1 := ⟨rfl, rfl, rfl, rfl⟩
  have hwaiting := peqCb_waiting now t s
  have hne : ∀ u ∈ s.waiting, u.ptr ≠ t.ptr := by
    intro u hu he
    obtain ⟨r, hrec⟩ := Metrics.Booked.isOpen hr (Multiset.mem_add.mpr (.inl hu))
    have hsome := hrec.lookup
    rw [he, hl] at hsome
    exact absurd hsome (by simp)
  have hlookup : ∀ u ∈ s.waiting,
      (Metrics.applyAll base (calls ++ metricsCalls (peqCb now t s).2)).requests.lookup u.ptr =
        (Metrics.applyAll base calls).requests.lookup u.ptr := by
    intro u hu
    rw [Metrics.applyAll_append]
    exact Metrics.requestArrived_lookup_ne (hne u hu) _ _ _
  have hquiet : Quiet (metricsCalls (peqCb now t s).2) := by
    intro c hc
    obtain rfl := List.mem_singleton.mp hc
    exact ⟨by simp, by simp⟩
  refine ⟨⟨promise, hplaces.promised hp, ?_⟩, ⟨fun ptr hsome => ?_, fun u hu since hsince => ?_⟩,
    h.balanced.quiet rfl hquiet.stalledNs (fun k => hquiet.waitedNs _ k _) hlookup⟩
  · rw [hwaiting, hplaces.serving, Metrics.applyAll_append]
    exact hr.arrive _ hptr hl
  · -- a noted head stays the head
    have hhead := h.noted.head ptr hsome
    cases hq : s.pendingQueue with
    | nil => simp [hq] at hhead
    | cons v rest => simpa [peqCb, hq] using hhead
  · cases hq : s.pendingQueue with
    | nil =>
      have hhead := h.noted.head u.ptr (by
        show (s.contentionWaitStart.lookup u.ptr).isSome
        rw [show s.contentionWaitStart.lookup u.ptr = some since from hsince]
        rfl)
      simp [hq] at hhead
    | cons v rest =>
      have huv : u ∈ s.pendingQueue.head? := by simpa [peqCb, hq] using hu
      rw [hlookup u (mem_waiting_of_head huv)]
      exact h.noted.since u huv since hsince

theorem Tick.contended {cfg : Config} {setup : List (Metrics.Device × UInt32 × String)}
    (hc : cfg.memoryStructure = .unified) {x x' : Clocked} (hs : Tick cfg setup x x')
    (h : x.Contended setup) : x'.Contended setup := by
  cases hs with
  | elapse now hnow => exact ⟨h.waits.later hnow, h.once⟩
  | report c hforeign =>
    obtain ⟨promise, hp, hr⟩ := h.waits.records
    have hledger : Metrics.applyAll (Metrics.configured setup) (x.calls ++ [c]) =
        Metrics.apply (x.ledger setup) c := Metrics.applyAll_append _ _ _
    refine ⟨h.waits.quiet ⟨rfl, rfl, rfl⟩ ⟨promise, hp, ?_⟩ (fun k => ?_) (fun k => ?_)
      fun t ht => ?_, h.once⟩
    · rw [hledger]
      exact Metrics.Booked.foreign hr hforeign
    · simp [Metrics.stalledNs, hforeign.stallNs]
    · rw [Metrics.waitedNs, Metrics.waitedNs, Nat.add_zero]
      exact hforeign.waitNs k
    · obtain ⟨r, hrec⟩ := Metrics.Booked.isOpen hr (Multiset.mem_add.mpr (.inl ht))
      rw [hledger, hforeign.lookup hrec.lookup hrec.device]
      exact hrec.lookup.symm
  | arrive t hptr hl =>
    refine ⟨h.waits.arrive hptr hl, ?_⟩
    show (x.stalled : Multiset Payload) + (x.wrapper.pendingQueue ++ [t] : List Payload) ≤
      (x.arrived ++ [t] : List Payload)
    rw [← Multiset.coe_add, ← Multiset.coe_add, ← add_assoc]
    exact add_le_add_left h.once _
  | iterate env wake onEvent ht =>
    refine ⟨h.waits.iterate hc ht env, ?_⟩
    show (x.stalled ++ Clocked.stalledBy x.wrapper _ : Multiset Payload) + _ ≤ _
    rw [← Multiset.coe_add, add_assoc]
    exact (add_le_add_right (stalledBy_iterate hc env x.now x.wrapper) _).trans h.once
  | resume env t wake ht =>
    refine ⟨h.waits.resume ht env, ?_⟩
    have hpending : (PimWrapper.resume cfg env x.now t x.wrapper).1.pendingQueue =
        x.wrapper.pendingQueue := by
      rw [PimWrapper.resume, Action.seq_fst, (finishIteration_frame cfg env x.now false _).1,
        (handOver_spec cfg x.now t _).2.2]
    show (x.stalled : Multiset Payload) + (PimWrapper.resume cfg env x.now t x.wrapper).1.pendingQueue ≤ _
    rw [hpending]
    exact h.once
  | posedge =>
    have hsame : SamePlaces x.wrapper (clockPosedge cfg x.now x.wrapper).1 ∧
        SameWaits x.wrapper (clockPosedge cfg x.now x.wrapper).1 := by
      unfold clockPosedge
      split <;> exact ⟨⟨rfl, rfl, rfl, rfl⟩, ⟨rfl, rfl, rfl⟩⟩
    refine ⟨h.waits.edge hsame.1 hsame.2 (by simp [metricsCalls_clockPosedge]), ?_⟩
    show (x.stalled : Multiset Payload) + (clockPosedge cfg x.now x.wrapper).1.pendingQueue ≤ _
    rw [hsame.2.pending]
    exact h.once
  | negedge =>
    have hsame : SamePlaces x.wrapper (clockNegedge cfg x.now x.wrapper).1 ∧
        SameWaits x.wrapper (clockNegedge cfg x.now x.wrapper).1 := by
      unfold clockNegedge
      split <;> exact ⟨⟨rfl, rfl, rfl, rfl⟩, ⟨rfl, rfl, rfl⟩⟩
    refine ⟨h.waits.edge hsame.1 hsame.2 (metricsCalls_clockNegedge cfg x.now x.wrapper), ?_⟩
    show (x.stalled : Multiset Payload) + (clockNegedge cfg x.now x.wrapper).1.pendingQueue ≤ _
    rw [hsame.2.pending]
    exact h.once

theorem contended_initial (setup : List (Metrics.Device × UInt32 × String)) :
    ({} : Clocked).Contended setup := by
  have hwaiting : ({} : Clocked).wrapper.waiting = 0 := by simp [Clocked.wrapper, State.waiting]
  have hserving : ({} : Clocked).wrapper.serving = 0 := by simp [Clocked.wrapper, State.serving]
  refine ⟨⟨⟨fun _ => 0, promised_initial _ _, ?_⟩, headNoted_of_empty fun ptr => rfl, fun k => ?_⟩, ?_⟩
  · rw [hwaiting, hserving]
    exact Metrics.Booked.empty _ _ _ _
  · exact ⟨0, .inl rfl, by simp [Metrics.stalledNs, Metrics.waitedNs]⟩
  · simp [Clocked.wrapper]

/-- Stall and wait as the report has them, the table of contention waits, and the stalls of
each transaction. -/
structure StallWithinWait (setup : List (Metrics.Device × UInt32 × String)) (x : Clocked) : Prop where
  /-- At the top of the loop, for a kind whose waits add up to less than 2^64 ns. -/
  stall : ∀ wake onEvent, x.wrapper.thread = .waiting wake onEvent →
    ∀ k, Metrics.waitedNs .pim k (Metrics.configured setup) x.calls < 2 ^ 64 →
      (x.ledger setup).resourceStallNs k ≤ ((x.ledger setup).pim.traffic k).queueWaitNs
  head : ∀ ptr ∈ x.wrapper.contentionWaitStart,
    x.wrapper.pendingQueue.head?.map (·.ptr) = some ptr
  once : ∀ t, x.stalled.count t ≤ x.arrived.count t

theorem Clocked.ledger_resourceStallNs (setup : List (Metrics.Device × UInt32 × String)) (x : Clocked)
    (k : Bool) : (x.ledger setup).resourceStallNs k = UInt64.ofNat (Metrics.stalledNs k x.calls) := by
  rw [Clocked.ledger, Metrics.resourceStallNs_applyAll, Metrics.configured_resourceStallNs,
    UInt64.zero_add]

theorem Clocked.ledger_queueWaitNs (setup : List (Metrics.Device × UInt32 × String)) (x : Clocked)
    (k : Bool) : ((x.ledger setup).pim.traffic k).queueWaitNs =
      UInt64.ofNat (Metrics.waitedNs .pim k (Metrics.configured setup) x.calls) := by
  have hall := Metrics.queueWaitNs_applyAll .pim k (Metrics.configured setup) x.calls
  rw [(Metrics.configured_blank setup).traffic, show ({} : Metrics.TrafficStats).queueWaitNs = 0 from rfl,
    UInt64.zero_add] at hall
  exact hall

theorem Clocked.Contended.stallWithinWait {setup : List (Metrics.Device × UInt32 × String)}
    {x : Clocked} (h : x.Contended setup) : StallWithinWait setup x := by
  refine ⟨fun wake onEvent ht k hlt => ?_, fun ptr hptr => ?_, fun t => ?_⟩
  · have hle := h.waits.balanced.settled (by rw [ht]; simp) k
    rw [Clocked.ledger_resourceStallNs, Clocked.ledger_queueWaitNs, UInt64.le_iff_toNat_le,
      UInt64.toNat_ofNat_of_lt' hlt, UInt64.toNat_ofNat_of_lt' (lt_of_le_of_lt hle hlt)]
    exact hle
  · exact h.waits.noted.head ptr (AList.lookup_isSome.mpr hptr)
  · have hcount := Multiset.count_le_of_le t ((Multiset.le_add_right _ _).trans h.once)
    simpa using hcount

/-- **Resource stall is part of queue wait.** In every run of a unified memory: at the top of
the loop neither kind has stalled longer than it has waited, the table of contention waits
knows at most the head of the queue, and no transaction is charged twice. -/
theorem unified_stall_within_wait {cfg : Config} (hc : cfg.memoryStructure = .unified)
    (setup : List (Metrics.Device × UInt32 × String)) {x : Clocked}
    (h : Lib.Reach (· = {}) (Tick cfg setup) x) : StallWithinWait setup x := by
  refine Clocked.Contended.stallWithinWait (h.invariant (P := Clocked.Contended setup) ?_ ?_)
  · rintro _ rfl
    exact contended_initial setup
  · exact fun _ _ hx hs => hs.contended hc hx

/-- A command behind a read stalls for 1 ns of the 2 ns it waits. -/
theorem unified_stall_within_wait_read :
    let a : Payload := {ptr := 1, command := .read, srcId := .npu, dstId := .dram}
    let b : Payload := {ptr := 2, command := .pim, srcId := .host, dstId := .pim}
    let x₁ := ((({} : Clocked).arrive a).iterate detailed
      {answers := {accepts := fun _ => true}}).arrive b
    let x₂ := (x₁.elapse 1000).iterate detailed {answers := {callbacks := [(false, 0)]}}
    let x₃ := (((x₂.elapse 1500).iterate detailed {}).posedge detailed).elapse 2000
    let x := (x₃.iterate detailed {}).resume detailed {} b
    (x.ledger []).resourceStallNs true = 1 ∧ (x.ledger []).pim.compute.queueWaitNs = 2 ∧
      StallWithinWait [] x := by
  intro a b x₁ x₂ x₃ x
  have h₁ : Lib.Reach (· = {}) (Tick detailed []) x₁ := by
    refine .next (.next (.next (.start rfl) (.arrive a ?_ ?_)) (.iterate _ 0 false ?_))
      (.arrive b ?_ ?_) <;> decide
  have h₂ : Lib.Reach (· = {}) (Tick detailed []) x₂ := by
    refine .next (.next h₁ (.elapse 1000 ?_)) (.iterate _ 500 false ?_) <;> decide
  have h₃ : Lib.Reach (· = {}) (Tick detailed []) x₃ := by
    refine .next (.next (.next (.next h₂ (.elapse 1500 ?_)) (.iterate {} 1500 false ?_)) .posedge)
      (.elapse 2000 ?_) <;> decide +kernel
  have hx : Lib.Reach (· = {}) (Tick detailed []) x := by
    refine .next (.next h₃ (.iterate {} 2000 false ?_)) (.resume {} b 2000 ?_) <;> decide +kernel
  exact ⟨by decide +kernel, by decide +kernel, unified_stall_within_wait rfl [] hx⟩

/-! ### The totals are 64 bits wide

A read is in service for 2^54 ns while 1024 commands wait behind it. Their waits add
up to 2^64 ns and a little more; the stall of the one at the head is 2^54 ns. -/

/-- 2^54 ns. -/
def longWait : Time := 18014398509481984000

/-- The read that keeps the memory busy. -/
def slowRead : Payload := {ptr := 1, command := .read, srcId := .npu, dstId := .dram}

/-- The `n`-th command of the crowd. The first one runs for 2 us. -/
def crowd (n : Nat) : Payload where
  ptr := n + 2
  command := .pim
  address := if n = 0 then 2000 else 0
  srcId := .host
  dstId := .pim

/-- When the first command of the crowd is done: 2000.5 ns after its hand-over. -/
def headDone : Time := 18014398509483985500

/-- The queue behind the read once it is in service. -/
def idleQueue : Fin Bridge.maxChannel → List Payload :=
  Function.update (Function.update (fun _ => []) 0 [slowRead]) 0 []

/-- The module with the read in service. -/
def readInService (pending : List Payload) (waits : AList (fun _ : Nat => Time)) (wake : Time) :
    State where
  thread := .waiting wake false
  memoryBusy := true
  memoryBusyCount := 1
  pendingQueue := pending
  contentionWaitStart := waits
  bridge := {incomingQueue := idleQueue, readDone := [(0, slowRead)]}

/-- The read arrives and goes to the memory system. -/
def slowStart : Clocked :=
  (({} : Clocked).arrive slowRead).iterate detailed {answers := {accepts := fun _ => true}}

theorem slowStart_wrapper : slowStart.wrapper = readInService [] ∅ 500 := rfl

/-- A blocked head that is already noted. -/
theorem readInService_iterate (pending : List Payload) (since now wake : Time) :
    iterate detailed {} now (readInService (crowd 0 :: pending) (AList.insert 2 since ∅) wake) =
      (readInService (crowd 0 :: pending) (AList.insert 2 since ∅) (now + 500), []) := rfl

theorem readInService_note (pending : List Payload) (now wake : Time) :
    iterate detailed {} now (readInService (crowd 0 :: pending) ∅ wake) =
      (readInService (crowd 0 :: pending) (AList.insert 2 now ∅) (now + 500), []) := rfl

/-- The module when the read has been collected, and when it has been answered. -/
def readDone (answered : Bool) (pending : List Payload) (since : Time) : State where
  thread := .waiting (longWait + 1000) false
  memoryBusy := !answered
  memoryBusyCount := if answered then 0 else 1
  memoryCompletedQueue := if answered then [] else [slowRead]
  pendingQueue := pending
  contentionWaitStart := AList.insert 2 since ∅
  bridge := {incomingQueue := idleQueue}

/-- The memory system has called back. -/
def readReady (pending : List Payload) : State where
  thread := .waiting (longWait + 500) false
  memoryBusy := true
  memoryBusyCount := 1
  pendingQueue := pending
  contentionWaitStart := AList.insert 2 500 ∅
  bridge := {
    incomingQueue := idleQueue
    outgoingQueue := [slowRead]}

theorem readInService_callback (pending : List Payload) (wake : Time) :
    iterate detailed {answers := {callbacks := [(false, 0)]}} longWait
      (readInService (crowd 0 :: pending) (AList.insert 2 500 ∅) wake) =
      (readReady (crowd 0 :: pending), []) := rfl

theorem readReady_iterate (pending : List Payload) :
    iterate detailed {} (longWait + 500) (readReady (crowd 0 :: pending)) =
      (readDone false (crowd 0 :: pending) 500,
        [.metrics (.completed .pim slowRead (longWait + 500))]) := rfl

/-- The first command is in the hands of the thread. -/
def headTaken (pending : List Payload) : State where
  thread := .switching (crowd 0) (longWait + 1000)
  pendingQueue := pending
  draftComputeWaitCount := 1
  bridge := {incomingQueue := idleQueue}

/-- The first command is in the engine, others behind it. -/
def crowded (count : UInt32) (pending : List Payload) (queue : List (Time × Payload))
    (table : AList (fun _ : Nat => Time)) (start done wake : Time) : State where
  thread := .waiting wake false
  pimMode := .compute
  computeBusy := true
  computeBusyCount := count
  pendingQueue := pending
  detailedComputeDoneTime := table
  draftComputeWaitCount := 1
  bridge := {
    incomingQueue := idleQueue
    pimComputeQueue := (headDone, crowd 0) :: queue
    lastComputeStartTime := start
    lastComputeDoneTime := done}

namespace Clocked

/-- The memory system calls back, and the read is collected. -/
def collectRead (x : Clocked) : Clocked :=
  (((x.elapse longWait).iterate detailed {answers := {callbacks := [(false, 0)]}}).elapse
    (longWait + 500)).iterate detailed {}

/-- The head is taken off the queue. -/
def takeHead (x : Clocked) : Clocked := (x.elapse (longWait + 1000)).iterate detailed {}

end Clocked

section Crowd

variable {x : Clocked} {pending : List Payload} {wake : Time}

theorem collectRead_spec (hx : Lib.Reach (· = {}) (Tick detailed []) x) (hnow : x.now ≤ longWait)
    (hw : x.wrapper = readInService (crowd 0 :: pending) (AList.insert 2 500 ∅) wake) :
    Lib.Reach (· = {}) (Tick detailed []) x.collectRead ∧
      x.collectRead.wrapper = readDone false (crowd 0 :: pending) 500 ∧
      x.collectRead.calls = x.calls ++ [] ++ [.completed .pim slowRead (longWait + 500)] := by
  let y := ((x.elapse longWait).iterate detailed {answers := {callbacks := [(false, 0)]}}).elapse
    (longWait + 500)
  have hready : y.wrapper = readReady (crowd 0 :: pending) := by
    show (iterate detailed _ longWait x.wrapper).1 = _
    rw [hw, readInService_callback]
  have hquiet : y.calls = x.calls ++ [] := by
    show x.calls ++ metricsCalls (iterate detailed _ longWait x.wrapper).2 = _
    rw [hw, readInService_callback]
    rfl
  refine ⟨?_, ?_, ?_⟩
  · refine .next (.next (.next (.next hx (.elapse _ hnow)) (.iterate _ wake false ?_))
      (.elapse _ (Nat.le_add_right _ _))) (.iterate {} (longWait + 500) false ?_)
    · show x.wrapper.thread = _
      rw [hw]
      rfl
    · show y.wrapper.thread = _
      rw [hready]
      rfl
  · show (iterate detailed {} (longWait + 500) y.wrapper).1 = _
    rw [hready, readReady_iterate]
  · show y.calls ++ metricsCalls (iterate detailed {} (longWait + 500) y.wrapper).2 = _
    rw [hready, readReady_iterate, hquiet]
    rfl

theorem answerRead_spec (hx : Lib.Reach (· = {}) (Tick detailed []) x)
    (hw : x.wrapper = readDone false pending 500) :
    Lib.Reach (· = {}) (Tick detailed []) (x.posedge detailed) ∧
      (x.posedge detailed).wrapper = readDone true pending 500 ∧
      (x.posedge detailed).calls = x.calls ++ [] := by
  obtain ⟨now, ⟨wrapper, sent, popped⟩, calls, arrived, stalled⟩ := x
  obtain rfl : wrapper = _ := hw
  refine ⟨.next hx .posedge, ?_, rfl⟩
  simp [Clocked.posedge, Clocked.act, Clocked.wrapper, Traced.pop, Traced.act, clockPosedge, readDone]

theorem takeHead_spec (hx : Lib.Reach (· = {}) (Tick detailed []) x)
    (hnow : x.now = longWait + 500) (hw : x.wrapper = readDone true (crowd 0 :: pending) 500) :
    Lib.Reach (· = {}) (Tick detailed []) x.takeHead ∧ x.takeHead.wrapper = headTaken pending ∧
      x.takeHead.calls = x.calls ++ [.stall 500 (longWait + 1000) true] := by
  obtain ⟨now, ⟨wrapper, sent, popped⟩, calls, arrived, stalled⟩ := x
  obtain rfl : wrapper = _ := hw
  obtain rfl : now = _ := hnow
  refine ⟨?_, rfl, rfl⟩
  exact .next (.next hx (.elapse _ (Nat.le_add_right _ 500)))
    (.iterate {} (longWait + 1000) false rfl)

/-- While the first command runs, the compute queue stays as it is. -/
theorem drain_crowded {now : Time} (hnow : now < headDone) (count : UInt32) (pending : List Payload)
    (queue : List (Time × Payload)) (table : AList (fun _ : Nat => Time)) (start done wake : Time) :
    Bridge.drainCompute (crowded count pending queue table start done wake).bridge now =
      (crowded count pending queue table start done wake).bridge := by
  have hlate : ¬ headDone ≤ now := not_le.mpr hnow
  simp [Bridge.drainCompute, crowded, Lib.due, Lib.notDue, hlate]

theorem headTaken_resume (now : Time) (hnow : now < headDone)
    (hdone : max now 0 + Bridge.computeDelay (crowd 0) = headDone) (pending : List Payload) :
    resume detailed {} now (crowd 0) (headTaken pending) =
      (crowded 1 pending [] (AList.insert 2 headDone ∅) (max now 0) headDone (now + 500),
        [.metrics (.started .pim (crowd 0) (max now 0) Metrics.kAllChannels),
          .updateStart "" .pim (toCycle (max now 0))]) := by
  let s := crowded 1 pending [] (AList.insert 2 headDone ∅) (max now 0) headDone (now + 500)
  have hstep : resume detailed {} now (crowd 0) (headTaken pending) =
      ({s with bridge := Bridge.drainCompute s.bridge now},
        [.metrics (.started .pim (crowd 0) (max now 0) Metrics.kAllChannels),
          .updateStart "" .pim (toCycle (max now 0))]) := by
    simp only [s, ← hdone, crowded]
    rfl
  rw [hstep, drain_crowded hnow]

theorem crowded_iterate {now : Time} (hnow : now < headDone) (n : Nat) (count : UInt32)
    (pending : List Payload) (queue : List (Time × Payload)) (table : AList (fun _ : Nat => Time))
    (start done wake : Time) :
    let done' := max now done + Bridge.computeDelay (crowd n)
    iterate detailed {} now (crowded count (crowd n :: pending) queue table start done wake) =
      (crowded (count + 1) pending (queue ++ [(done', crowd n)]) (table.insert (n + 2) done')
        (max now done) done' (now + 500),
        [.metrics (.started .pim (crowd n) (max now done) Metrics.kAllChannels),
          .updateStart "" .pim (toCycle (max now done))]) := by
  intro done'
  let s := crowded (count + 1) pending (queue ++ [(done', crowd n)]) (table.insert (n + 2) done')
    (max now done) done' (now + 500)
  have hstep : iterate detailed {} now
      (crowded count (crowd n :: pending) queue table start done wake) =
      ({s with bridge := Bridge.drainCompute s.bridge now},
        [.metrics (.started .pim (crowd n) (max now done) Metrics.kAllChannels),
          .updateStart "" .pim (toCycle (max now done))]) := rfl
  rw [hstep, drain_crowded hnow]

end Crowd

/-- A run with the commands that still wait, all since time zero, and the totals so far for
`n` commands handed over. -/
structure Tally (x : Clocked) (pending : List Payload) (n stall : Nat) : Prop where
  reach : Lib.Reach (· = {}) (Tick detailed []) x
  booked : Metrics.Booked .pim (fun _ r => r.arrivalNs = 0 ∧ r.pimCompute = true) (fun _ _ => True)
    (x.ledger []) (pending : Multiset Payload) 0
  stall : Metrics.stalledNs true x.calls = stall
  lower : n * 2 ^ 54 ≤ Metrics.waitedNs .pim true (Metrics.configured []) x.calls
  upper : Metrics.waitedNs .pim true (Metrics.configured []) x.calls ≤ n * (2 ^ 54 + 4096)

section Tally

variable {x y : Clocked} {pending : List Payload} {n stall : Nat} {t : Payload}

/-- Calls that count nothing and concern none of the waiting commands. -/
theorem Tally.quiet (h : Tally x pending n stall) (more : List Metrics.Call)
    (hy : Lib.Reach (· = {}) (Tick detailed []) y) (hcalls : y.calls = x.calls ++ more)
    (hquiet : Quiet more)
    (hl : ∀ t ∈ pending, (Metrics.applyAll (x.ledger []) more).requests.lookup t.ptr =
      (x.ledger []).requests.lookup t.ptr) : Tally y pending n stall := by
  have hledger : y.ledger [] = Metrics.applyAll (x.ledger []) more := by
    rw [Clocked.ledger, hcalls, Metrics.applyAll_append]
    rfl
  refine ⟨hy, ?_, ?_, ?_, ?_⟩
  · rw [hledger]
    refine h.booked.of_lookup fun t ht => hl t ?_
    simpa using ht
  · rw [hcalls, Metrics.stalledNs_append, hquiet.stalledNs, h.stall, Nat.add_zero]
  · rw [hcalls, Metrics.waitedNs_append, hquiet.waitedNs, Nat.add_zero]
    exact h.lower
  · rw [hcalls, Metrics.waitedNs_append, hquiet.waitedNs, Nat.add_zero]
    exact h.upper

/-- A command that starts after the long wait adds it to the total. -/
theorem Tally.started (h : Tally x (t :: pending) n stall)
    (hy : Lib.Reach (· = {}) (Tick detailed []) y) (start : Time)
    (hcalls : y.calls = x.calls ++ [.started .pim t start Metrics.kAllChannels])
    (hlow : longWait ≤ start) (hhigh : start ≤ longWait + 4096000) :
    Tally y pending (n + 1) stall := by
  have hledger : y.ledger [] = Metrics.requestStarted (x.ledger []) .pim t start Metrics.kAllChannels := by
    rw [Clocked.ledger, hcalls, Metrics.applyAll_append]
    rfl
  have hbooked := h.booked
  rw [← Multiset.cons_coe] at hbooked
  obtain ⟨r, hr, hneg, harr, hkind⟩ := hbooked.waiting t (Multiset.mem_cons_self t _)
  have hwait : Metrics.waitedNs .pim true (Metrics.applyAll (Metrics.configured []) x.calls)
      [.started .pim t start Metrics.kAllChannels] = (toNs start).toNat := by
    have hlookup : (Metrics.applyAll (Metrics.configured []) x.calls).requests.lookup t.ptr =
        some r := hr.lookup
    have hpos := toNs_nonneg start
    simp only [Metrics.waitedNs, Metrics.Call.waitNs, hlookup, true_and, Nat.add_zero]
    rw [if_pos ⟨hr.device, hkind, hneg⟩, harr, max_eq_right hpos, Int.sub_zero]
  have hbounds : 2 ^ 54 ≤ (toNs start).toNat ∧ (toNs start).toNat ≤ 2 ^ 54 + 4096 := by
    have hlow' : (18014398509481984000 : Nat) ≤ start := hlow
    have hhigh' : ¬ (18014398509486080000 : Nat) < start := not_lt.mpr hhigh
    simp only [toNs]
    omega
  refine ⟨hy, ?_, ?_, ?_, ?_⟩
  · rw [hledger]
    have hstart := hbooked.start start Metrics.kAllChannels fun _ _ _ _ => trivial
    refine ⟨?_, hstart.waiting, by simp⟩
    have hnodup := hstart.nodup
    rw [Multiset.add_cons, Multiset.map_cons, Multiset.nodup_cons] at hnodup
    simpa using hnodup.2
  · rw [hcalls, Metrics.stalledNs_append, h.stall]
    simp [Metrics.stalledNs, Metrics.Call.stallNs]
  · rw [hcalls, Metrics.waitedNs_append, hwait, Nat.add_one_mul]
    exact Nat.add_le_add h.lower hbounds.1
  · rw [hcalls, Metrics.waitedNs_append, hwait, Nat.add_one_mul]
    exact Nat.add_le_add h.upper hbounds.2

end Tally

/-- The first `n` commands, and those from `n` on. -/
def crowdOf (n : Nat) : List Payload := (List.range n).map crowd

def crowdFrom (n : Nat) : List Payload := (List.range' n (1024 - n)).map crowd

/-- The read and the first `n` commands have arrived. -/
structure Gathered (n : Nat) (x : Clocked) : Prop where
  tally : Tally x (crowdOf n) 0 0
  now : x.now = 0
  wrapper : x.wrapper = readInService (crowdOf n) ∅ 500
  fresh : ∀ ptr, n + 2 ≤ ptr → (x.ledger []).requests.lookup ptr = none

theorem slowStart_reachable : Lib.Reach (· = {}) (Tick detailed []) slowStart := by
  refine .next (.next (.start rfl) (.arrive slowRead ?_ ?_)) (.iterate _ 0 false ?_) <;> decide

theorem slowStart_gathered : Gathered 0 slowStart := by
  refine ⟨⟨slowStart_reachable, Metrics.Booked.empty _ _ _ _, by decide, by simp, by decide⟩, rfl,
    slowStart_wrapper, fun ptr hptr => ?_⟩
  have hkeys : (slowStart.ledger []).requests.entries.map (·.1) = [1] := by decide
  have hnot : ptr ∉ (slowStart.ledger []).requests.entries.map (·.1) := by
    rw [hkeys]
    simp only [List.mem_cons, List.not_mem_nil, or_false]
    omega
  exact AList.lookup_eq_none.mpr hnot

theorem Gathered.next {n : Nat} {x : Clocked} (h : Gathered n x) :
    Gathered (n + 1) (x.arrive (crowd n)) := by
  have hptr : (crowd n).ptr ≠ 0 := Nat.succ_ne_zero _
  have hfresh := h.fresh (crowd n).ptr (le_refl (n + 2))
  have hcrowd : crowdOf (n + 1) = crowdOf n ++ [crowd n] := by
    simp [crowdOf, List.range_succ]
  have hcalls : (x.arrive (crowd n)).calls = x.calls ++ [.arrived .pim (crowd n) 0 true 0] := by
    show x.calls ++ [.arrived .pim (crowd n) 0 true x.now] = _
    rw [h.now]
  have hledger : (x.arrive (crowd n)).ledger [] =
      Metrics.requestArrived (x.ledger []) .pim (crowd n) 0 true 0 := by
    rw [Clocked.ledger, hcalls, Metrics.applyAll_append]
    rfl
  have hquiet : Quiet [Metrics.Call.arrived .pim (crowd n) 0 true 0] := by
    intro c hc
    obtain rfl := List.mem_singleton.mp hc
    exact ⟨by simp, by simp⟩
  have hnext : Lib.Reach (· = {}) (Tick detailed []) (x.arrive (crowd n)) :=
    .next h.tally.reach (.arrive (crowd n) hptr hfresh)
  refine ⟨⟨hnext, ?_, ?_, by simp, ?_⟩, h.now, ?_, fun ptr hle => ?_⟩
  · rw [hledger, hcrowd, ← Multiset.coe_add, Multiset.coe_singleton, add_comm,
      Multiset.singleton_add]
    exact h.tally.booked.arrive 0 true 0 hptr hfresh ⟨rfl, rfl⟩
  · rw [hcalls, Metrics.stalledNs_append, hquiet.stalledNs, h.tally.stall]
  · rw [hcalls, Metrics.waitedNs_append, hquiet.waitedNs]
    exact h.tally.upper
  · show (peqCb x.now (crowd n) x.wrapper).1 = _
    rw [h.wrapper, hcrowd]
    rfl
  · rw [hledger, Metrics.requestArrived_lookup_ne (by show ptr ≠ n + 2; omega)]
    exact h.fresh ptr (by omega)

theorem gathered (n : Nat) : ∃ x, Gathered n x := by
  induction n with
  | zero => exact ⟨slowStart, slowStart_gathered⟩
  | succ n ih =>
    obtain ⟨x, hx⟩ := ih
    exact ⟨x.arrive (crowd n), hx.next⟩

theorem crowdOf_eq : crowdOf 1024 = crowd 0 :: crowdFrom 1 := by decide +kernel

theorem crowdFrom_cons {n : Nat} (h : n < 1024) : crowdFrom n = crowd n :: crowdFrom (n + 1) := by
  rw [crowdFrom, crowdFrom, show 1024 - n = (1024 - (n + 1)) + 1 by omega, List.range'_succ]
  rfl

/-- The thread iterates behind the read, and the head is noted once. -/
theorem blocked (j : Nat) : ∃ x, Tally x (crowdOf 1024) 0 0 ∧ x.now = 500 * (j + 1) ∧
    x.wrapper = readInService (crowd 0 :: crowdFrom 1) (AList.insert 2 500 ∅) (500 * (j + 2)) := by
  induction j with
  | zero =>
    obtain ⟨x, hx⟩ := gathered 1024
    have hw := hx.wrapper
    rw [crowdOf_eq] at hw
    have hiterate := readInService_note (crowdFrom 1) 500 500
    have hreach : Lib.Reach (· = {}) (Tick detailed []) ((x.elapse 500).iterate detailed {}) := by
      refine .next (.next hx.tally.reach (.elapse 500 ?_)) (.iterate {} 500 false ?_)
      · rw [hx.now]
        exact Nat.zero_le _
      · show x.wrapper.thread = _
        rw [hw]
        rfl
    refine ⟨(x.elapse 500).iterate detailed {}, hx.tally.quiet [] hreach ?_ (by simp [Quiet])
      fun _ _ => rfl, rfl, ?_⟩
    · show x.calls ++ metricsCalls (iterate detailed {} 500 x.wrapper).2 = _
      rw [hw, hiterate]
      rfl
    · show (iterate detailed {} 500 x.wrapper).1 = _
      rw [hw, hiterate]
  | succ j ih =>
    obtain ⟨x, htally, hnow, hw⟩ := ih
    have hiterate := readInService_iterate (crowdFrom 1) 500 (500 * (j + 2)) (500 * (j + 2))
    have hreach : Lib.Reach (· = {}) (Tick detailed [])
        ((x.elapse (500 * (j + 2))).iterate detailed {}) := by
      refine .next (.next htally.reach (.elapse _ ?_)) (.iterate {} (500 * (j + 2)) false ?_)
      · rw [hnow]
        exact Nat.mul_le_mul_left 500 (Nat.le_succ _)
      · show x.wrapper.thread = _
        rw [hw]
        rfl
    refine ⟨_, htally.quiet [] hreach ?_ (by simp [Quiet]) fun _ _ => rfl, rfl, ?_⟩
    · show x.calls ++ metricsCalls (iterate detailed {} (500 * (j + 2)) x.wrapper).2 = _
      rw [hw, hiterate]
      rfl
    · show (iterate detailed {} (500 * (j + 2)) x.wrapper).1 = _
      rw [hw, hiterate]
      congr 1

/-- `n` commands have been handed over behind each other. -/
structure HandedTo (n : Nat) (x : Clocked) : Prop where
  tally : Tally x (crowdFrom n) n (2 ^ 54)
  now : x.now = longWait + 500 * (n + 1)
  wrapper : ∃ count queue table start done wake,
    x.wrapper = crowded count (crowdFrom n) queue table start done wake ∧
      done ≤ longWait + 2001000 + 500 * n

/-- The stall of the head is reported, and its wait counted. -/
theorem handedTo_first : ∃ x, HandedTo 1 x := by
  obtain ⟨x, htally, hnow, hw⟩ := blocked 36028797018963966
  obtain ⟨hx₁, hw₁, hc₁⟩ := collectRead_spec htally.reach (by rw [hnow]; decide) hw
  obtain ⟨hx₂, hw₂, hc₂⟩ := answerRead_spec hx₁ hw₁
  obtain ⟨hx₃, hw₃, hc₃⟩ := takeHead_spec hx₂ rfl hw₂
  let y := (x.collectRead.posedge detailed).takeHead
  have htally₂ : Tally (x.collectRead.posedge detailed) (crowdOf 1024) 0 0 := by
    refine htally.quiet [.completed .pim slowRead (longWait + 500)] hx₂ ?_
      (quiet_completed [(longWait + 500, slowRead)]) fun t ht => ?_
    · rw [hc₂, hc₁, List.append_nil, List.append_nil]
    · obtain ⟨i, -, rfl⟩ := List.mem_map.mp ht
      exact Metrics.requestCompleted_lookup_ne (by show i + 2 ≠ 1; omega) _
  have hstall : Metrics.stalledNs true [.stall 500 (longWait + 1000) true] = 2 ^ 54 := by decide
  have hwait : ∀ l, Metrics.waitedNs .pim true l [.stall 500 (longWait + 1000) true] = 0 :=
    fun _ => rfl
  have htally₃ : Tally y (crowd 0 :: crowdFrom 1) 0 (2 ^ 54) := by
    rw [crowdOf_eq] at htally₂
    refine ⟨hx₃, ?_, ?_, by simp, ?_⟩
    · refine htally₂.booked.of_lookup fun t _ => ?_
      rw [Clocked.ledger, hc₃, Metrics.applyAll_append]
      have haside : Metrics.Call.isRequest (.stall 500 (longWait + 1000) true) = false := rfl
      have hsame := Metrics.apply_aside ((x.collectRead.posedge detailed).ledger []) haside
      exact congrArg (AList.lookup t.ptr) hsame.1
    · rw [hc₃, Metrics.stalledNs_append, htally₂.stall, hstall, Nat.zero_add]
    · rw [hc₃, Metrics.waitedNs_append, hwait]
      exact htally₂.upper
  have hresume := headTaken_resume (longWait + 1000) (by decide) (by decide) (crowdFrom 1)
  have hx₄ : Lib.Reach (· = {}) (Tick detailed []) (y.resume detailed {} (crowd 0)) :=
    .next hx₃ (.resume {} (crowd 0) (longWait + 1000) (by rw [hw₃]; rfl))
  refine ⟨y.resume detailed {} (crowd 0), ?_, rfl, ?_⟩
  · refine htally₃.started hx₄ (max (longWait + 1000) 0) ?_ (by decide) (by decide)
    show y.calls ++ metricsCalls (resume detailed {} (longWait + 1000) (crowd 0) y.wrapper).2 = _
    rw [hw₃, hresume]
    rfl
  · refine ⟨1, [], AList.insert 2 headDone ∅, max (longWait + 1000) 0, headDone,
      longWait + 1000 + 500, ?_, ?_⟩
    · show (resume detailed {} (longWait + 1000) (crowd 0) y.wrapper).1 = _
      rw [hw₃, hresume]
    · decide

theorem HandedTo.next {n : Nat} {x : Clocked} (h : HandedTo n x) (h0 : 1 ≤ n) (hn : n < 1024) :
    HandedTo (n + 1) ((x.elapse (longWait + 500 * (n + 2))).iterate detailed {}) := by
  obtain ⟨count, queue, table, start, done, wake, hw, hdone⟩ := h.wrapper
  let now := longWait + 500 * (n + 2)
  have hnow : now < headDone := by
    show (18014398509481984000 + 500 * (n + 2) : Nat) < 18014398509483985500
    omega
  have hdelay : Bridge.computeDelay (crowd n) = 500 := by
    have hne : n ≠ 0 := by omega
    simp [Bridge.computeDelay, crowd, hne, ns, halfNs]
  have hlate : max now done ≤ longWait + 2001000 + 500 * n := by
    refine max_le ?_ hdone
    show (18014398509481984000 + 500 * (n + 2) : Nat) ≤ 18014398509481984000 + 2001000 + 500 * n
    omega
  rw [crowdFrom_cons hn] at hw
  have hiterate := crowded_iterate hnow n count (crowdFrom (n + 1)) queue table start done wake
  have htally := h.tally
  rw [crowdFrom_cons hn] at htally
  have hreach : Lib.Reach (· = {}) (Tick detailed []) ((x.elapse now).iterate detailed {}) := by
    refine .next (.next htally.reach (.elapse now ?_)) (.iterate {} wake false ?_)
    · rw [h.now]
      exact Nat.add_le_add_left (Nat.mul_le_mul_left 500 (Nat.le_succ _)) _
    · show x.wrapper.thread = _
      rw [hw]
      rfl
  let done' := max now done + Bridge.computeDelay (crowd n)
  refine ⟨htally.started hreach (max now done) ?_ ?_ ?_, rfl,
    ⟨count + 1, queue ++ [(done', crowd n)], table.insert (n + 2) done', max now done, done',
      now + 500, ?_, ?_⟩⟩
  · show x.calls ++ metricsCalls (iterate detailed {} now x.wrapper).2 = _
    rw [hw, hiterate]
    rfl
  · exact (Nat.le_add_right _ _).trans (le_max_left _ _)
  · refine hlate.trans ?_
    show (18014398509481984000 + 2001000 + 500 * n : Nat) ≤ 18014398509481984000 + 4096000
    omega
  · show (iterate detailed {} now x.wrapper).1 = _
    rw [hw, hiterate]
  · show max now done + Bridge.computeDelay (crowd n) ≤ _
    rw [hdelay, Nat.mul_add_one, ← Nat.add_assoc]
    exact Nat.add_le_add_right hlate 500

theorem handedTo (n : Nat) (h0 : 1 ≤ n) (hn : n ≤ 1024) : ∃ x, HandedTo n x := by
  induction n, h0 using Nat.le_induction with
  | base => exact handedTo_first
  | succ n h0 ih =>
    obtain ⟨x, hx⟩ := ih (by omega)
    exact ⟨_, hx.next h0 (by omega)⟩

/-- The total wait of 1024 commands wraps, and the stall of one is longer. -/
theorem wait_wraps_below_stall : ¬ ∀ cfg : Config, cfg.memoryStructure = .unified →
    ∀ setup x, Lib.Reach (· = {}) (Tick cfg setup) x →
    ∀ wake onEvent, x.wrapper.thread = .waiting wake onEvent →
    ∀ k, (x.ledger setup).resourceStallNs k ≤ ((x.ledger setup).pim.traffic k).queueWaitNs := by
  intro hall
  obtain ⟨x, hx⟩ := handedTo 1024 (by decide) le_rfl
  obtain ⟨count, queue, table, start, done, wake, hw, -⟩ := hx.wrapper
  have hle := hall detailed rfl [] x hx.tally.reach wake false (by rw [hw]; rfl) true
  have hstall : (x.ledger []).resourceStallNs true = UInt64.ofNat (2 ^ 54) := by
    rw [Clocked.ledger_resourceStallNs, hx.tally.stall]
  rw [hstall, Clocked.ledger_queueWaitNs, UInt64.le_iff_toNat_le, UInt64.toNat_ofNat',
    UInt64.toNat_ofNat'] at hle
  have hlower := hx.tally.lower
  have hupper := hx.tally.upper
  omega

end Hsim.PimWrapper
