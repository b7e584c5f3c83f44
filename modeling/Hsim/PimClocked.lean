import Hsim.MetricsBooked
import Hsim.PimExclusion

/-! The module, its clock and its ledger.

A run here is a traced run at nondecreasing times whose calls reach the ledger,
among the calls of the other modules. A request waits from its arrival until the
thread hands it over, and is in service from then until the thread collects it.
Between the two the module has promised a time: the completion time it queued,
or, for memory traffic in the bridge, the time of the hand-over. Nothing is
collected before its promise. -/
namespace Hsim.PimWrapper

/-! ### Where a request is -/

namespace State

/-- The requests the thread has not handed over, one of them possibly in its hands. -/
def waiting (s : State) : Multiset Payload :=
  (s.pendingQueue : Multiset Payload) + match s.thread with
    | .switching t _ => {t}
    | _ => 0

/-- The requests handed over and not collected. -/
def serving (s : State) : Multiset Payload :=
  (s.fastMemoryCompletedQueue.map (·.2) : List Payload) +
    (s.fastComputeCompletedQueue.map (·.2) : List Payload) + Bridge.contents s.bridge

end State

theorem waiting_eq_of_thread {s : State} (h : ∀ t wake, s.thread ≠ .switching t wake) :
    s.waiting = s.pendingQueue := by
  unfold State.waiting
  cases ht : s.thread with
  | switching t wake => exact absurd ht (h t wake)
  | waiting wake onEvent => simp
  | exited => simp

theorem waiting_switching {s : State} {t : Payload} {wake : Time}
    (h : s.thread = .switching t wake) : s.waiting = t ::ₘ (s.pendingQueue : Multiset Payload) := by
  rw [State.waiting, h, ← Multiset.singleton_add, add_comm]

theorem peqCb_waiting (now : Time) (t : Payload) (s : State) :
    (peqCb now t s).1.waiting = t ::ₘ s.waiting := by
  simp only [State.waiting, peqCb, ← Multiset.coe_add, Multiset.coe_singleton, ← Multiset.singleton_add]
  abel

/-- The promises against the places where requests are in service. -/
structure Promised (promise : Nat → Time) (now : Time) (s : State) : Prop where
  kinds : ∀ k, ∀ e ∈ s.fastCompletedQueue k, e.2.isPim = k
  fast : ∀ k, ∀ e ∈ s.fastCompletedQueue k, promise e.2.ptr ≤ e.1
  engine : ∀ e ∈ s.bridge.pimComputeQueue, promise e.2.ptr ≤ e.1
  resting : ∀ t ∈ Bridge.resting s.bridge, promise t.ptr ≤ now
  doneTime : ∀ t ∈ Bridge.contents s.bridge, t.isPim = true → ∀ d,
    s.detailedComputeDoneTime.lookup t.ptr = some d → d ≤ promise t.ptr

theorem promised_initial (promise : Nat → Time) (now : Time) : Promised promise now {} := by
  refine ⟨fun k => ?_, fun k => ?_, by simp, by simp [Bridge.resting], by simp⟩ <;>
    cases k <;> simp [State.fastCompletedQueue]

theorem Promised.later {promise : Nat → Time} {now now' : Time} {s : State}
    (h : Promised promise now s) (hle : now ≤ now') : Promised promise now' s :=
  ⟨h.kinds, h.fast, h.engine, fun t ht => (h.resting t ht).trans hle, h.doneTime⟩

/-- The places where requests are in service are the same. -/
structure SamePlaces (s s' : State) : Prop where
  memory : s'.fastMemoryCompletedQueue = s.fastMemoryCompletedQueue
  compute : s'.fastComputeCompletedQueue = s.fastComputeCompletedQueue
  bridge : s'.bridge = s.bridge
  doneTime : s'.detailedComputeDoneTime = s.detailedComputeDoneTime

theorem SamePlaces.promised {promise : Nat → Time} {now : Time} {s s' : State}
    (hs : SamePlaces s s') (h : Promised promise now s) : Promised promise now s' := by
  have hfast : ∀ k, s'.fastCompletedQueue k = s.fastCompletedQueue k := by
    intro k
    cases k with
    | false => exact hs.memory
    | true => exact hs.compute
  refine ⟨fun k => ?_, fun k => ?_, ?_, ?_, ?_⟩
  · rw [hfast]
    exact h.kinds k
  · rw [hfast]
    exact h.fast k
  · rw [hs.bridge]
    exact h.engine
  · rw [hs.bridge]
    exact h.resting
  · rw [hs.bridge, hs.doneTime]
    exact h.doneTime

theorem SamePlaces.serving {s s' : State} (hs : SamePlaces s s') : s'.serving = s.serving := by
  rw [State.serving, State.serving, hs.memory, hs.compute, hs.bridge]

/-! ### Collecting -/

/-- What is collected was in service, at a time promised and past. -/
structure Collected (promise : Nat → Time) (now : Time) (s s' : State) (calls : List Metrics.Call)
    (done : List (Time × Payload)) : Prop where
  calls : calls = done.map fun e => .completed .pim e.2 e.1
  serving : s.serving = (done.map (·.2) : List Payload) + s'.serving
  due : ∀ e ∈ done, e.1 ≤ now ∧ promise e.2.ptr ≤ now
  promised : Promised promise now s'
  waiting : s'.waiting = s.waiting

theorem Collected.trans {promise : Nat → Time} {now : Time} {a b c : State}
    {calls calls' : List Metrics.Call} {done done' : List (Time × Payload)}
    (h : Collected promise now a b calls done) (h' : Collected promise now b c calls' done') :
    Collected promise now a c (calls ++ calls') (done ++ done') := by
  refine ⟨by rw [h.calls, h'.calls, List.map_append], ?_, fun e he => ?_, h'.promised,
    h'.waiting.trans h.waiting⟩
  · rw [h.serving, h'.serving, List.map_append, ← Multiset.coe_add, add_assoc]
  · rcases List.mem_append.mp he with he | he
    · exact h.due e he
    · exact h'.due e he

theorem mem_of_mem_due {now : Time} {queue : List (Time × Payload)} {e : Time × Payload}
    (h : e ∈ Lib.due now queue) : e ∈ queue := by
  rw [← Lib.due_append_notDue now queue]
  exact List.mem_append_left _ h

theorem mem_of_mem_notDue {now : Time} {queue : List (Time × Payload)} {e : Time × Payload}
    (h : e ∈ Lib.notDue now queue) : e ∈ queue := by
  rw [← Lib.due_append_notDue now queue]
  exact List.mem_append_right _ h

theorem completeFastMemoryRequests_collected {promise : Nat → Time} {now : Time} {s : State}
    (h : Promised promise now s) :
    Collected promise now s (completeFastMemoryRequests now s).1
      (metricsCalls (completeFastMemoryRequests now s).2)
      (Lib.due now s.fastMemoryCompletedQueue) := by
  refine ⟨metricsCalls_due _, ?_, fun e he => ?_, ?_, rfl⟩
  · simp only [State.serving, completeFastMemoryRequests, map_due now s.fastMemoryCompletedQueue]
    abel
  · have hle := Lib.le_of_mem_due he
    exact ⟨hle, (h.fast false e (mem_of_mem_due he)).trans hle⟩
  · refine ⟨fun k e he => ?_, fun k e he => ?_, h.engine, h.resting, h.doneTime⟩
    · cases k with
      | false => exact h.kinds false e (mem_of_mem_notDue he)
      | true => exact h.kinds true e he
    · cases k with
      | false => exact h.fast false e (mem_of_mem_notDue he)
      | true => exact h.fast true e he

theorem completeFastComputeRequests_collected {promise : Nat → Time} {now : Time} {s : State}
    (h : Promised promise now s) :
    Collected promise now s (completeFastComputeRequests now s).1
      (metricsCalls (completeFastComputeRequests now s).2)
      (Lib.due now s.fastComputeCompletedQueue) := by
  refine ⟨metricsCalls_due _, ?_, fun e he => ?_, ?_, rfl⟩
  · simp only [State.serving, completeFastComputeRequests, map_due now s.fastComputeCompletedQueue]
    abel
  · have hle := Lib.le_of_mem_due he
    exact ⟨hle, (h.fast true e (mem_of_mem_due he)).trans hle⟩
  · refine ⟨fun k e he => ?_, fun k e he => ?_, h.engine, h.resting, h.doneTime⟩
    · cases k with
      | false => exact h.kinds false e he
      | true => exact h.kinds true e (mem_of_mem_notDue he)
    · cases k with
      | false => exact h.fast false e he
      | true => exact h.fast true e (mem_of_mem_notDue he)

/-- The bridge without the front of its outgoing queue. -/
theorem contents_of_outgoing {b : Bridge.State} {t : Payload} {rest : List Payload}
    (h : b.outgoingQueue = t :: rest) :
    Bridge.contents b = {t} + Bridge.contents {b with outgoingQueue := rest} ∧
      Bridge.resting b = {t} + Bridge.resting {b with outgoingQueue := rest} := by
  simp only [Bridge.contents, Bridge.resting, h, ← Multiset.cons_coe, ← Multiset.singleton_add]
  exact ⟨by abel, by abel⟩

/-- Taking the front of the outgoing queue, whatever becomes of the table of completion
times, as long as it gains nothing. -/
theorem Promised.take {promise : Nat → Time} {now : Time} {s s' : State} {t : Payload}
    {rest : List Payload} (h : Promised promise now s)
    (hout : s.bridge.outgoingQueue = t :: rest)
    (hs : ∀ k, s'.fastCompletedQueue k = s.fastCompletedQueue k)
    (hbridge : s'.bridge = {s.bridge with outgoingQueue := rest})
    (htable : ∀ ptr d, s'.detailedComputeDoneTime.lookup ptr = some d →
      s.detailedComputeDoneTime.lookup ptr = some d) : Promised promise now s' := by
  obtain ⟨hcontents, hresting⟩ := contents_of_outgoing hout
  refine ⟨fun k => ?_, fun k => ?_, ?_, fun u hu => ?_, fun u hu hk d hd => ?_⟩
  · rw [hs]
    exact h.kinds k
  · rw [hs]
    exact h.fast k
  · rw [hbridge]
    exact h.engine
  · rw [hbridge] at hu
    exact h.resting u (hresting ▸ Multiset.mem_add.mpr (.inr hu))
  · rw [hbridge] at hu
    exact h.doneTime u (hcontents ▸ Multiset.mem_add.mpr (.inr hu)) hk d (htable _ d hd)

theorem takeCompleted_collected {promise : Nat → Time} {now : Time} {s : State}
    (h : Promised promise now s) :
    ∃ done, Collected promise now s (takeCompleted now s).1 (metricsCalls (takeCompleted now s).2)
      done := by
  unfold takeCompleted Bridge.getCompletedCommand
  cases hout : s.bridge.outgoingQueue with
  | nil => exact ⟨[], rfl, by simp, by simp, h, rfl⟩
  | cons t rest =>
    obtain ⟨hcontents, hresting⟩ := contents_of_outgoing hout
    have hpast : promise t.ptr ≤ now := h.resting t (by rw [hresting]; simp)
    dsimp only
    split
    · rename_i hpim
      let finish := (s.detailedComputeDoneTime.lookup t.ptr).getD now
      have hfinish : finish ≤ now := by
        cases hl : s.detailedComputeDoneTime.lookup t.ptr with
        | none => simp [finish, hl]
        | some d =>
          have hd := h.doneTime t (by rw [hcontents]; simp) (by simp [Payload.isPim, hpim]) d hl
          simpa [finish, hl] using hd.trans hpast
      refine ⟨[(finish, t)], rfl, ?_, ?_, ?_, rfl⟩
      · simp only [State.serving, hcontents, List.map_cons, List.map_nil, Multiset.coe_singleton]
        abel
      · intro e he
        obtain rfl := List.mem_singleton.mp he
        exact ⟨hfinish, hpast⟩
      · refine h.take hout (fun k => by cases k <;> rfl) rfl fun ptr d hd => ?_
        by_cases hptr : ptr = t.ptr
        · subst hptr
          rw [AList.lookup_erase] at hd
          exact absurd hd (by simp)
        · rwa [AList.lookup_erase_ne hptr] at hd
    · refine ⟨[(now, t)], rfl, ?_, ?_, ?_, rfl⟩
      · simp only [State.serving, hcontents, List.map_cons, List.map_nil, Multiset.coe_singleton]
        abel
      · intro e he
        obtain rfl := List.mem_singleton.mp he
        exact ⟨le_rfl, hpast⟩
      · exact h.take hout (fun k => by cases k <;> rfl) rfl fun ptr d hd => hd

theorem collect_collected {promise : Nat → Time} {now : Time} {s : State}
    (h : Promised promise now s) :
    ∃ done, Collected promise now s (collect now s).1 (metricsCalls (collect now s).2) done := by
  have hmemory := completeFastMemoryRequests_collected h
  have hcompute := completeFastComputeRequests_collected hmemory.promised
  obtain ⟨done, htake⟩ := takeCompleted_collected hcompute.promised
  simp only [collect, Action.seq_fst, Action.seq_snd, metricsCalls_append]
  exact ⟨_, hmemory.trans (hcompute.trans htake)⟩

/-! ### The tick -/

theorem tick_promised {promise : Nat → Time} {now : Time} {s : State} (cfg : Config) (env : Env)
    (h : Promised promise now s) :
    Promised promise now (tick cfg env now s) ∧ (tick cfg env now s).serving = s.serving := by
  unfold tick
  cases hfast : cfg.fastLayerMode with
  | true => exact ⟨h, rfl⟩
  | false =>
    simp only [Bool.false_eq_true, if_false]
    have hcontents := Bridge.contents_clockTick cfg.memorySystem s.bridge now env.answers
    have hqueue := Bridge.pimComputeQueue_clockTick cfg.memorySystem s.bridge now env.answers
    have hresting := Bridge.resting_clockTick cfg.memorySystem s.bridge now env.answers
    refine ⟨⟨h.kinds, h.fast, fun e he => ?_, fun t ht => ?_, fun t ht => ?_⟩, ?_⟩
    · rw [hqueue] at he
      exact h.engine e (mem_of_mem_notDue he)
    · rw [hresting] at ht
      rcases Multiset.mem_add.mp ht with ht | ht
      · exact h.resting t ht
      · -- what leaves the engine has been promised for a time that has come
        obtain ⟨e, he, rfl⟩ := List.mem_map.mp (Multiset.mem_coe.mp ht)
        exact (h.engine e (mem_of_mem_due he)).trans (Lib.le_of_mem_due he)
    · rw [hcontents] at ht
      exact h.doneTime t ht
    · simp only [State.serving, hcontents]

theorem finishIteration_promised {promise : Nat → Time} {now : Time} {s : State} (cfg : Config)
    (env : Env) (blocked : Bool) (h : Promised promise now s) :
    Promised promise now (finishIteration cfg env now blocked s).1 ∧
      (finishIteration cfg env now blocked s).1.serving = s.serving ∧
      (finishIteration cfg env now blocked s).1.waiting = s.pendingQueue ∧
      metricsCalls (finishIteration cfg env now blocked s).2 = [] := by
  obtain ⟨thread, hthread, hs, heffects⟩ := finishIteration_spec cfg env now blocked s
  obtain ⟨hpromised, hserving⟩ := tick_promised cfg env h
  rw [hs, heffects]
  refine ⟨⟨hpromised.kinds, hpromised.fast, hpromised.engine, hpromised.resting,
    hpromised.doneTime⟩, hserving, ?_, ?_⟩
  · cases thread with
    | switching t wake => exact absurd rfl (hthread t wake)
    | waiting wake onEvent => simp [State.waiting, tick]
    | exited => simp [State.waiting, tick]
  · split <;> rfl

/-! ### Handing over -/

/-- Promises that agree on what is in service. -/
theorem Promised.congr {promise promise' : Nat → Time} {now : Time} {s : State}
    (h : Promised promise now s) (hp : ∀ t ∈ s.serving, promise' t.ptr = promise t.ptr) :
    Promised promise' now s := by
  have hfast : ∀ k, ∀ e ∈ s.fastCompletedQueue k, e.2 ∈ s.serving := by
    intro k e he
    have hmem := List.mem_map_of_mem (f := Prod.snd) he
    cases k with
    | false => exact Multiset.mem_add.mpr (.inl (Multiset.mem_add.mpr (.inl hmem)))
    | true => exact Multiset.mem_add.mpr (.inl (Multiset.mem_add.mpr (.inr hmem)))
  have hbridge : ∀ t ∈ Bridge.contents s.bridge, t ∈ s.serving :=
    fun t ht => Multiset.mem_add.mpr (.inr ht)
  have hresting : ∀ t ∈ Bridge.resting s.bridge, t ∈ s.serving := by
    intro t ht
    refine hbridge t ?_
    rw [Bridge.contents_eq]
    exact Multiset.mem_add.mpr (.inl ht)
  have hengine : ∀ e ∈ s.bridge.pimComputeQueue, e.2 ∈ s.serving := by
    intro e he
    refine hbridge e.2 ?_
    rw [Bridge.contents_eq]
    exact Multiset.mem_add.mpr (.inr (List.mem_map_of_mem he))
  refine ⟨h.kinds, fun k e he => ?_, fun e he => ?_, fun t ht => ?_, fun t ht hk d hd => ?_⟩
  · rw [hp e.2 (hfast k e he)]
    exact h.fast k e he
  · rw [hp e.2 (hengine e he)]
    exact h.engine e he
  · rw [hp t (hresting t ht)]
    exact h.resting t ht
  · rw [hp t (hbridge t ht)]
    exact h.doneTime t ht hk d hd

/-- What a hand-over reports, and the promise it makes. -/
structure Served (promise : Nat → Time) (now : Time) (t : Payload) (s s' : State)
    (calls : List Metrics.Call) (start done : Time) (channel : Int) : Prop where
  reported : calls = [.started .pim t start channel]
  notBefore : now ≤ start
  proper : start ≤ done
  serving : s'.serving = t ::ₘ s.serving
  promised : Promised (Function.update promise t.ptr done) now s'
  pending : s'.pendingQueue = s.pendingQueue
  contention : s'.contentionWaitStart = s.contentionWaitStart

section HandOver

variable {promise : Nat → Time} {now : Time} {s : State} {cfg : Config} {t : Payload}

/-- A request added to a local queue. -/
theorem Promised.addFast {k : Bool} {done : Time} {s' : State}
    (h : Promised (Function.update promise t.ptr done) now s) (hk : t.isPim = k)
    (hqueue : ∀ k', s'.fastCompletedQueue k' =
      if k' = k then s.fastCompletedQueue k' ++ [(done, t)] else s.fastCompletedQueue k')
    (hbridge : s'.bridge = s.bridge)
    (htable : s'.detailedComputeDoneTime = s.detailedComputeDoneTime) :
    Promised (Function.update promise t.ptr done) now s' := by
  have hmem : ∀ k', ∀ e ∈ s'.fastCompletedQueue k',
      e ∈ s.fastCompletedQueue k' ∨ (k' = k ∧ e = (done, t)) := by
    intro k' e he
    rw [hqueue] at he
    split at he
    · rename_i hk'
      rcases List.mem_append.mp he with he | he
      · exact .inl he
      · exact .inr ⟨hk', List.mem_singleton.mp he⟩
    · exact .inl he
  refine ⟨fun k' e he => ?_, fun k' e he => ?_, ?_, ?_, ?_⟩
  · rcases hmem k' e he with he | ⟨rfl, rfl⟩
    · exact h.kinds k' e he
    · exact hk
  · rcases hmem k' e he with he | ⟨rfl, rfl⟩
    · exact h.fast k' e he
    · simp
  · rw [hbridge]
    exact h.engine
  · rw [hbridge]
    exact h.resting
  · rw [hbridge, htable]
    exact h.doneTime

/-- A command taken by the bridge's engine, with its end in the table. -/
theorem Promised.addCompute {start done : Time} {s' : State}
    (h : Promised (Function.update promise t.ptr done) now s)
    (hqueues : ∀ k, s'.fastCompletedQueue k = s.fastCompletedQueue k)
    (hbridge : s'.bridge = {s.bridge with
      pimComputeQueue := s.bridge.pimComputeQueue ++ [(done, t)]
      lastComputeStartTime := start
      lastComputeDoneTime := done})
    (hcontents : Bridge.contents s'.bridge = t ::ₘ Bridge.contents s.bridge)
    (htable : s'.detailedComputeDoneTime = s.detailedComputeDoneTime.insert t.ptr done) :
    Promised (Function.update promise t.ptr done) now s' := by
  refine ⟨fun k e he => ?_, fun k e he => ?_, fun e he => ?_, fun u hu => ?_, fun u hu hpim d hd => ?_⟩
  · rw [hqueues] at he
    exact h.kinds k e he
  · rw [hqueues] at he
    exact h.fast k e he
  · rw [hbridge] at he
    rcases List.mem_append.mp he with he | he
    · exact h.engine e he
    · obtain rfl := List.mem_singleton.mp he
      simp
  · rw [hbridge] at hu
    exact h.resting u hu
  · rw [htable] at hd
    by_cases hptr : u.ptr = t.ptr
    · rw [hptr, AList.lookup_insert, Option.some.injEq] at hd
      rw [hptr, Function.update_self, ← hd]
    · rw [AList.lookup_insert_ne hptr] at hd
      have hin : u ∈ Bridge.contents s.bridge := by
        rw [hcontents] at hu
        rcases Multiset.mem_cons.mp hu with rfl | hu
        · exact absurd rfl hptr
        · exact hu
      exact h.doneTime u hin hpim d hd

/-- Traffic taken by the bridge. -/
theorem Promised.addTraffic {s' : State} (h : Promised (Function.update promise t.ptr now) now s)
    (hk : t.isPim = false) (hqueues : ∀ k, s'.fastCompletedQueue k = s.fastCompletedQueue k)
    (hengine : s'.bridge.pimComputeQueue = s.bridge.pimComputeQueue)
    (hcontents : Bridge.contents s'.bridge = t ::ₘ Bridge.contents s.bridge)
    (htable : s'.detailedComputeDoneTime = s.detailedComputeDoneTime) :
    Promised (Function.update promise t.ptr now) now s' := by
  refine ⟨fun k e he => ?_, fun k e he => ?_, fun e he => ?_, fun u hu => ?_, fun u hu hpim d hd => ?_⟩
  · rw [hqueues] at he
    exact h.kinds k e he
  · rw [hqueues] at he
    exact h.fast k e he
  · rw [hengine] at he
    exact h.engine e he
  · have hsplit := hcontents
    rw [Bridge.contents_eq, Bridge.contents_eq, hengine, ← Multiset.cons_add] at hsplit
    rw [add_right_cancel hsplit] at hu
    rcases Multiset.mem_cons.mp hu with rfl | hu
    · simp
    · exact h.resting u hu
  · rw [hcontents] at hu
    rcases Multiset.mem_cons.mp hu with rfl | hu
    · rw [hk] at hpim
      exact absurd hpim (by simp)
    · rw [htable] at hd
      exact h.doneTime u hu hpim d hd

theorem handOver_served (cfg : Config) (h : Promised promise now s)
    (hnew : ∀ u ∈ s.serving, u.ptr ≠ t.ptr) :
    ∃ start done channel, Served promise now t s (handOver cfg now t s).1
      (metricsCalls (handOver cfg now t s).2) start done channel := by
  have hupdate : ∀ done, Promised (Function.update promise t.ptr done) now s := fun done =>
    h.congr fun u hu => Function.update_of_ne (hnew u hu) _ _
  have hcontents := Bridge.contents_sendCommand cfg.memorySystem s.bridge now t
  unfold handOver
  cases hk : t.isPim with
  | true =>
    have hcommand : t.command = .pim := by simpa [Payload.isPim] using hk
    simp only [if_true]
    unfold handOverCompute
    dsimp only
    split
    · let start := max now s.fastComputeAvailable
      let done := start + ns t.address.toNat + halfNs
      have hproper : start ≤ done := (Nat.le_add_right _ _).trans (Nat.le_add_right _ _)
      refine ⟨start, done, Metrics.kAllChannels, rfl, le_max_left _ _, hproper, ?_, ?_, rfl, rfl⟩
      · simp only [State.serving, List.map_append, List.map_cons, List.map_nil,
          ← Multiset.coe_add, Multiset.coe_singleton, ← Multiset.singleton_add]
        abel
      · refine (hupdate done).addFast hk (fun k' => ?_) rfl rfl
        cases k' <;> rfl
    · let start := max now s.bridge.lastComputeDoneTime
      let done := start + Bridge.computeDelay t
      have hbridge : Bridge.sendCommand cfg.memorySystem s.bridge now t = {s.bridge with
          pimComputeQueue := s.bridge.pimComputeQueue ++ [(done, t)]
          lastComputeStartTime := start
          lastComputeDoneTime := done} := by
        simp only [Bridge.sendCommand, hcommand, if_true, done, start]
      refine ⟨start, done, Metrics.kAllChannels, ?_, le_max_left _ _, Nat.le_add_right _ _, ?_, ?_,
        rfl, rfl⟩
      · rw [hbridge]
        rfl
      · simp only [State.serving, hcontents, ← Multiset.singleton_add]
        abel
      · refine (hupdate done).addCompute (fun k => by cases k <;> rfl) hbridge hcontents ?_
        rw [hbridge]
  | false =>
    have hcommand : t.command ≠ .pim := by simpa [Payload.isPim] using hk
    simp only [Bool.false_eq_true, if_false]
    unfold handOverMemory
    dsimp only
    split
    · let start := max now s.fastMemoryAvailable
      let done := start + ns (cfg.estimateNs t.command t.macroBytes).toNat
      refine ⟨start, done, Metrics.kAllChannels, rfl, le_max_left _ _, Nat.le_add_right _ _, ?_, ?_,
        rfl, rfl⟩
      · simp only [State.serving, List.map_append, List.map_cons, List.map_nil,
          ← Multiset.coe_add, Multiset.coe_singleton, ← Multiset.singleton_add]
        abel
      · refine (hupdate done).addFast hk (fun k' => ?_) rfl rfl
        cases k' <;> rfl
    · have hengine : (Bridge.sendCommand cfg.memorySystem s.bridge now t).pimComputeQueue =
          s.bridge.pimComputeQueue := by
        simp only [Bridge.sendCommand, hcommand, if_false]
      refine ⟨now, now, _, rfl, le_rfl, le_rfl, ?_, ?_, rfl, rfl⟩
      · simp only [State.serving, hcontents, ← Multiset.singleton_add]
        abel
      · exact (hupdate now).addTraffic hk (fun k => by cases k <;> rfl) hengine hcontents rfl

end HandOver

/-! ### Sending -/

/-- A transaction leaves the pending queue: it is handed over, or it stays in the hands of
the thread during a mode change. -/
inductive Sent (promise : Nat → Time) (now : Time) (t : Payload) (s s' : State)
    (calls : List Metrics.Call) : Prop where
  | handed (start done : Time) (channel : Int) : Served promise now t s s' calls start done channel →
    s'.waiting = s.pendingQueue → (∀ t wake, s'.thread ≠ .switching t wake) →
    Sent promise now t s s' calls
  | switched (wake : Time) : calls = [] → SamePlaces s s' → s'.pendingQueue = s.pendingQueue →
    s'.contentionWaitStart = s.contentionWaitStart → s'.thread = .switching t wake →
    Sent promise now t s s' calls

section Sending

variable {promise : Nat → Time} {now : Time} {s : State} (cfg : Config) (env : Env) {t : Payload}

/-- A hand-over and the rest of the loop body. -/
theorem handOver_finish_served (h : Promised promise now s)
    (hnew : ∀ u ∈ s.serving, u.ptr ≠ t.ptr) :
    let r := (handOver cfg now t).seq (finishIteration cfg env now false) s
    ∃ start done channel, Served promise now t s r.1 (metricsCalls r.2) start done channel ∧
      r.1.waiting = s.pendingQueue ∧ (∀ t wake, r.1.thread ≠ .switching t wake) := by
  obtain ⟨start, done, channel, hs⟩ := handOver_served cfg h hnew
  obtain ⟨hpromised, hserving, hwaiting, hcalls⟩ :=
    finishIteration_promised cfg env false hs.promised
  obtain ⟨hpending, hthread, -⟩ := finishIteration_frame cfg env now false (handOver cfg now t s).1
  obtain ⟨thread, -, hstate, -⟩ := finishIteration_spec cfg env now false (handOver cfg now t s).1
  refine ⟨start, done, channel, ⟨?_, hs.notBefore, hs.proper, ?_, hpromised, ?_, ?_⟩, ?_, hthread⟩
  · rw [Action.seq_snd, metricsCalls_append, hcalls, List.append_nil, hs.reported]
  · rw [Action.seq_fst, hserving, hs.serving]
  · rw [Action.seq_fst, hpending, hs.pending]
  · rw [Action.seq_fst, hstate]
    exact hs.contention
  · rw [Action.seq_fst, hwaiting, hs.pending]

/-- The end of a mode change. -/
theorem resume_served (h : Promised promise now s) (hnew : ∀ u ∈ s.serving, u.ptr ≠ t.ptr) :
    ∃ start done channel, Served promise now t s (resume cfg env now t s).1
        (metricsCalls (resume cfg env now t s).2) start done channel ∧
      (resume cfg env now t s).1.waiting = s.pendingQueue ∧
      (∀ t' wake, (resume cfg env now t s).1.thread ≠ .switching t' wake) := by
  have hplaces : SamePlaces s {s with pimMode := targetMode t} := ⟨rfl, rfl, rfl, rfl⟩
  obtain ⟨start, done, channel, hs, hrest⟩ :=
    handOver_finish_served cfg env (hplaces.promised h) hnew
  exact ⟨start, done, channel,
    ⟨hs.reported, hs.notBefore, hs.proper, hs.serving, hs.promised, hs.pending, hs.contention⟩,
    hrest⟩

theorem sendTransaction_sent (h : Promised promise now s)
    (hnew : ∀ u ∈ s.serving, u.ptr ≠ t.ptr) :
    Sent promise now t s (sendTransaction cfg env now t s).1
      (metricsCalls (sendTransaction cfg env now t s).2) := by
  unfold sendTransaction
  split
  · obtain ⟨start, done, channel, hs, hwaiting, hthread⟩ :=
      handOver_finish_served cfg env h hnew
    exact .handed start done channel hs hwaiting hthread
  · exact .switched _ rfl ⟨rfl, rfl, rfl, rfl⟩ rfl rfl rfl

/-- The three things the thread of a unified memory does with the head of the queue. -/
theorem processUnified_cases (cfg : Config) (env : Env) (now : Time) (s : State) :
    (s.pendingQueue = [] ∧ processUnified cfg env now s = finishIteration cfg env now false s) ∨
    (∃ t rest, s.pendingQueue = t :: rest ∧ headBlocked s t = true ∧
      processUnified cfg env now s =
        finishIteration cfg env now cfg.fastLayerMode (noteContention now t s)) ∨
    (∃ t rest, s.pendingQueue = t :: rest ∧ headBlocked s t = false ∧
      processUnified cfg env now s =
        (finishContentionWait now t).seq (sendTransaction cfg env now t)
          {s with pendingQueue := rest}) := by
  unfold processUnified
  cases hq : s.pendingQueue with
  | nil => exact .inl ⟨rfl, rfl⟩
  | cons t rest =>
    right
    cases hb : headBlocked s t with
    | true => exact .inl ⟨t, rest, rfl, hb, by simp [hb]⟩
    | false => exact .inr ⟨t, rest, rfl, hb, by simp [hb]⟩

/-- What ending a contention wait reports. -/
def stallCalls (now : Time) (t : Payload) (s : State) : List Metrics.Call :=
  match s.contentionWaitStart.lookup t.ptr with
  | none => []
  | some start => if start < now ∧ (t.isPim = true ∨ t.srcId = .npu) then [.stall start now t.isPim] else []

/-- A stall is not about a request. -/
theorem stallCalls_aside (now : Time) (t : Payload) (s : State) :
    ∀ c ∈ stallCalls now t s, c.isRequest = false := by
  intro c hc
  unfold stallCalls at hc
  split at hc
  · cases hc
  · split at hc
    · rw [List.mem_singleton.mp hc]
      rfl
    · cases hc

theorem finishContentionWait_calls (now : Time) (t : Payload) (s : State) :
    metricsCalls (finishContentionWait now t s).2 = stallCalls now t s ∧
      (finishContentionWait now t s).1.contentionWaitStart =
        s.contentionWaitStart.erase t.ptr := by
  unfold finishContentionWait stallCalls
  cases hl : s.contentionWaitStart.lookup t.ptr with
  | none =>
    have hnot : t.ptr ∉ s.contentionWaitStart := AList.lookup_eq_none.mp hl
    refine ⟨rfl, ?_⟩
    apply AList.ext
    exact (List.kerase_of_notMem_keys hnot).symm
  | some start =>
    dsimp only
    by_cases hlate : now ≤ start
    · rw [if_pos hlate, if_neg fun hc => not_le.mpr hc.1 hlate]
      exact ⟨rfl, rfl⟩
    · have hlt : start < now := not_le.mp hlate
      rw [if_neg hlate]
      cases hk : t.isPim with
      | true =>
        rw [if_pos rfl, if_pos ⟨hlt, .inl rfl⟩]
        exact ⟨rfl, rfl⟩
      | false =>
        rw [if_neg (by simp)]
        by_cases hsrc : t.srcId = .npu
        · rw [if_pos hsrc, if_pos ⟨hlt, .inr hsrc⟩]
          exact ⟨rfl, rfl⟩
        · rw [if_neg hsrc, if_neg (by simp [hsrc])]
          exact ⟨rfl, rfl⟩

theorem Dequeued.samePlaces {s s' : State} {rest : List Payload} (h : Dequeued s s' rest) :
    SamePlaces s s' := by
  obtain ⟨_, _, _, rfl⟩ := h
  exact ⟨rfl, rfl, rfl, rfl⟩

end Sending

/-! ### Clocked runs -/

/-- A traced run with its clock, the calls that have reached the ledger, the requests that
have arrived and those whose contention wait was reported. -/
structure Clocked where
  now : Time := 0
  run : Traced := {}
  calls : List Metrics.Call := []
  arrived : List Payload := []
  stalled : List Payload := []

namespace Clocked

def wrapper (x : Clocked) : State := x.run.wrapper

/-- The ledger the calls have led to. -/
def ledger (setup : List (Metrics.Device × UInt32 × String)) (x : Clocked) : Metrics.State :=
  Metrics.applyAll (Metrics.configured setup) x.calls

/-- The clocked run after an activation of the module. -/
def act (x : Clocked) (run : Traced) (effects : List Effect) : Clocked :=
  {x with run := run, calls := x.calls ++ metricsCalls effects}

/-- The request whose wait an iteration reports: the head of the pending queue. -/
def stalledBy (s : State) (effects : List Effect) : List Payload :=
  (metricsCalls effects).filterMap fun
    | .stall .. => s.pendingQueue.head?
    | _ => none

def elapse (x : Clocked) (now : Time) : Clocked := {x with now := now}

def report (x : Clocked) (c : Metrics.Call) : Clocked := {x with calls := x.calls ++ [c]}

def arrive (x : Clocked) (t : Payload) : Clocked :=
  let r := peqCb x.now t x.wrapper
  {x.act (x.run.act r) r.2 with arrived := x.arrived ++ [t]}

def iterate (cfg : Config) (env : Env) (x : Clocked) : Clocked :=
  let r := PimWrapper.iterate cfg env x.now x.wrapper
  {x.act (x.run.act r) r.2 with stalled := x.stalled ++ stalledBy x.wrapper r.2}

def resume (cfg : Config) (env : Env) (t : Payload) (x : Clocked) : Clocked :=
  let r := PimWrapper.resume cfg env x.now t x.wrapper
  x.act (x.run.act r) r.2

def posedge (cfg : Config) (x : Clocked) : Clocked :=
  let r := clockPosedge cfg x.now x.wrapper
  x.act (x.run.pop false r) r.2

def negedge (cfg : Config) (x : Clocked) : Clocked :=
  let r := clockNegedge cfg x.now x.wrapper
  x.act (x.run.pop true r) r.2

end Clocked

/-- Time passes, other modules report to the ledger, and the processes of the module run.
A payload object does not arrive while its last request is open. -/
inductive Tick (cfg : Config) (setup : List (Metrics.Device × UInt32 × String)) (x : Clocked) :
    Clocked → Prop where
  | elapse (now : Time) : x.now ≤ now → Tick cfg setup x (x.elapse now)
  | report (c : Metrics.Call) : c.Foreign .pim (x.ledger setup) → Tick cfg setup x (x.report c)
  | arrive (t : Payload) : t.ptr ≠ 0 → (x.ledger setup).requests.lookup t.ptr = none →
    Tick cfg setup x (x.arrive t)
  | iterate (env : Env) (wake : Time) (onEvent : Bool) :
    x.wrapper.thread = .waiting wake onEvent → Tick cfg setup x (x.iterate cfg env)
  | resume (env : Env) (t : Payload) (wake : Time) :
    x.wrapper.thread = .switching t wake → Tick cfg setup x (x.resume cfg env t)
  | posedge : Tick cfg setup x (x.posedge cfg)
  | negedge : Tick cfg setup x (x.negedge cfg)

/-- A unified module in detailed mode that changes its mode at once. -/
def detailed : Config := {refusing with modeChangeDelay := (0, 0)}

/-- A tick of a clocked run is a step of the traced one, or leaves it alone. -/
theorem Tick.step {cfg : Config} {setup : List (Metrics.Device × UInt32 × String)}
    {x x' : Clocked} (h : Tick cfg setup x x') : x'.run = x.run ∨ Step cfg x.run x'.run := by
  cases h with
  | elapse now hnow => exact .inl rfl
  | report c hc => exact .inl rfl
  | arrive t hptr hl => exact .inr (.arrive x.now t)
  | iterate env wake onEvent ht => exact .inr (.iterate env x.now wake onEvent ht)
  | resume env t wake ht => exact .inr (.resume env x.now wake t ht)
  | posedge => exact .inr (.posedge x.now)
  | negedge => exact .inr (.negedge x.now)

theorem Clocked.ledger_act (setup : List (Metrics.Device × UInt32 × String)) (x : Clocked)
    (run : Traced) (effects : List Effect) :
    (x.act run effects).ledger setup = Metrics.applyAll (x.ledger setup) (metricsCalls effects) :=
  Metrics.applyAll_append _ _ _

/-! ### The edges report no request -/

theorem metricsCalls_signalSync (map : String → Option UInt32) (layer : String) :
    metricsCalls (signalSync map layer) = [] := by
  unfold signalSync
  split <;> rfl

theorem metricsCalls_clockPosedge (cfg : Config) (now : Time) (s : State) :
    metricsCalls (clockPosedge cfg now s).2 = [] := by
  unfold clockPosedge
  split
  · rfl
  · dsimp only
    split
    · rfl
    · split
      · unfold completeWriteRequest
        dsimp only
        rw [metricsCalls_append]
        split
        · rw [metricsCalls_append, metricsCalls_signalSync]
          split <;> rfl
        · rfl
      · rfl

theorem metricsCalls_announceLast (cfg : Config) (now : Time) (t : Payload) :
    metricsCalls (announceLast cfg now t) =
      if isDraft t.layer then [.pimEpisode (episodeIdFromLayer t.layer) now] else [] := by
  unfold announceLast
  simp only [metricsCalls_append]
  have hdone : metricsCalls (if endsComputation t.layer = true then
      (if t.srcId = .host ∨ t.srcId = .mcu then [.updateEnd t.layer t.srcId (toCycle now)] else []) ++
        [Effect.pimComputeDone] else []) = [] := by
    split
    · split <;> rfl
    · rfl
  rw [hdone]
  split
  · rfl
  · rw [metricsCalls_append, metricsCalls_signalSync]
    rfl

theorem metricsCalls_clockNegedge (cfg : Config) (now : Time) (s : State) :
    ∀ c ∈ metricsCalls (clockNegedge cfg now s).2, ∃ id finish, c = .pimEpisode id finish := by
  unfold clockNegedge
  split
  · simp [metricsCalls]
  · dsimp only
    intro c hc
    rw [metricsCalls_append] at hc
    rcases List.mem_append.mp hc with hc | hc
    · split at hc <;> simp [metricsCalls] at hc
    · split at hc
      · rw [metricsCalls_announceLast] at hc
        split at hc
        · exact ⟨_, _, List.mem_singleton.mp hc⟩
        · simp at hc
      · simp [metricsCalls] at hc

/-! ### The records of the requests -/

/-- What the record of a waiting request says. -/
structure ArrivedBy (now : Time) (t : Payload) (r : Metrics.Request) : Prop where
  kind : r.pimCompute = t.isPim
  arrival : r.arrivalNs ≤ toNs now

/-- What the record of a request in service says. -/
structure StartedBy (promise : Nat → Time) (t : Payload) (r : Metrics.Request) : Prop where
  kind : r.pimCompute = t.isPim
  start : r.startNs ≤ toNs (promise t.ptr)

/-- Every request in the module has its record. -/
abbrev OnRecord (ledger : Metrics.State) (now : Time) (promise : Nat → Time)
    (waiting serving : Multiset Payload) : Prop :=
  Metrics.Booked .pim (ArrivedBy now) (StartedBy promise) ledger waiting serving

section OnRecord

variable {ledger : Metrics.State} {now now' : Time} {promise : Nat → Time}
  {waiting serving : Multiset Payload} {t : Payload}

theorem OnRecord.later (h : OnRecord ledger now promise waiting serving) (hle : now ≤ now') :
    OnRecord ledger now' promise waiting serving :=
  h.weaken (fun _ _ _ _ hw => ⟨hw.kind, hw.arrival.trans (toNs_mono hle)⟩) fun _ _ _ hs => hs

theorem OnRecord.arrive (h : OnRecord ledger now promise waiting serving) (bytes : UInt64)
    (hptr : t.ptr ≠ 0) (hl : ledger.requests.lookup t.ptr = none) :
    OnRecord (Metrics.requestArrived ledger .pim t bytes t.isPim now) now promise (t ::ₘ waiting)
      serving :=
  Metrics.Booked.arrive h bytes t.isPim now hptr hl ⟨rfl, le_rfl⟩

/-- A request in service has a pointer of its own. -/
theorem OnRecord.ptr_ne (h : OnRecord ledger now promise (t ::ₘ waiting) serving) :
    ∀ u ∈ serving, u.ptr ≠ t.ptr :=
  fun _ hu => (Metrics.Booked.ptr_ne h (Multiset.mem_cons_self t waiting) hu).symm

theorem OnRecord.start (h : OnRecord ledger now promise (t ::ₘ waiting) serving) {start done : Time}
    (hstart : now ≤ start) (hdone : start ≤ done) (channel : Int) :
    OnRecord (Metrics.requestStarted ledger .pim t start channel) now
      (Function.update promise t.ptr done) waiting (t ::ₘ serving) := by
  have hne := OnRecord.ptr_ne h
  have hpromise : OnRecord ledger now (Function.update promise t.ptr done) (t ::ₘ waiting) serving := by
    refine h.weaken (fun _ _ _ _ hw => hw) fun u hu r hs => ⟨hs.kind, ?_⟩
    rw [Function.update_of_ne (hne u hu)]
    exact hs.start
  refine Metrics.Booked.start hpromise start channel fun r _ _ hw => ⟨hw.kind, ?_⟩
  rw [Function.update_self]
  exact max_le (hw.arrival.trans (toNs_mono (hstart.trans hdone))) (toNs_mono hdone)

/-- Reporting what was collected, front first. -/
theorem OnRecord.completeAll (done : List (Time × Payload))
    (h : OnRecord ledger now promise waiting ((done.map (·.2) : List Payload) + serving)) :
    OnRecord (Metrics.applyAll ledger (done.map fun e => .completed .pim e.2 e.1)) now promise waiting
      serving := by
  induction done generalizing ledger with
  | nil => simpa [Metrics.applyAll] using h
  | cons e done ih =>
    rw [List.map_cons, ← Multiset.cons_coe, Multiset.cons_add] at h
    exact ih (Metrics.Booked.complete h e.1)

end OnRecord

end Hsim.PimWrapper
