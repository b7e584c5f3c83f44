import Hsim.Lib.Reach
import Hsim.MemWrapper
import Hsim.MetricsIntervals
import Hsim.MetricsService

/-! Does the DRAM module reserve the memory for a tensor-sized request?

Time is explicit here: it can pass only up to the instant the thread has asked to
be woken at, and the thread runs at that instant or when an event wakes it
earlier. The module hands a request over without looking at the ones in service,
so requests handed over together overlap, and a short one waits behind a long
one. They do neither as long as no iteration finds a request while another is
still being served. -/
namespace Hsim.MemWrapper

/-- The module, its clock, the ledger it reports to, and, for every request it has
completed, when it did and when the request was due. -/
structure Timed where
  now : Time := 0
  /-- `fast_memory_event` has been notified at this instant. -/
  notified : Bool := false
  wrapper : State := {}
  ledger : Metrics.State := {}
  finished : List (Time × Time) := []

namespace Timed

def act (x : Timed) (r : State × List Effect) : Timed :=
  {x with wrapper := r.1, ledger := Metrics.applyAll x.ledger (metricsCalls r.2)}

/-- An iteration of the thread, with the completions it makes. -/
def iterate (cfg : Config) (env : Env) (x : Timed) : Timed :=
  {x.act (MemWrapper.iterate cfg env x.now x.wrapper) with
    notified := false
    finished := x.finished ++
      (Lib.due x.now x.wrapper.fastMemoryCompletedQueue).map fun e => (x.now, e.1)}

end Timed

/-- The module in fast-layer mode under tensor-sized requests, when the thread runs only
in states that meet `ok`. A payload object is not delivered again while its request is
open. -/
inductive Step (cfg : Config) (ok : Timed → Prop) (x : Timed) : Timed → Prop where
  | elapse (now : Time) : x.now ≤ now →
    (∀ wake onEvent, x.wrapper.thread = .waiting wake onEvent → now ≤ wake) →
    Step cfg ok x {x with now := now, notified := false}
  | arrive (t : Payload) : t.isMacroRequest = true → t.ptr ≠ 0 →
    x.ledger.requests.lookup t.ptr = none → Step cfg ok x (x.act (peqCb x.now t x.wrapper))
  | posedge : Step cfg ok x {x with
      wrapper := clockPosedge x.wrapper
      notified := x.notified || !x.wrapper.fwQueue.isEmpty}
  | negedge : Step cfg ok x (x.act (clockNegedge x.wrapper))
  | iterate (env : Env) (wake : Time) (onEvent : Bool) :
    x.wrapper.thread = .waiting wake onEvent →
    (wake ≤ x.now ∨ (onEvent = true ∧ x.notified = true)) → ok x →
    Step cfg ok x (x.iterate cfg env)

/-- The start of a run: a fresh module and a configured ledger. -/
def Start (x : Timed) : Prop := ∃ setup, x = {ledger := Metrics.configured setup}

/-- The states a run can be in. -/
abbrev Reachable (cfg : Config) : Timed → Prop := Lib.Reach Start (Step cfg fun _ => True)

/-- No request finds another in service: everything handed over before is due, and of
the requests handed over together only the last takes time. -/
def Free (cfg : Config) (x : Timed) : Prop :=
  x.wrapper.memRequest ≠ [] →
    (∀ e ∈ x.wrapper.fastMemoryCompletedQueue, e.1 ≤ x.now) ∧
    ∀ t ∈ x.wrapper.memRequest.dropLast, cfg.duration t = 0

/-- Requests are served one after the other, and each is completed when it is due. -/
structure Reserved (x : Timed) : Prop where
  disjoint : Metrics.InOrder (x.ledger.intervals .dram false)
  onTime : ∀ c ∈ x.finished, c.1 = c.2

/-! ### Handing over -/

/-- The slots that requests handed over at `now` get. -/
def slotsAt (cfg : Config) (now : Time) (requests : List Payload) : List (Lib.Slot Time Payload) :=
  requests.map fun t => ⟨now, now + cfg.duration t, t⟩

theorem sendRequests_macro {cfg : Config} (hfast : cfg.fastLayerMode = true) (now : Time) (s : State)
    (hreq : ∀ t ∈ s.memRequest, t.isMacroRequest = true) :
    (sendRequests cfg now s).1 = {s with
        memRequest := []
        outstanding := (sendRequests cfg now s).1.outstanding
        fastMemoryCompletedQueue :=
          s.fastMemoryCompletedQueue ++ (slotsAt cfg now s.memRequest).map Lib.Slot.entry} ∧
      metricsCalls (sendRequests cfg now s).2 =
        s.memRequest.map fun t => .started .dram t now Metrics.kAllChannels := by
  -- Before each turn: what the requests left add gives what all of them give.
  obtain ⟨hstate, hqueue, hcalls, -⟩ := sendRequests_rule cfg now s
    (fun left s' effects =>
      s' = {s with
        memRequest := []
        outstanding := s'.outstanding
        fastMemoryCompletedQueue := s'.fastMemoryCompletedQueue} ∧
      s'.fastMemoryCompletedQueue ++ (slotsAt cfg now left).map Lib.Slot.entry =
        s.fastMemoryCompletedQueue ++ (slotsAt cfg now s.memRequest).map Lib.Slot.entry ∧
      (metricsCalls effects ++ left.map fun t => .started .dram t now Metrics.kAllChannels) =
        (s.memRequest.map fun t => .started .dram t now Metrics.kAllChannels) ∧
      ∀ t ∈ left, t.isMacroRequest = true)
    ⟨rfl, rfl, rfl, hreq⟩ fun t rest s' effects ⟨hstate, hqueue, hcalls, hleft⟩ => by
      obtain ⟨hfirst, hrest⟩ := List.forall_mem_cons.mp hleft
      have ht : cfg.localRequest t = true := by simp [Config.localRequest, hfast, hfirst]
      refine ⟨?_, ?_, ?_, hrest⟩
      · rw [hstate]
        simp [sendRequest, ht]
      · rw [← hqueue]
        simp [sendRequest, ht, slotsAt, Lib.Slot.entry]
      · rw [← hcalls]
        simp [sendRequest, ht, metricsCalls]
  refine ⟨?_, ?_⟩
  · rw [← hqueue, slotsAt, List.map_nil, List.map_nil, List.append_nil]
    exact hstate
  · rw [← hcalls, List.map_nil, List.append_nil]

/-! ### The invariant -/

/-- Slots ended and reported, slots in service, requests not yet handed over. -/
structure Served (x : Timed) (reported opened : List (Lib.Slot Time Payload)) : Prop where
  ledger : Metrics.Reported .dram false x.ledger x.now reported opened
    (x.wrapper.memRequest ++ x.wrapper.fwQueue)
  queue : x.wrapper.fastMemoryCompletedQueue = opened.map Lib.Slot.entry
  disjoint : (reported ++ opened).Pairwise (fun a b => a.done ≤ b.start)
  proper : ∀ o ∈ reported ++ opened, o.start ≤ o.done
  past : ∀ o ∈ reported, o.done ≤ x.now

structure Inv (x : Timed) : Prop where
  macros : ∀ t ∈ x.wrapper.memRequest ++ x.wrapper.fwQueue, t.isMacroRequest = true
  bridge : x.wrapper.bridge.outgoingQueue = []
  served : ∃ reported opened, Served x reported opened
  /-- The thread sleeps no longer than the first request in service. -/
  wake : ∀ wake onEvent, x.wrapper.thread = .waiting wake onEvent →
    x.now ≤ wake ∧ ∀ e ∈ x.wrapper.fastMemoryCompletedQueue, wake ≤ e.1
  onTime : ∀ c ∈ x.finished, c.1 = c.2

theorem Inv.reserved {x : Timed} (h : Inv x) : Reserved x := by
  obtain ⟨reported, opened, hs⟩ := h.served
  refine ⟨?_, h.onTime⟩
  rw [hs.ledger.intervals, Metrics.InOrder, List.pairwise_map]
  exact (List.pairwise_append.mp hs.disjoint).1.imp toNs_mono

theorem inv_start (setup : List (Metrics.Device × UInt32 × String)) :
    Inv {ledger := Metrics.configured setup} := by
  have hblank := Metrics.configured_blank setup
  refine ⟨by simp, rfl, ⟨[], [], ⟨?_, rfl, .nil, by simp, by simp⟩⟩, ?_, by simp⟩
  · refine ⟨by simp, by simp, by simp, by simp, ?_⟩
    simp [Metrics.State.intervals, hblank.traffic]
  · rintro wake onEvent ⟨⟩
    exact ⟨le_rfl, by simp⟩

theorem Inv.elapse {x : Timed} (h : Inv x) {now : Time} (hnow : x.now ≤ now)
    (hwake : ∀ wake onEvent, x.wrapper.thread = .waiting wake onEvent → now ≤ wake) :
    Inv {x with now := now, notified := false} := by
  obtain ⟨reported, opened, hs⟩ := h.served
  refine ⟨h.macros, h.bridge, ⟨reported, opened, ?_⟩, fun wake onEvent ht => ?_, h.onTime⟩
  · exact ⟨hs.ledger.later hnow, hs.queue, hs.disjoint, hs.proper,
      fun o ho => (hs.past o ho).trans hnow⟩
  · exact ⟨hwake wake onEvent ht, (h.wake wake onEvent ht).2⟩

theorem Inv.arrive {x : Timed} (h : Inv x) {t : Payload} (ht : t.isMacroRequest = true)
    (hptr : t.ptr ≠ 0) (hl : x.ledger.requests.lookup t.ptr = none) :
    Inv (x.act (peqCb x.now t x.wrapper)) := by
  obtain ⟨reported, opened, hs⟩ := h.served
  refine ⟨fun u hu => ?_, h.bridge, ⟨reported, opened, ?_, hs.queue, hs.disjoint, hs.proper, hs.past⟩,
    h.wake, h.onTime⟩
  · have hu' : u ∈ (x.wrapper.memRequest ++ x.wrapper.fwQueue) ++ [t] := by
      simpa [Timed.act, peqCb] using hu
    rcases List.mem_append.mp hu' with hu' | hu'
    · exact h.macros u hu'
    · obtain rfl := List.mem_singleton.mp hu'
      exact ht
  · have hnext := hs.ledger.arrive le_rfl t.chargedBytes hptr hl
    rw [List.append_assoc] at hnext
    exact hnext

theorem clockPosedge_requests (s : State) :
    (clockPosedge s).memRequest ++ (clockPosedge s).fwQueue = s.memRequest ++ s.fwQueue := by
  unfold clockPosedge
  split
  · rfl
  · rename_i t rest hq
    simp [hq]

theorem clockPosedge_frame (s : State) :
    (clockPosedge s).thread = s.thread ∧ (clockPosedge s).bridge = s.bridge ∧
      (clockPosedge s).fastMemoryCompletedQueue = s.fastMemoryCompletedQueue := by
  unfold clockPosedge
  split <;> exact ⟨rfl, rfl, rfl⟩

theorem Inv.posedge {x : Timed} (h : Inv x) (notified : Bool) :
    Inv {x with wrapper := clockPosedge x.wrapper, notified := notified} := by
  obtain ⟨reported, opened, hs⟩ := h.served
  obtain ⟨hthread, hbridge, hqueue⟩ := clockPosedge_frame x.wrapper
  have hrequests := clockPosedge_requests x.wrapper
  refine ⟨?_, ?_, ⟨reported, opened, ?_, ?_, hs.disjoint, hs.proper, hs.past⟩, ?_, h.onTime⟩
  · rw [hrequests]
    exact h.macros
  · rw [hbridge]
    exact h.bridge
  · rw [hrequests]
    exact hs.ledger
  · rw [hqueue]
    exact hs.queue
  · rw [hthread, hqueue]
    exact h.wake

theorem Inv.negedge {x : Timed} (h : Inv x) : Inv (x.act (clockNegedge x.wrapper)) := by
  obtain ⟨reported, opened, hs⟩ := h.served
  unfold clockNegedge
  split
  · exact ⟨h.macros, h.bridge, ⟨reported, opened, hs⟩, h.wake, h.onTime⟩
  · exact ⟨h.macros, h.bridge,
      ⟨reported, opened, hs.ledger, hs.queue, hs.disjoint, hs.proper, hs.past⟩, h.wake, h.onTime⟩

/-! ### An iteration -/

theorem metricsCalls_finished (now : Time) (slots : List (Lib.Slot Time Payload))
    (h : ∀ o ∈ slots, o.done = now) :
    metricsCalls ((slots.map Lib.Slot.entry).flatMap fun e =>
      [.updateEnd e.2.layer .dram (toCycle now), .metrics (.completed .dram e.2 now)]) =
      slots.map fun o => .completed .dram o.job o.done := by
  induction slots with
  | nil => rfl
  | cons o slots ih =>
    have ho : o.done = now := h o List.mem_cons_self
    rw [List.map_cons (f := fun o => Metrics.Call.completed .dram (Lib.Slot.job o) o.done), ho]
    exact congrArg (Metrics.Call.completed .dram o.job now :: ·)
      (ih fun o' ho' => h o' (List.mem_cons_of_mem o ho'))

/-- With an unused bridge an iteration completes, hands over and goes to sleep. -/
theorem iterate_local (cfg : Config) (env : Env) (now : Time) {s : State}
    (hbridge : s.bridge.outgoingQueue = []) (hthread : s.thread ≠ .failed) :
    MemWrapper.iterate cfg env now s =
      ((completeFastMemoryRequests now).seq ((sendRequests cfg now).seq
        (finishIteration cfg env now))) s := by
  have htake : takeCompleted cfg now (completeFastMemoryRequests now s).1 =
      ((completeFastMemoryRequests now s).1, []) := by
    have hout : (completeFastMemoryRequests now s).1.bridge.outgoingQueue = [] := hbridge
    simp only [takeCompleted, Bridge.getCompletedCommand, hout]
  have halive : (completeFastMemoryRequests now s).1.thread ≠ .failed := hthread
  simp only [MemWrapper.iterate, Action.seq, htake, if_neg halive, List.nil_append]

/-- Where the thread sleeps after an iteration in fast-layer mode. -/
theorem finishIteration_wake {cfg : Config} (hfast : cfg.fastLayerMode = true) (env : Env)
    (now : Time) {s : State} (hrequest : s.memRequest = [])
    (hqueue : ∀ e ∈ s.fastMemoryCompletedQueue, now ≤ e.1)
    (hfirst : ∀ e rest, s.fastMemoryCompletedQueue = e :: rest → ∀ e' ∈ rest, e.1 ≤ e'.1) :
    ∃ thread, (finishIteration cfg env now s).1 = {s with thread := thread} ∧
      metricsCalls (finishIteration cfg env now s).2 = [] ∧
      ∀ wake onEvent, thread = .waiting wake onEvent →
        now ≤ wake ∧ ∀ e ∈ s.fastMemoryCompletedQueue, wake ≤ e.1 := by
  have htick : tick cfg env now s = s := by simp [tick, hfast]
  unfold finishIteration
  rw [htick]
  dsimp only
  split
  · exact ⟨.exited, rfl, rfl, by simp⟩
  · cases hq : s.fastMemoryCompletedQueue with
    | nil =>
      refine ⟨.waiting (now + cfg.period) false, rfl, rfl, ?_⟩
      rintro wake onEvent ⟨⟩
      exact ⟨Nat.le_add_right _ _, by simp⟩
    | cons e rest =>
      refine ⟨.waiting e.1 true, ?_, ?_, ?_⟩
      · simp [hfast, hrequest]
      · simp [hfast, hrequest, metricsCalls]
      · rintro wake onEvent ⟨⟩
        refine ⟨hqueue e (by simp [hq]), fun e' he' => ?_⟩
        rcases List.mem_cons.mp he' with rfl | he'
        · exact le_rfl
        · exact hfirst e rest hq e' he'

theorem slotsAt_disjoint (cfg : Config) (now : Time) (ts : List Payload)
    (h : ∀ t ∈ ts.dropLast, cfg.duration t = 0) :
    (slotsAt cfg now ts).Pairwise (fun a b => a.done ≤ b.start) := by
  induction ts with
  | nil => exact .nil
  | cons t ts ih =>
    refine List.pairwise_cons.mpr ⟨fun o ho => ?_, ih fun t' ht' => h t' ?_⟩
    · obtain ⟨t', ht', rfl⟩ := List.mem_map.mp ho
      have hne : ts ≠ [] := List.ne_nil_of_mem ht'
      have hzero : cfg.duration t = 0 := h t (by simp [List.dropLast_cons_of_ne_nil hne])
      simp [hzero]
    · have hne : ts ≠ [] := fun he => by simp [he] at ht'
      rw [List.dropLast_cons_of_ne_nil hne]
      exact List.mem_cons_of_mem t ht'

theorem sorted_of_disjoint {slots : List (Lib.Slot Time Payload)}
    (h : slots.Pairwise (fun a b => a.done ≤ b.start)) (hproper : ∀ o ∈ slots, o.start ≤ o.done) :
    Lib.Sorted (slots.map Lib.Slot.entry) := by
  refine List.pairwise_map.mpr (h.imp_of_mem fun {a b} _ hb hab => ?_)
  exact hab.trans (hproper b hb)

/-- Under `Free` the slots handed out follow the ones before them. -/
theorem Served.handOver {cfg : Config} {x : Timed} {reported done rest : List (Lib.Slot Time Payload)}
    (h : Served x reported (done ++ rest)) (hfree : Free cfg x) (hdone : ∀ o ∈ done, o.done = x.now)
    (hrest : Lib.notDue x.now x.wrapper.fastMemoryCompletedQueue = rest.map Lib.Slot.entry) :
    ((reported ++ done) ++ (rest ++ slotsAt cfg x.now x.wrapper.memRequest)).Pairwise
      (fun a b => a.done ≤ b.start) := by
  by_cases hrequest : x.wrapper.memRequest = []
  · rw [hrequest]
    simpa [slotsAt] using h.disjoint
  · obtain ⟨hdue, hzero⟩ := hfree hrequest
    have hnil : rest = [] := by
      have hdrop : Lib.notDue x.now x.wrapper.fastMemoryCompletedQueue = [] := by
        refine List.dropWhile_eq_nil_iff.mpr fun e he => ?_
        simpa using hdue e he
      rw [hdrop] at hrest
      exact List.map_eq_nil_iff.mp hrest.symm
    subst hnil
    have hold := h.disjoint
    simp only [List.append_nil] at hold
    refine List.pairwise_append.mpr ⟨hold, ?_, fun o ho o' ho' => ?_⟩
    · exact slotsAt_disjoint cfg x.now _ hzero
    · simp only [List.nil_append] at ho'
      obtain ⟨t, -, rfl⟩ := List.mem_map.mp ho'
      rcases List.mem_append.mp ho with ho | ho
      · exact h.past o ho
      · exact (hdone o ho).le

/-- Nothing in service is overdue, so what is due is due now. -/
theorem Served.due_now {x : Timed} {reported opened : List (Lib.Slot Time Payload)}
    (h : Served x reported opened) (hwake : ∀ e ∈ x.wrapper.fastMemoryCompletedQueue, x.now ≤ e.1) :
    ∃ done rest, opened = done ++ rest ∧ (∀ o ∈ done, o.done = x.now) ∧
      Lib.due x.now x.wrapper.fastMemoryCompletedQueue = done.map Lib.Slot.entry ∧
      Lib.notDue x.now x.wrapper.fastMemoryCompletedQueue = rest.map Lib.Slot.entry := by
  obtain ⟨done, rest, rfl, hdue, hnotDue⟩ := Lib.due_slots x.now opened
  rw [← h.queue] at hdue hnotDue
  refine ⟨done, rest, rfl, fun o ho => ?_, hdue, hnotDue⟩
  have hmem : o.entry ∈ Lib.due x.now x.wrapper.fastMemoryCompletedQueue := by
    rw [hdue]
    exact List.mem_map_of_mem ho
  have hin : o.entry ∈ x.wrapper.fastMemoryCompletedQueue := by
    rw [h.queue]
    exact List.mem_map_of_mem (List.mem_append_left _ ho)
  exact le_antisymm (Lib.le_of_mem_due hmem) (hwake _ hin)

/-- An iteration that ends the slots of `done`, leaves those of `rest` in service and
hands the requests over. -/
structure Iterated (cfg : Config) (x x' : Timed) (done rest : List (Lib.Slot Time Payload)) : Prop where
  memRequest : x'.wrapper.memRequest = []
  fwQueue : x'.wrapper.fwQueue = x.wrapper.fwQueue
  bridge : x'.wrapper.bridge = x.wrapper.bridge
  queue : x'.wrapper.fastMemoryCompletedQueue =
    (rest ++ slotsAt cfg x.now x.wrapper.memRequest).map Lib.Slot.entry
  ledger : x'.ledger = Metrics.applyAll
    (Metrics.applyAll x.ledger (done.map fun o => .completed .dram o.job o.done))
    ((slotsAt cfg x.now x.wrapper.memRequest).map fun o =>
      .started .dram o.job o.start Metrics.kAllChannels)
  wake : ∀ wake onEvent, x'.wrapper.thread = .waiting wake onEvent →
    x.now ≤ wake ∧ ∀ e ∈ x'.wrapper.fastMemoryCompletedQueue, wake ≤ e.1

theorem iterate_iterated {cfg : Config} (hfast : cfg.fastLayerMode = true) (env : Env) {x : Timed}
    (hbridge : x.wrapper.bridge.outgoingQueue = []) (hthread : x.wrapper.thread ≠ .failed)
    (hmacros : ∀ t ∈ x.wrapper.memRequest, t.isMacroRequest = true)
    {done rest : List (Lib.Slot Time Payload)} (hdone : ∀ o ∈ done, o.done = x.now)
    (hdue : Lib.due x.now x.wrapper.fastMemoryCompletedQueue = done.map Lib.Slot.entry)
    (hnotDue : Lib.notDue x.now x.wrapper.fastMemoryCompletedQueue = rest.map Lib.Slot.entry)
    (hlater : ∀ o ∈ rest, x.now ≤ o.done)
    (hsorted : Lib.Sorted ((rest ++ slotsAt cfg x.now x.wrapper.memRequest).map Lib.Slot.entry)) :
    Iterated cfg x (x.iterate cfg env) done rest := by
  obtain ⟨hsend, hstarts⟩ := sendRequests_macro hfast x.now
    (completeFastMemoryRequests x.now x.wrapper).1 hmacros
  have hqueue : (sendRequests cfg x.now
      (completeFastMemoryRequests x.now x.wrapper).1).1.fastMemoryCompletedQueue =
      (rest ++ slotsAt cfg x.now x.wrapper.memRequest).map Lib.Slot.entry := by
    rw [hsend, List.map_append, ← hnotDue]
    rfl
  have hahead : ∀ e ∈ (rest ++ slotsAt cfg x.now x.wrapper.memRequest).map Lib.Slot.entry,
      x.now ≤ e.1 := by
    intro e he
    obtain ⟨o, ho, rfl⟩ := List.mem_map.mp he
    rcases List.mem_append.mp ho with ho | ho
    · exact hlater o ho
    · obtain ⟨t, -, rfl⟩ := List.mem_map.mp ho
      exact Nat.le_add_right _ _
  obtain ⟨thread, hfinish, hcalls, hwake⟩ := finishIteration_wake hfast env x.now
    (s := (sendRequests cfg x.now (completeFastMemoryRequests x.now x.wrapper).1).1)
    (by rw [hsend])
    (by rwa [hqueue])
    (by
      intro e rest' he
      rw [hqueue] at he
      rw [he] at hsorted
      exact (List.pairwise_cons.mp hsorted).1)
  have hstep := iterate_local cfg env x.now hbridge hthread
  have hwrapper : (x.iterate cfg env).wrapper =
      {(sendRequests cfg x.now (completeFastMemoryRequests x.now x.wrapper).1).1 with
        thread := thread} := by
    simp only [Timed.iterate, Timed.act, hstep, Action.seq_fst, hfinish]
  have hcompletes : metricsCalls (completeFastMemoryRequests x.now x.wrapper).2 =
      done.map fun o => .completed .dram o.job o.done := by
    simp only [completeFastMemoryRequests, hdue]
    exact metricsCalls_finished x.now done hdone
  refine ⟨?_, ?_, ?_, ?_, ?_, ?_⟩
  · rw [hwrapper, hsend]
  · rw [hwrapper, hsend]
    rfl
  · rw [hwrapper, hsend]
    rfl
  · rw [hwrapper, ← hqueue]
  · simp only [Timed.iterate, Timed.act, hstep, Action.seq_snd, metricsCalls_append, hcompletes,
      hstarts, hcalls, List.append_nil, Metrics.applyAll_append, slotsAt, List.map_map]
    rfl
  · rw [hwrapper]
    exact hwake

/-- The slots of an iteration are accounted for after it. -/
theorem Served.iterated {cfg : Config} {x x' : Timed} {reported done rest : List (Lib.Slot Time Payload)}
    (h : Served x reported (done ++ rest)) (hfree : Free cfg x) (hdone : ∀ o ∈ done, o.done = x.now)
    (hrest : Lib.notDue x.now x.wrapper.fastMemoryCompletedQueue = rest.map Lib.Slot.entry)
    (hnow : x'.now = x.now) (hi : Iterated cfg x x' done rest) :
    Served x' (reported ++ done) (rest ++ slotsAt cfg x.now x.wrapper.memRequest) := by
  refine ⟨?_, hi.queue, h.handOver hfree hdone hrest, fun o ho => ?_, fun o ho => ?_⟩
  · rw [hi.memRequest, hi.fwQueue, hi.ledger, hnow, List.nil_append]
    have hjobs : (slotsAt cfg x.now x.wrapper.memRequest).map (·.job) = x.wrapper.memRequest := by
      simp [slotsAt, Function.comp_def]
    refine Metrics.Reported.startAll _ _ ?_ fun o ho => ?_
    · rw [hjobs]
      exact h.ledger.completeAll done
    · obtain ⟨t, -, rfl⟩ := List.mem_map.mp ho
      exact ⟨le_rfl, Nat.le_add_right _ _⟩
  · rw [← List.append_assoc, List.append_assoc reported] at ho
    rcases List.mem_append.mp ho with ho | ho
    · exact h.proper o ho
    · obtain ⟨t, -, rfl⟩ := List.mem_map.mp ho
      exact Nat.le_add_right _ _
  · rw [hnow]
    rcases List.mem_append.mp ho with ho | ho
    · exact h.past o ho
    · exact (hdone o ho).le

theorem Inv.iterate {cfg : Config} (hfast : cfg.fastLayerMode = true) {x : Timed} (h : Inv x)
    (env : Env) {wake : Time} {onEvent : Bool} (ht : x.wrapper.thread = .waiting wake onEvent)
    (hfree : Free cfg x) : Inv (x.iterate cfg env) := by
  obtain ⟨reported, opened, hs⟩ := h.served
  obtain ⟨hnow, hwake⟩ := h.wake wake onEvent ht
  have hlater : ∀ e ∈ x.wrapper.fastMemoryCompletedQueue, x.now ≤ e.1 :=
    fun e he => hnow.trans (hwake e he)
  obtain ⟨done, rest, rfl, hdone, hdue, hnotDue⟩ := hs.due_now hlater
  have hsorted : Lib.Sorted
      ((rest ++ slotsAt cfg x.now x.wrapper.memRequest).map Lib.Slot.entry) := by
    refine sorted_of_disjoint (List.pairwise_append.mp (hs.handOver hfree hdone hnotDue)).2.1 ?_
    intro o ho
    rcases List.mem_append.mp ho with ho | ho
    · exact hs.proper o (List.mem_append_right _ (List.mem_append_right _ ho))
    · obtain ⟨t, -, rfl⟩ := List.mem_map.mp ho
      exact Nat.le_add_right _ _
  have hi := iterate_iterated hfast env h.bridge (by rw [ht]; simp)
    (fun t ht' => h.macros t (List.mem_append_left _ ht')) hdone hdue hnotDue
    (fun o ho => hlater _ (hs.queue ▸ List.mem_map_of_mem (List.mem_append_right _ ho))) hsorted
  refine ⟨fun t ht' => ?_, hi.bridge ▸ h.bridge,
    ⟨_, _, hs.iterated hfree hdone hnotDue rfl hi⟩, hi.wake, fun c hc => ?_⟩
  · rw [hi.memRequest, hi.fwQueue] at ht'
    exact h.macros t (List.mem_append_right _ ht')
  · rcases List.mem_append.mp hc with hc | hc
    · exact h.onTime c hc
    · rw [hdue, List.map_map] at hc
      obtain ⟨o, ho, rfl⟩ := List.mem_map.mp hc
      exact (hdone o ho).symm

theorem Step.inv {cfg : Config} (hfast : cfg.fastLayerMode = true) {x x' : Timed} (h : Inv x)
    (hs : Step cfg (Free cfg) x x') : Inv x' := by
  cases hs with
  | elapse now hnow hwake => exact h.elapse hnow hwake
  | arrive t ht hptr hl => exact h.arrive ht hptr hl
  | posedge => exact h.posedge _
  | negedge => exact h.negedge
  | iterate env wake onEvent ht _ hfree => exact h.iterate hfast env ht hfree

/-- **The memory is reserved while requests come one at a time**: in every run in which no
iteration finds a request while another is in service, the recorded service intervals
do not overlap and every request is completed when it is due. -/
theorem reserved_of_free {cfg : Config} (hfast : cfg.fastLayerMode = true) {x : Timed}
    (h : Lib.Reach Start (Step cfg (Free cfg)) x) : Reserved x := by
  refine Inv.reserved (h.invariant (P := Inv) ?_ ?_)
  · rintro _ ⟨setup, rfl⟩
    exact inv_start setup
  · exact fun x x' hx hs => hs.inv hfast hx

/-- A module in fast-layer mode that moves a byte a nanosecond. -/
def byteNs : Config where
  fastLayerMode := true
  period := 1000000
  hostSyncMap := fun _ => none
  pimSyncMap := fun _ => none
  memorySystem := ⟨1, fun _ => 0⟩
  estimateNs := fun _ bytes => bytes

/-- A tensor-sized read. -/
def tensor (ptr : Nat) (bytes : UInt32) : Payload := {
  ptr := ptr, command := .read, srcId := .npu, dstId := .dram, dataLength := bytes,
  pimCmd := "fast_memory"}

/-- Two requests of 10 and 5 ns, the second handed over when the first is due. -/
theorem reserved_of_free_in_turn : ∃ x, Lib.Reach Start (Step byteNs (Free byteNs)) x ∧
    x.ledger.intervals .dram false = [⟨0, 10⟩, ⟨10, 15⟩] ∧
    x.finished = [(10000, 10000), (15000, 15000)] ∧ Reserved x := by
  let x₁ := ({} : Timed).act (peqCb 0 (tensor 1 10) {})
  let x₂ : Timed := {x₁ with wrapper := clockPosedge x₁.wrapper, notified := true}
  let x₃ := x₂.iterate byteNs {}
  let x₄ : Timed := {x₃ with now := 10000, notified := false}
  let x₅ := x₄.act (peqCb 10000 (tensor 2 5) x₄.wrapper)
  let x₆ : Timed := {x₅ with wrapper := clockPosedge x₅.wrapper, notified := true}
  let x₇ := x₆.iterate byteNs {}
  let x₈ : Timed := {x₇ with now := 15000, notified := false}
  let x₉ := x₈.iterate byteNs {}
  have h₃ : Lib.Reach Start (Step byteNs (Free byteNs)) x₃ :=
    .next (.next (.next (.start ⟨[], rfl⟩) (.arrive (tensor 1 10) rfl (by decide) rfl)) .posedge)
      (.iterate {} 0 false rfl (.inl le_rfl) fun _ => ⟨by decide, by decide⟩)
  have h₄ : Lib.Reach Start (Step byteNs (Free byteNs)) x₄ := by
    refine .next h₃ (.elapse 10000 (by decide) ?_)
    rintro wake onEvent ⟨⟩
    decide
  have h₇ : Lib.Reach Start (Step byteNs (Free byteNs)) x₇ :=
    .next (.next (.next h₄ (.arrive (tensor 2 5) rfl (by decide) rfl)) .posedge)
      (.iterate {} _ true rfl (.inl (by decide)) fun _ => ⟨by decide, by decide⟩)
  have hthread : x₇.wrapper.thread = .waiting 15000 true := by decide +kernel
  have hasleep : x₈.wrapper.thread = .waiting 15000 true := by decide +kernel
  have hempty : x₈.wrapper.memRequest = [] := by decide +kernel
  have h₉ : Lib.Reach Start (Step byteNs (Free byteNs)) x₉ := by
    refine .next (.next h₇ (.elapse 15000 (by decide) ?_))
      (.iterate {} 15000 true hasleep (.inl le_rfl) fun hne => absurd hempty hne)
    rintro wake onEvent hwaits
    rw [hthread] at hwaits
    cases hwaits
    exact le_rfl
  exact ⟨x₉, h₉, by decide +kernel, by decide +kernel, reserved_of_free rfl h₉⟩

/-- Two requests of 10 and 5 ns delivered within one polling period: the iteration at 1 us
finds both, both are served from then on, and the short one is completed at 1010 ns
behind the long one. -/
theorem two_requests_overlap : ∃ x, Reachable byteNs x ∧
    x.ledger.intervals .dram false = [⟨1000, 1010⟩, ⟨1000, 1010⟩] ∧
    x.finished = [(1010000, 1010000), (1010000, 1005000)] ∧ ¬ Reserved x := by
  let x₁ := ({} : Timed).iterate byteNs {}
  let x₂ := x₁.act (peqCb 0 (tensor 1 10) x₁.wrapper)
  let x₃ := x₂.act (peqCb 0 (tensor 2 5) x₂.wrapper)
  let x₄ : Timed := {x₃ with now := 1000, wrapper := clockPosedge x₃.wrapper, notified := true}
  let x₅ : Timed := {x₄ with now := 2000, wrapper := clockPosedge x₄.wrapper, notified := true}
  let x₆ : Timed := {x₅ with now := 1000000, notified := false}
  let x₇ := x₆.iterate byteNs {}
  let x₈ : Timed := {x₇ with now := 1010000, notified := false}
  let x₉ := x₈.iterate byteNs {}
  have h₁ : Reachable byteNs x₁ :=
    .next (.start ⟨[], rfl⟩) (.iterate {} 0 false rfl (.inl le_rfl) trivial)
  have h₃ : Reachable byteNs x₃ :=
    .next (.next h₁ (.arrive (tensor 1 10) rfl (by decide) rfl))
      (.arrive (tensor 2 5) rfl (by decide) rfl)
  have h₄ : Reachable byteNs x₄ := by
    refine .next (.next h₃ (.elapse 1000 (by decide) ?_)) .posedge
    rintro wake onEvent ⟨⟩
    decide
  have h₅ : Reachable byteNs x₅ := by
    refine .next (.next h₄ (.elapse 2000 (by decide) ?_)) .posedge
    rintro wake onEvent ⟨⟩
    decide
  have h₇ : Reachable byteNs x₇ := by
    refine .next (.next h₅ (.elapse 1000000 (by decide) ?_))
      (.iterate {} _ false rfl (.inl (by decide)) trivial)
    rintro wake onEvent ⟨⟩
    decide
  have h₉ : Reachable byteNs x₉ := by
    refine .next (.next h₇ (.elapse 1010000 (by decide) ?_))
      (.iterate {} _ true rfl (.inl (by decide)) trivial)
    rintro wake onEvent ⟨⟩
    decide
  have hfinished : x₉.finished = [(1010000, 1010000), (1010000, 1005000)] := by decide
  refine ⟨x₉, h₉, by decide, hfinished, fun hreserved => ?_⟩
  have hlate := hreserved.onTime (1010000, 1005000) (by rw [hfinished]; simp)
  exact absurd hlate (by decide)

end Hsim.MemWrapper
