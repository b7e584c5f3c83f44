import Hsim.MetricsDesk
import Hsim.PimClocked
import Hsim.Transit

/-! What the modules report to the ledger.

Of the requests at a memory module some wait and some are in service. The calls
of the module's thread say how the two change, in the order in which they do:
this is what the ledger can follow. The clock methods and the NPU report nothing
about a request. -/
namespace Hsim

open Metrics (Handles)

/-- No call is about a request. -/
def Aside (effects : List Effect) : Prop := ∀ c ∈ metricsCalls effects, c.isRequest = false

theorem aside_of_none {effects : List Effect} (h : metricsCalls effects = []) : Aside effects := by
  intro c hc
  rw [h] at hc
  cases hc

theorem Aside.append {a b : List Effect} (ha : Aside a) (hb : Aside b) : Aside (a ++ b) := by
  intro c hc
  rw [metricsCalls_append] at hc
  rcases List.mem_append.mp hc with hc | hc
  · exact ha c hc
  · exact hb c hc

theorem Aside.handles {effects : List Effect} (h : Aside effects) (d : Metrics.Device)
    (w s : Multiset Payload) : Handles d w s (metricsCalls effects) w s :=
  Metrics.handles_asides h

/-! ### The DRAM module -/

namespace MemWrapper

/-- The requests the thread has not handed to a back end. -/
def State.waiting (s : State) : Multiset Payload := (s.fwQueue ++ s.memRequest : List Payload)

/-- The requests with a back end. -/
def State.serving (s : State) : Multiset Payload :=
  (s.fastMemoryCompletedQueue.map (·.2) : List Payload) + Bridge.contents s.bridge

/-- What is inside waits, is in service or is on its way back. -/
theorem held_eq (s : State) : held s = s.waiting + s.serving + s.bwQueue := by
  simp only [held, sent, State.waiting, State.serving]
  abel

/-- What an activation does at the desk of the module. -/
abbrev AtDesk (s s' : State) (effects : List Effect) : Prop :=
  Handles .dram s.waiting s.serving (metricsCalls effects) s'.waiting s'.serving

theorem AtDesk.trans {a b c : State} {e e' : List Effect} (h : AtDesk a b e) (h' : AtDesk b c e') :
    AtDesk a c (e ++ e') := by
  rw [AtDesk, metricsCalls_append]
  exact Handles.append h h'

theorem metricsCalls_completed (now : Time) (queue : List (Time × Payload)) :
    metricsCalls (queue.flatMap fun e =>
      [.updateEnd e.2.layer .dram (toCycle now), .metrics (.completed .dram e.2 now)]) =
      (queue.map fun e => (now, e.2)).map fun e => .completed .dram e.2 e.1 := by
  induction queue with
  | nil => rfl
  | cons e queue ih => exact congrArg (Metrics.Call.completed .dram e.2 now :: ·) ih

theorem completeFastMemoryRequests_atDesk (now : Time) (s : State) :
    AtDesk s (completeFastMemoryRequests now s).1 (completeFastMemoryRequests now s).2 := by
  have hserving : s.serving =
      (((Lib.due now s.fastMemoryCompletedQueue).map fun e => (now, e.2)).map (·.2) : List Payload) +
        State.serving (completeFastMemoryRequests now s).1 := by
    rw [List.map_map]
    simp only [State.serving, completeFastMemoryRequests, PimWrapper.map_due now s.fastMemoryCompletedQueue]
    exact add_assoc _ _ _
  rw [AtDesk, hserving, completeFastMemoryRequests, metricsCalls_completed]
  exact Metrics.handles_completeAll _

theorem takeCompleted_atDesk {s : State} (h : Carries s) (cfg : Config) (now : Time) :
    AtDesk s (takeCompleted cfg now s).1 (takeCompleted cfg now s).2 := by
  rcases takeCompleted_cases h cfg now with he | ⟨t, bridge, hback, he⟩
  · rw [he]
    exact .nil _ _
  · rw [he, AtDesk]
    have hserving : s.serving = t ::ₘ State.serving {s with
        bridge := bridge
        bwQueue := s.bwQueue ++ [t]} := by
      rw [State.serving, hback, Multiset.add_cons]
      rfl
    rw [hserving]
    exact .complete t now (.nil _ _)

/-- The front of the thread's list is handed over. -/
theorem sendRequest_atDesk (cfg : Config) (now : Time) (t : Payload) (rest : List Payload) (s : State) :
    AtDesk {s with memRequest := t :: rest} {(sendRequest cfg now t s).1 with memRequest := rest}
      (sendRequest cfg now t s).2 := by
  have hwaiting : State.waiting {s with memRequest := t :: rest} =
      t ::ₘ State.waiting {s with memRequest := rest} := by
    simp only [State.waiting, ← Multiset.coe_add, ← Multiset.cons_coe, Multiset.add_cons]
  rw [AtDesk, hwaiting]
  unfold sendRequest
  dsimp only
  split
  · refine .start t now _ ?_
    have hserving : State.serving {s with
        outstanding := s.outstanding + 1
        memRequest := rest
        fastMemoryCompletedQueue := s.fastMemoryCompletedQueue ++ [(now + cfg.duration t, t)]} =
          t ::ₘ State.serving {s with memRequest := t :: rest} := by
      simp only [State.serving, List.map_append, List.map_cons, List.map_nil, ← Multiset.coe_add,
        Multiset.coe_singleton, ← Multiset.singleton_add]
      abel
    rw [← hserving]
    exact .nil _ _
  · refine .start t now _ ?_
    have hserving : State.serving {s with
        outstanding := s.outstanding + 1
        memRequest := rest
        bridge := Bridge.sendCommand cfg.memorySystem s.bridge now t} =
          t ::ₘ State.serving {s with memRequest := t :: rest} := by
      simp only [State.serving, Bridge.contents_sendCommand, Multiset.add_cons]
    rw [← hserving]
    exact .nil _ _

theorem sendRequests_atDesk (cfg : Config) (now : Time) (s : State) :
    AtDesk s (sendRequests cfg now s).1 (sendRequests cfg now s).2 := by
  -- Before each turn: the requests left are put back for the desk to see.
  obtain ⟨hnone, hdesk⟩ := sendRequests_rule cfg now s
    (fun left s' effects => s'.memRequest = [] ∧ AtDesk s {s' with memRequest := left} effects)
    ⟨rfl, .nil _ _⟩ fun t rest s' effects ⟨hnone, hdesk⟩ =>
      ⟨(sendRequest_frame cfg now t s').2.2.1.trans hnone,
        hdesk.trans (sendRequest_atDesk cfg now t rest s')⟩
  have hs : {(sendRequests cfg now s).1 with memRequest := []} = (sendRequests cfg now s).1 := by
    rw [← hnone]
  rw [hs] at hdesk
  exact hdesk

theorem finishIteration_atDesk (cfg : Config) (env : Env) (now : Time) (s : State) :
    AtDesk s (finishIteration cfg env now s).1 (finishIteration cfg env now s).2 := by
  obtain ⟨thread, -, hs, heffects⟩ := finishIteration_cases (s := s) cfg env now
  have hcalls : metricsCalls (finishIteration cfg env now s).2 = [] := by
    rcases heffects with he | he <;> rw [he] <;> rfl
  have hserving : State.serving {tick cfg env now s with thread := thread} = s.serving :=
    congrArg (_ + ·) (contents_tick cfg env now)
  rw [AtDesk, hcalls, hs, hserving]
  exact .nil _ _

/-- **An iteration of the thread reports what it does to the requests.** -/
theorem iterate_atDesk {s : State} (h : Carries s) (cfg : Config) (env : Env) (now : Time) :
    AtDesk s (iterate cfg env now s).1 (iterate cfg env now s).2 := by
  have h₁ := completeFastMemoryRequests_moves h now
  have h₂ := takeCompleted_moves h₁.carries cfg now
  simp only [iterate, Action.seq_fst, Action.seq_snd]
  rw [if_neg h₂.carries.runs]
  exact (completeFastMemoryRequests_atDesk now s).trans
    ((takeCompleted_atDesk h₁.carries cfg now).trans
      ((sendRequests_atDesk cfg now _).trans (finishIteration_atDesk cfg env now _)))

/-- What is completed is on its way back. -/
theorem AtDesk.returned {s s' : State} {effects : List Effect} (hd : AtDesk s s' effects)
    (h : Carries s) (hm : Moves s s' effects) :
    (s'.bwQueue : Multiset Payload) = s.bwQueue + Metrics.completedOf .dram (metricsCalls effects) := by
  have hkind : ∀ {s : State}, Carries s →
      (s.waiting + s.serving).filter (fun t => t.isPim = false) = s.waiting + s.serving := by
    intro s h
    rw [Multiset.filter_eq_self]
    intro t ht
    refine (h.traffic t ?_).isPim
    rw [held_eq]
    exact Multiset.mem_add.mpr (.inl ht)
  have hbalance := Handles.balance hd
  have hheld := hm.held
  rw [hkind h, hkind hm.carries] at hbalance
  rw [held_eq, held_eq, hbalance, add_comm (Metrics.completedOf _ _ : Multiset Payload),
    add_assoc (s'.waiting + s'.serving)] at hheld
  have hback := add_left_cancel hheld
  rw [hback, add_comm]

theorem clockPosedge_atDesk (s : State) :
    State.waiting (clockPosedge s) = s.waiting ∧ State.serving (clockPosedge s) = s.serving ∧
      (clockPosedge s).bwQueue = s.bwQueue := by
  refine ⟨clockPosedge_perm s, ?_⟩
  unfold clockPosedge
  split <;> exact ⟨rfl, rfl⟩

theorem clockNegedge_atDesk (s : State) :
    State.waiting (clockNegedge s).1 = s.waiting ∧ State.serving (clockNegedge s).1 = s.serving ∧
      Aside (clockNegedge s).2 ∧
      (s.bwQueue : Multiset Payload) = responsesOf (clockNegedge s).2 + (clockNegedge s).1.bwQueue := by
  unfold clockNegedge
  cases hq : s.bwQueue with
  | nil => exact ⟨rfl, rfl, aside_of_none rfl, by simp [hq]⟩
  | cons t rest => exact ⟨rfl, rfl, aside_of_none rfl, rfl⟩

theorem peqCb_atDesk (now : Time) (t : Payload) (s : State) :
    State.waiting (peqCb now t s).1 = t ::ₘ s.waiting ∧ State.serving (peqCb now t s).1 = s.serving := by
  refine ⟨?_, rfl⟩
  simp only [State.waiting, peqCb, ← Multiset.coe_add, Multiset.coe_singleton, ← Multiset.singleton_add]
  abel

end MemWrapper

/-! ### The PIM module -/

namespace PimWrapper

theorem waiting_eq (s : State) : s.waiting = waiting s := by
  cases hthread : s.thread with
  | switching t wake =>
    rw [waiting_switching hthread, waiting, hthread]
    rfl
  | waiting wake onEvent =>
    have hnot : ∀ t wake', s.thread ≠ .switching t wake' := by simp [hthread]
    rw [waiting_eq_of_thread hnot, waiting_idle hnot]
  | exited =>
    have hnot : ∀ t wake', s.thread ≠ .switching t wake' := by simp [hthread]
    rw [waiting_eq_of_thread hnot, waiting_idle hnot]

/-- The local queue of a kind holds requests of that kind. -/
def Kinds (s : State) : Prop := ∀ k, ∀ e ∈ s.fastCompletedQueue k, e.2.isPim = k

theorem kinds_initial : Kinds {} := by
  intro k
  cases k <;> simp [State.fastCompletedQueue]

/-- What is inside of the memory kind is at the desk or on its way back. -/
theorem Kinds.inside {s : State} (h : Kinds s) :
    inside s false =
      (s.waiting + s.serving).filter (fun t => t.isPim = false) + s.memoryCompletedQueue := by
  have hmemory : ((s.fastMemoryCompletedQueue.map (·.2) : List Payload) : Multiset Payload).filter
      (fun t => t.isPim = false) = (s.fastMemoryCompletedQueue.map (·.2) : List Payload) := by
    rw [Multiset.filter_eq_self]
    intro t ht
    obtain ⟨e, he, rfl⟩ := List.mem_map.mp ht
    exact h false e he
  have hcompute : ((s.fastComputeCompletedQueue.map (·.2) : List Payload) : Multiset Payload).filter
      (fun t => t.isPim = false) = 0 := by
    rw [Multiset.filter_eq_nil]
    intro t ht
    obtain ⟨e, he, rfl⟩ := List.mem_map.mp ht
    rw [h true e he]
    simp
  simp only [PimWrapper.inside, State.inFlight, State.completedQueue, State.fastCompletedQueue,
    Bool.false_eq_true, if_false, waiting_eq, State.serving, Multiset.filter_add, hmemory, hcompute,
    ← Multiset.filter_coe]
  abel

/-- What is at the desk is inside. -/
theorem atDesk_le_inside (s : State) : s.waiting + s.serving ≤ inside s false + inside s true := by
  have hboth : ∀ m : Multiset Payload,
      m.filter (fun t => t.isPim = false) + m.filter (fun t => t.isPim = true) = m := by
    intro m
    have hsplit := Multiset.filter_add_not (fun t : Payload => t.isPim = false) m
    simpa using hsplit
  have hinside : inside s false + inside s true = s.waiting + s.serving +
      ((s.memoryCompletedQueue : Multiset Payload) + s.computeCompletedQueue) := by
    have hwaiting := hboth (waiting s)
    have hbridge := hboth (Bridge.contents s.bridge)
    simp only [inside, State.inFlight, State.completedQueue, State.fastCompletedQueue,
      Bool.false_eq_true, if_false, if_true, waiting_eq, State.serving, ← Multiset.filter_coe]
    have hregroup : ∀ {b w b₀ b₁ w₀ w₁ m c m' c' : Multiset Payload}, b₀ + b₁ = b → w₀ + w₁ = w →
        m + m' + b₀ + w₀ + (c + c' + b₁ + w₁) = w + (m' + c' + b) + (m + c) := by
      rintro b w b₀ b₁ w₀ w₁ m c m' c' rfl rfl
      abel
    exact hregroup hbridge hwaiting
  rw [hinside]
  exact Multiset.le_add_right _ _

/-- What an activation does at the desk of the module. -/
structure AtDesk (s s' : State) (effects : List Effect) : Prop where
  handles : Handles .pim s.waiting s.serving (metricsCalls effects) s'.waiting s'.serving
  kinds : Kinds s → Kinds s'

theorem AtDesk.trans {a b c : State} {e e' : List Effect} (h : AtDesk a b e) (h' : AtDesk b c e') :
    AtDesk a c (e ++ e') := by
  refine ⟨?_, fun hk => h'.kinds (h.kinds hk)⟩
  rw [metricsCalls_append]
  exact h.handles.append h'.handles

/-- What is due leaves a local queue and its completion is reported. -/
theorem completed_atDesk {now : Time} {s s' : State} {queue : List (Time × Payload)}
    (hserving : s.serving = ((Lib.due now queue).map (·.2) : List Payload) + s'.serving)
    (hwaiting : s'.waiting = s.waiting) (hkinds : Kinds s → Kinds s') :
    AtDesk s s' ((Lib.due now queue).flatMap fun e =>
      [.updateEnd e.2.layer .pim (toCycle e.1), .metrics (.completed .pim e.2 e.1)]) := by
  refine ⟨?_, hkinds⟩
  rw [metricsCalls_due, hserving, hwaiting]
  exact Metrics.handles_completeAll _

theorem completeFastMemoryRequests_atDesk (now : Time) (s : State) :
    AtDesk s (completeFastMemoryRequests now s).1 (completeFastMemoryRequests now s).2 := by
  refine completed_atDesk ?_ rfl fun h k e he => ?_
  · simp only [State.serving, completeFastMemoryRequests, map_due now s.fastMemoryCompletedQueue]
    abel
  · cases k with
    | false => exact h false e (mem_of_mem_notDue he)
    | true => exact h true e he

theorem completeFastComputeRequests_atDesk (now : Time) (s : State) :
    AtDesk s (completeFastComputeRequests now s).1 (completeFastComputeRequests now s).2 := by
  refine completed_atDesk ?_ rfl fun h k e he => ?_
  · simp only [State.serving, completeFastComputeRequests, map_due now s.fastComputeCompletedQueue]
    abel
  · cases k with
    | false => exact h false e he
    | true => exact h true e (mem_of_mem_notDue he)

/-- A state with the same local queues. -/
theorem Kinds.of_queues {s s' : State} (h : Kinds s)
    (hm : s'.fastMemoryCompletedQueue = s.fastMemoryCompletedQueue)
    (hc : s'.fastComputeCompletedQueue = s.fastComputeCompletedQueue) : Kinds s' := by
  intro k e he
  simp only [State.fastCompletedQueue, hm, hc] at he
  exact h k e he

theorem takeCompleted_atDesk (now : Time) (s : State) :
    AtDesk s (takeCompleted now s).1 (takeCompleted now s).2 := by
  have hback := Bridge.contents_getCompletedCommand s.bridge
  unfold takeCompleted
  split
  · exact ⟨.nil _ _, id⟩
  · next t bridge hget =>
    rw [hget, Option.toList_some, Multiset.coe_singleton, Multiset.singleton_add] at hback
    have hserving : s.serving = t ::ₘ State.serving {s with bridge := bridge} := by
      rw [State.serving, hback, Multiset.add_cons]
      rfl
    split
    · refine ⟨?_, fun h => h.of_queues rfl rfl⟩
      rw [hserving]
      exact .complete t _ (.nil _ _)
    · refine ⟨?_, fun h => h.of_queues rfl rfl⟩
      rw [hserving]
      exact .complete t _ (.nil _ _)

theorem collect_atDesk (now : Time) (s : State) : AtDesk s (collect now s).1 (collect now s).2 :=
  (completeFastMemoryRequests_atDesk now s).trans
    ((completeFastComputeRequests_atDesk now _).trans (takeCompleted_atDesk now _))

theorem serving_tick (cfg : Config) (env : Env) (now : Time) (s : State) :
    (tick cfg env now s).serving = s.serving := by
  unfold tick
  cases cfg.fastLayerMode with
  | true => rfl
  | false => exact congrArg (_ + ·) (Bridge.contents_clockTick _ _ _ _)

/-- The end of the loop body. -/
theorem finishIteration_atDesk (cfg : Config) (env : Env) (now : Time) (blocked : Bool) (s : State) :
    (finishIteration cfg env now blocked s).1.waiting = s.pendingQueue ∧
      (finishIteration cfg env now blocked s).1.serving = s.serving ∧
      metricsCalls (finishIteration cfg env now blocked s).2 = [] ∧
      (Kinds s → Kinds (finishIteration cfg env now blocked s).1) := by
  obtain ⟨thread, hthread, hs, heffects⟩ := finishIteration_spec cfg env now blocked s
  rw [hs, heffects]
  refine ⟨waiting_eq_of_thread hthread, serving_tick cfg env now s, ?_, fun h => h.of_queues rfl rfl⟩
  split <;> rfl

/-- A hand-over starts the service. -/
theorem handOver_atDesk (cfg : Config) (now : Time) (t : Payload) (s : State) :
    ∃ start channel, metricsCalls (handOver cfg now t s).2 = [.started .pim t start channel] ∧
      (handOver cfg now t s).1.serving = t ::ₘ s.serving ∧ (Kinds s → Kinds (handOver cfg now t s).1) := by
  have hbridge := Bridge.contents_sendCommand cfg.memorySystem s.bridge now t
  unfold handOver
  cases hk : t.isPim with
  | true =>
    rw [if_pos rfl]
    unfold handOverCompute
    dsimp only
    split
    · refine ⟨_, _, rfl, ?_, fun h k e he => ?_⟩
      · simp only [State.serving, List.map_append, List.map_cons, List.map_nil, ← Multiset.coe_add,
          Multiset.coe_singleton, ← Multiset.singleton_add]
        abel
      · cases k with
        | false => exact h false e he
        | true =>
          rcases List.mem_append.mp he with he | he
          · exact h true e he
          · rw [List.mem_singleton.mp he]
            exact hk
    · refine ⟨_, _, rfl, ?_, fun h => h.of_queues rfl rfl⟩
      simp only [State.serving, hbridge, Multiset.add_cons]
  | false =>
    rw [if_neg (by simp)]
    unfold handOverMemory
    dsimp only
    split
    · refine ⟨_, _, rfl, ?_, fun h k e he => ?_⟩
      · simp only [State.serving, List.map_append, List.map_cons, List.map_nil, ← Multiset.coe_add,
          Multiset.coe_singleton, ← Multiset.singleton_add]
        abel
      · cases k with
        | true => exact h true e he
        | false =>
          rcases List.mem_append.mp he with he | he
          · exact h false e he
          · rw [List.mem_singleton.mp he]
            exact hk
    · refine ⟨_, _, rfl, ?_, fun h => h.of_queues rfl rfl⟩
      simp only [State.serving, hbridge, Multiset.add_cons]

section
variable {s s₀ : State} (hserving : s₀.serving = s.serving) (hkinds : Kinds s → Kinds s₀)
include hserving hkinds

/-- The thread is done with an iteration that hands nothing over. -/
theorem finish_atDesk (hw : s.waiting = s₀.pendingQueue) (cfg : Config) (env : Env) (now : Time)
    (blocked : Bool) :
    AtDesk s (finishIteration cfg env now blocked s₀).1 (finishIteration cfg env now blocked s₀).2 := by
  obtain ⟨hwaiting, hsame, hcalls, hkept⟩ := finishIteration_atDesk cfg env now blocked s₀
  refine ⟨?_, fun h => hkept (hkinds h)⟩
  rw [hcalls, hwaiting, hsame, hw, hserving]
  exact .nil _ _

/-- The front of what waits is handed over. -/
theorem handOver_finish_atDesk {t : Payload} (hw : s.waiting = t ::ₘ (s₀.pendingQueue : Multiset Payload))
    (cfg : Config) (env : Env) (now : Time) :
    AtDesk s ((handOver cfg now t).seq (finishIteration cfg env now false) s₀).1
      ((handOver cfg now t).seq (finishIteration cfg env now false) s₀).2 := by
  obtain ⟨start, channel, hreport, hserved, hover⟩ := handOver_atDesk cfg now t s₀
  obtain ⟨hwaiting, hsame, hcalls, hkept⟩ :=
    finishIteration_atDesk cfg env now false (handOver cfg now t s₀).1
  refine ⟨?_, fun h => hkept (hover (hkinds h))⟩
  rw [Action.seq_fst, Action.seq_snd, metricsCalls_append, hreport, hcalls, hwaiting, hsame, hserved,
    (handOver_spec cfg now t s₀).2.2, hw, hserving]
  exact .start t start channel (.nil _ _)

theorem sendTransaction_atDesk {t : Payload} (hw : s.waiting = t ::ₘ (s₀.pendingQueue : Multiset Payload))
    (cfg : Config) (env : Env) (now : Time) :
    AtDesk s (sendTransaction cfg env now t s₀).1 (sendTransaction cfg env now t s₀).2 := by
  unfold sendTransaction
  split
  · exact handOver_finish_atDesk hserving hkinds hw cfg env now
  · refine ⟨?_, fun h => (hkinds h).of_queues rfl rfl⟩
    rw [hw, ← hserving, ← waiting_switching (s := {s₀ with thread := .switching t _}) rfl]
    exact .nil _ _

end

/-- The end of a contention wait is not about a request. -/
theorem ContentionEffects.aside {effects : List Effect} (h : ContentionEffects effects) :
    Aside effects := by
  rcases h with rfl | ⟨layer, start, finish, draft, rfl⟩ <;>
    simp [Aside, metricsCalls, Metrics.Call.isRequest]

/-- **An iteration of the thread reports what it does to the requests.** -/
theorem iterate_atDesk {s : State} {wake : Time} {onEvent : Bool}
    (hthread : s.thread = .waiting wake onEvent) (cfg : Config) (env : Env) (now : Time) :
    AtDesk s (iterate cfg env now s).1 (iterate cfg env now s).2 := by
  rw [iterate, Action.seq_fst, Action.seq_snd]
  refine (collect_atDesk now s).trans ?_
  have hidle : (collect now s).1.waiting = (collect now s).1.pendingQueue := by
    refine waiting_eq_of_thread fun t wake' => ?_
    rw [(collect_frame now s).1, hthread]
    simp
  generalize (collect now s).1 = c at hidle ⊢
  rcases process_cases cfg env now c with
    ⟨-, hp⟩ | ⟨t, rest, -, -, -, hp⟩ | ⟨t, rest, s₀, effects, hq, -, hdeq, heffects, hp⟩
  · rw [hp]
    exact finish_atDesk rfl id hidle cfg env now _
  · rw [hp]
    have hnote : ∃ waits, noteContention now t c = {c with contentionWaitStart := waits} := by
      unfold noteContention
      split <;> exact ⟨_, rfl⟩
    obtain ⟨waits, hnote⟩ := hnote
    have hserving : State.serving {c with contentionWaitStart := waits} = c.serving := rfl
    rw [hnote]
    exact finish_atDesk hserving (fun h => h.of_queues rfl rfl) hidle cfg env now _
  · rw [hp]
    obtain ⟨waits, target, draft, rfl⟩ := hdeq
    have hserving : State.serving {c with
        pendingQueue := rest
        contentionWaitStart := waits
        targetMemoryWaitCount := target
        draftComputeWaitCount := draft} = c.serving := rfl
    have hfront : c.waiting = t ::ₘ (rest : Multiset Payload) := by
      rw [hidle, hq]
      rfl
    have hsend := sendTransaction_atDesk hserving (fun h => h.of_queues rfl rfl) hfront cfg env now
    refine ⟨?_, hsend.kinds⟩
    rw [metricsCalls_append]
    exact (heffects.aside.handles .pim _ _).append hsend.handles

/-- What is completed of the memory kind is on its way back. -/
theorem AtDesk.returned {s s' : State} {effects : List Effect} (hd : AtDesk s s' effects)
    (hk : Kinds s) (hm : Moves s s' effects) :
    (s'.memoryCompletedQueue : Multiset Payload) =
      s.memoryCompletedQueue + Metrics.completedOf .pim (metricsCalls effects) := by
  have hbalance := hd.handles.balance
  have hinside := hm.inside false
  rw [hk.inside, (hd.kinds hk).inside, hbalance,
    add_comm (Metrics.completedOf _ _ : Multiset Payload),
    add_assoc (Multiset.filter _ (s'.waiting + s'.serving))] at hinside
  have hback := add_left_cancel hinside
  rw [hback, add_comm]

theorem resume_atDesk {s : State} {t : Payload} {wake : Time} (hthread : s.thread = .switching t wake)
    (cfg : Config) (env : Env) (now : Time) :
    AtDesk s (resume cfg env now t s).1 (resume cfg env now t s).2 := by
  have hserving : State.serving {s with pimMode := targetMode t} = s.serving := rfl
  exact handOver_finish_atDesk hserving (fun h => h.of_queues rfl rfl) (waiting_switching hthread)
    cfg env now

/-- An activation that reports nothing about the requests. -/
theorem still_atDesk {s s' : State} {effects : List Effect} (hwaiting : s'.waiting = s.waiting)
    (hserving : s'.serving = s.serving) (hkinds : Kinds s → Kinds s') (haside : Aside effects) :
    AtDesk s s' effects := by
  refine ⟨?_, hkinds⟩
  rw [hwaiting, hserving]
  exact haside.handles .pim _ _

theorem clockPosedge_atDesk (cfg : Config) (now : Time) (s : State) :
    AtDesk s (clockPosedge cfg now s).1 (clockPosedge cfg now s).2 := by
  have hframe : (clockPosedge cfg now s).1.waiting = s.waiting ∧
      (clockPosedge cfg now s).1.serving = s.serving ∧
      (Kinds s → Kinds (clockPosedge cfg now s).1) := by
    unfold clockPosedge
    split
    · exact ⟨rfl, rfl, id⟩
    · exact ⟨rfl, rfl, fun h => h.of_queues rfl rfl⟩
  exact still_atDesk hframe.1 hframe.2.1 hframe.2.2 (aside_of_none (metricsCalls_clockPosedge cfg now s))

/-- The rising edge answers the NPU. -/
theorem clockPosedge_returned {s : State} (cfg : Config) (now : Time)
    (hnpu : ∀ t ∈ inside s false, t.srcId = .npu) :
    (s.memoryCompletedQueue : Multiset Payload) = responsesOf (clockPosedge cfg now s).2 +
        (clockPosedge cfg now s).1.memoryCompletedQueue ∧
      releasesOf (clockPosedge cfg now s).2 = [] := by
  have hmem : ∀ t ∈ s.memoryCompletedQueue, t.srcId = .npu := by
    intro t ht
    exact hnpu t (Multiset.mem_add.mpr (.inl
      (Multiset.mem_add.mpr (.inl (Multiset.mem_add.mpr (.inl ht))))))
  unfold clockPosedge
  cases hq : s.memoryCompletedQueue with
  | nil => simp [hq]
  | cons t rest =>
    have hsrc := hmem t (by rw [hq]; exact List.mem_cons_self)
    dsimp only
    rw [if_pos (.inr hsrc)]
    exact ⟨rfl, rfl⟩

theorem clockNegedge_aside (cfg : Config) (now : Time) (s : State) :
    Aside (clockNegedge cfg now s).2 := by
  intro c hc
  obtain ⟨id, finish, rfl⟩ := metricsCalls_clockNegedge cfg now s c hc
  rfl

theorem clockNegedge_atDesk (cfg : Config) (now : Time) (s : State) :
    AtDesk s (clockNegedge cfg now s).1 (clockNegedge cfg now s).2 := by
  have hframe : (clockNegedge cfg now s).1.waiting = s.waiting ∧
      (clockNegedge cfg now s).1.serving = s.serving ∧
      (Kinds s → Kinds (clockNegedge cfg now s).1) := by
    unfold clockNegedge
    split
    · exact ⟨rfl, rfl, id⟩
    · exact ⟨rfl, rfl, fun h => h.of_queues rfl rfl⟩
  exact still_atDesk hframe.1 hframe.2.1 hframe.2.2 (clockNegedge_aside cfg now s)

theorem clockNegedge_returned (cfg : Config) (now : Time) (s : State) :
    (clockNegedge cfg now s).1.memoryCompletedQueue = s.memoryCompletedQueue := by
  unfold clockNegedge
  split <;> rfl

theorem peqCb_atDesk (now : Time) (t : Payload) (s : State) :
    (peqCb now t s).1.waiting = t ::ₘ s.waiting ∧ (peqCb now t s).1.serving = s.serving ∧
      (Kinds s → Kinds (peqCb now t s).1) := by
  exact ⟨peqCb_waiting now t s, rfl, fun h => h.of_queues rfl rfl⟩

end PimWrapper

/-! ### The NPU -/

namespace NpuTraceReplayer

theorem issue_aside {cfg : Config} {rest : List Segment} {next : Action State}
    (hnext : ∀ s, Aside (next s).2) (requests : List Payload) (s : State) :
    Aside (issue cfg rest next requests s).2 := by
  induction requests generalizing s with
  | nil =>
    simp only [issue]
    split
    · exact hnext s
    · exact aside_of_none rfl
  | cons body requests ih =>
    simp only [issue]
    split
    · exact aside_of_none rfl
    · exact ih (send cfg body s).1

theorem advance_aside (cfg : Config) (now : Time) (script : List Segment) (s : State) :
    Aside (advance cfg now script s).2 := by
  induction script generalizing s with
  | nil => exact aside_of_none rfl
  | cons g rest ih =>
    cases g with
    | layerStart layer => exact ih {s with npuStartTime := now}
    | transfer op kind command bytes layer requests =>
      simp only [advance]
      split
      · exact ih s
      · exact issue_aside ih requests {s with pendingResponses := 0}
    | compute op computeNs => simp [Aside, advance, metricsCalls, Metrics.Call.isRequest]
    | layerEnd layer compute =>
      have hone : Aside [.updateNpuEnd layer (toCycle now) compute,
          .metrics (.npuInterval s.npuStartTime now)] := by
        simp [Aside, metricsCalls, Metrics.Call.isRequest]
      exact hone.append (ih s)
    | trap => exact aside_of_none rfl
    | finish => simp [Aside, advance, metricsCalls, Metrics.Call.isRequest]

section
variable (cfg : Config) (now : Time) (s : State)

theorem startRun_aside : Aside (startRun cfg now s).2 := by
  unfold startRun
  dsimp only
  split
  · exact advance_aside cfg now _ _
  · exact aside_of_none rfl

theorem onResponse_aside : Aside (onResponse cfg now s).2 := by
  unfold onResponse
  dsimp only
  split
  · exact issue_aside (advance_aside cfg now _) _ _
  · split
    · exact advance_aside cfg now _ _
    · exact aside_of_none rfl
  · exact aside_of_none rfl

theorem endCompute_aside : Aside (endCompute cfg now s).2 := by
  unfold endCompute
  split
  · exact advance_aside cfg now _ _
  · exact aside_of_none rfl

end

end NpuTraceReplayer

end Hsim
