import Hsim.MetricsIntervals
import Hsim.MetricsService
import Hsim.PimWrapper

/-! The compute engine is one serial resource.

Compute commands are scheduled in two places: by the bridge, which the thread
ticks, and by the module itself for macros in fast-layer mode. Both are the same
serial resource, and both give a sequence of commands the slots of
`Lib.schedule`. A run here is a sequence of what the thread does with compute
commands, at any nondecreasing times; which of the two schedulers is at work is
the configuration's choice. -/
namespace Hsim.PimWrapper.Engine

/-- What can happen to a compute command. -/
inductive Op where
  | arrive (t : Payload)
  /-- The head of the pending queue is handed over. -/
  | send
  /-- The scheduler is polled: the local queue, and the tick of the bridge. -/
  | poll (answers : Bridge.Answers)
  /-- A finished command is collected from the bridge. -/
  | take

def sendHead (cfg : Config) (now : Time) : Action State := fun s =>
  match s.pendingQueue with
  | [] => (s, [])
  | t :: rest => handOver cfg now t {s with pendingQueue := rest}

def Op.action (cfg : Config) (now : Time) : Op → Action State
  | .arrive t => peqCb now t
  | .send => sendHead cfg now
  | .poll answers => (completeFastComputeRequests now).seq fun s =>
      (tick cfg {answers := answers} now s, [])
  | .take => takeCompleted now

/-- The commands the engine has not finished, with their completion times. -/
def queue (cfg : Config) (s : State) : List (Time × Payload) :=
  if cfg.fastLayerMode then s.fastComputeCompletedQueue else s.bridge.pimComputeQueue

/-- Where a poll puts the commands it releases. -/
def released (cfg : Config) (s : State) : List Payload :=
  if cfg.fastLayerMode then s.computeCompletedQueue else s.bridge.outgoingQueue

/-- From when on the engine is free. -/
def available (cfg : Config) (s : State) : Time :=
  if cfg.fastLayerMode then s.fastComputeAvailable else s.bridge.lastComputeDoneTime

/-- The slots an activation gives out: the start it reports and the end it queues. -/
def assigned (cfg : Config) (r : State × List Effect) : List (Lib.Slot Time Payload) :=
  r.2.filterMap fun
    | .metrics (.started .pim t start _) =>
      (queue cfg r.1).getLast?.map fun e => ⟨start, e.1, t⟩
    | _ => none

/-- The submissions of an activation, with their times and delays. -/
def submitted (now : Time) (s : State) : Op → List (Time × Time × Payload)
  | .send => s.pendingQueue.head?.toList.map fun t => (now, Bridge.computeDelay t, t)
  | _ => []

/-- The module, the ledger it reports to, and the history of the engine. -/
structure Run where
  clock : Time := 0
  wrapper : State := {}
  ledger : Metrics.State := {}
  sends : List (Time × Time × Payload) := []
  slots : List (Lib.Slot Time Payload) := []

def Run.next (cfg : Config) (x : Run) (op : Time × Op) : Run :=
  let r := op.2.action cfg op.1 x.wrapper
  {clock := op.1
   wrapper := r.1
   ledger := Metrics.applyAll x.ledger (metricsCalls r.2)
   sends := x.sends ++ submitted op.1 x.wrapper op.2
   slots := x.slots ++ assigned cfg r}

/-- A run from a fresh module and a configured ledger. -/
def run (cfg : Config) (setup : List (Metrics.Device × UInt32 × String)) (ops : List (Time × Op)) :
    Run :=
  ops.foldl (Run.next cfg) {ledger := Metrics.configured setup}

/-- A command for the engine that `cfg` selects: any text for the bridge, a macro for
the local queue. -/
def IsCommand (cfg : Config) (t : Payload) : Prop :=
  t.isPim = true ∧ (cfg.fastLayerMode = true → startsWith t.pimCmd "macro(" = true)

/-- Every arrival is a command. -/
def Commands (cfg : Config) (ops : List (Time × Op)) : Prop :=
  ∀ now t, (now, .arrive t) ∈ ops → IsCommand cfg t

/-- What the callers of the module promise: time does not go back, and a payload object
does not arrive while its last request is open. -/
def LegalFrom (cfg : Config) (x : Run) : List (Time × Op) → Prop
  | [] => True
  | op :: ops => x.clock ≤ op.1 ∧
    (∀ t, op.2 = .arrive t → t.ptr ≠ 0 ∧ x.ledger.requests.lookup t.ptr = none) ∧
    LegalFrom cfg (x.next cfg op) ops

/-! ### Both schedulers follow the schedule -/

theorem available_poll (cfg : Config) (now : Time) (answers : Bridge.Answers) (s : State) :
    available cfg ((Op.poll answers).action cfg now s).1 = available cfg s := by
  unfold available
  cases h : cfg.fastLayerMode with
  | true => rfl
  | false =>
    simp only [Op.action, Action.seq_fst, tick, h, Bool.false_eq_true, if_false]
    exact ((Bridge.sameEngine_callBacks _ _).trans (Bridge.sameEngine_offers _ _ _)).lastDone

theorem available_take (cfg : Config) (now : Time) (s : State) :
    available cfg (takeCompleted now s).1 = available cfg s := by
  unfold takeCompleted Bridge.getCompletedCommand
  split
  · rfl
  · rename_i t bridge hget
    have hb : bridge.lastComputeDoneTime = s.bridge.lastComputeDoneTime := by
      cases hq : s.bridge.outgoingQueue with
      | nil => simp [hq] at hget
      | cons t' rest =>
        simp only [hq, Prod.mk.injEq] at hget
        rw [← hget.2]
    split <;> simp only [available] <;> split <;> simp [hb]

/-- Handing a command over: the slot it gets and where it waits. -/
theorem handOver_command {cfg : Config} {t : Payload} (ht : IsCommand cfg t) (now : Time) (s : State) :
    let start := max now (available cfg s)
    let done := start + Bridge.computeDelay t
    let r := handOver cfg now t s
    queue cfg r.1 = queue cfg s ++ [(done, t)] ∧ available cfg r.1 = done ∧
      r.2 = [.metrics (.started .pim t start Metrics.kAllChannels),
        .updateStart t.layer .pim (toCycle start)] := by
  obtain ⟨hpim, hreq⟩ := ht
  have hcommand : t.command = .pim := by simpa [Payload.isPim] using hpim
  intro start done r
  cases hfast : cfg.fastLayerMode with
  | true =>
    have hlocal : cfg.localCompute t = true := by simp [Config.localCompute, hfast, hreq hfast]
    have hr : r = ({s with
        computeBusy := true
        computeBusyCount := s.computeBusyCount + 1
        fastComputeCompletedQueue := s.fastComputeCompletedQueue ++
          [(max now s.fastComputeAvailable + ns t.address.toNat + halfNs, t)]
        fastComputeAvailable := max now s.fastComputeAvailable + ns t.address.toNat + halfNs},
        [.metrics (.started .pim t (max now s.fastComputeAvailable) Metrics.kAllChannels),
          .updateStart t.layer .pim (toCycle (max now s.fastComputeAvailable))]) := by
      show handOver cfg now t s = _
      simp only [handOver, hpim, if_true, handOverCompute, hlocal]
    rw [hr]
    simp only [queue, available, hfast, if_true, done, start, Bridge.computeDelay, add_assoc,
      and_self]
  | false =>
    have hlocal : cfg.localCompute t = false := by simp [Config.localCompute, hfast]
    have hbridge : Bridge.sendCommand cfg.memorySystem s.bridge now t = {s.bridge with
        pimComputeQueue := s.bridge.pimComputeQueue ++
          [(max now s.bridge.lastComputeDoneTime + Bridge.computeDelay t, t)]
        lastComputeStartTime := max now s.bridge.lastComputeDoneTime
        lastComputeDoneTime := max now s.bridge.lastComputeDoneTime + Bridge.computeDelay t} := by
      simp only [Bridge.sendCommand, hcommand, if_true]
    have hr : r = (handOverCompute cfg now t s) := by
      show handOver cfg now t s = _
      simp only [handOver, hpim, if_true]
    rw [hr]
    simp only [handOverCompute, hlocal, Bool.false_eq_true, if_false, hbridge, queue, available,
      hfast, done, start, and_self]

/-- Only compute commands are in the module, all of them with one scheduler. -/
structure Alone (cfg : Config) (s : State) : Prop where
  unused : if cfg.fastLayerMode then s.bridge.pimComputeQueue = []
    else s.fastComputeCompletedQueue = []
  noMemory : (∀ c, s.bridge.incomingQueue c = []) ∧ s.bridge.readDone = [] ∧ s.bridge.writeDone = []
  queued : Lib.Queued (available cfg s) (queue cfg s)

/-- Without memory traffic a tick only drains the compute queue. -/
theorem clockTick_noMemory (m : Bridge.MemorySystem) (b : Bridge.State) (now : Time)
    (answers : Bridge.Answers) (hin : ∀ c, b.incomingQueue c = []) (hr : b.readDone = [])
    (hw : b.writeDone = []) : Bridge.clockTick m b now answers = Bridge.drainCompute b now := by
  have hcalls : ∀ calls : List (Bool × UInt64), Bridge.callBacks b calls = b := by
    intro calls
    have hread : ∀ a, Bridge.readCallBack b a = b := by
      intro a
      cases b
      simp_all [Bridge.readCallBack, Bridge.callBack]
    have hwrite : ∀ a, Bridge.writeCallBack b a = b := by
      intro a
      cases b
      simp_all [Bridge.writeCallBack, Bridge.callBack]
    induction calls with
    | nil => rfl
    | cons c calls ih =>
      simp only [Bridge.callBacks, List.foldl_cons] at ih ⊢
      split
      · rw [hwrite, ih]
      · rw [hread, ih]
  have hoffers : ∀ cs : List (Fin Bridge.maxChannel), cs.foldl (Bridge.offer answers) b = b := by
    intro cs
    have hoffer : ∀ c, Bridge.offer answers b c = b := by
      intro c
      simp only [Bridge.offer, hin]
    induction cs with
    | nil => rfl
    | cons c cs ih => rw [List.foldl_cons, hoffer, ih]
  rw [Bridge.clockTick, hcalls, hoffers]

theorem completeFastComputeRequests_idle {s : State} (now : Time)
    (h : s.fastComputeCompletedQueue = []) : completeFastComputeRequests now s = (s, []) := by
  cases s
  simp_all [completeFastComputeRequests, Lib.due, Lib.notDue]

/-- What a poll amounts to for the scheduler at work. -/
theorem Alone.poll_eq {cfg : Config} {s : State} (h : Alone cfg s) (now : Time)
    (answers : Bridge.Answers) :
    (Op.poll answers).action cfg now s =
      if cfg.fastLayerMode then completeFastComputeRequests now s
      else ({s with bridge := Bridge.drainCompute s.bridge now}, []) := by
  have hunused := h.unused
  obtain ⟨hin, hr, hw⟩ := h.noMemory
  cases hfast : cfg.fastLayerMode with
  | true => simp [Op.action, Action.seq, completeFastComputeRequests, tick, hfast]
  | false =>
    simp only [hfast, Bool.false_eq_true, if_false] at hunused
    simp only [Op.action, Action.seq, completeFastComputeRequests_idle now hunused, tick, hfast,
      clockTick_noMemory _ _ _ _ hin hr hw, Bool.false_eq_true, if_false, List.append_nil]

theorem Alone.poll {cfg : Config} {s : State} (h : Alone cfg s) (now : Time)
    (answers : Bridge.Answers) : Alone cfg ((Op.poll answers).action cfg now s).1 := by
  have hfree := available_poll cfg now answers s
  have hunused := h.unused
  have hqueued := h.queued.notDue now
  rw [h.poll_eq] at hfree ⊢
  cases hfast : cfg.fastLayerMode with
  | true =>
    simp only [hfast, if_true, queue] at hfree hunused hqueued ⊢
    refine ⟨by rw [if_pos hfast]; exact hunused, h.noMemory, ?_⟩
    rw [hfree]
    simp only [queue, hfast, if_true]
    exact hqueued
  | false =>
    simp only [hfast, Bool.false_eq_true, if_false, queue] at hfree hunused hqueued ⊢
    refine ⟨by simpa only [hfast, Bool.false_eq_true, if_false] using hunused, h.noMemory, ?_⟩
    rw [hfree]
    simp only [queue, hfast, Bool.false_eq_true, if_false]
    exact hqueued

theorem Alone.take {cfg : Config} {s : State} (h : Alone cfg s) (now : Time) :
    Alone cfg (takeCompleted now s).1 := by
  have hkept : ∀ out, Alone cfg {s with bridge := {s.bridge with outgoingQueue := out}} :=
    fun _ => ⟨h.unused, h.noMemory, h.queued⟩
  unfold takeCompleted Bridge.getCompletedCommand
  cases hq : s.bridge.outgoingQueue with
  | nil => exact h
  | cons t rest =>
    have hrest := hkept rest
    dsimp only
    split <;> exact ⟨hrest.unused, hrest.noMemory, hrest.queued⟩

/-- What a hand-over leaves alone, and the completion time it writes down. -/
theorem handOver_elsewhere {cfg : Config} {t : Payload} (ht : IsCommand cfg t) (now : Time)
    (s : State) :
    let r := handOver cfg now t s
    r.1.bridge.outgoingQueue = s.bridge.outgoingQueue ∧
      r.1.bridge.incomingQueue = s.bridge.incomingQueue ∧
      r.1.bridge.readDone = s.bridge.readDone ∧ r.1.bridge.writeDone = s.bridge.writeDone ∧
      (if cfg.fastLayerMode then r.1.bridge.pimComputeQueue = s.bridge.pimComputeQueue
        else r.1.fastComputeCompletedQueue = s.fastComputeCompletedQueue) ∧
      (cfg.fastLayerMode = false → r.1.detailedComputeDoneTime = s.detailedComputeDoneTime.insert
        t.ptr (max now (available cfg s) + Bridge.computeDelay t)) := by
  obtain ⟨hpim, hreq⟩ := ht
  have hcommand : t.command = .pim := by simpa [Payload.isPim] using hpim
  simp only [handOver, hpim, if_true]
  cases hfast : cfg.fastLayerMode with
  | true =>
    have hlocal : cfg.localCompute t = true := by simp [Config.localCompute, hfast, hreq hfast]
    simp [handOverCompute, hlocal]
  | false =>
    have hlocal : cfg.localCompute t = false := by simp [Config.localCompute, hfast]
    simp [handOverCompute, hlocal, Bridge.sendCommand, hcommand, available, hfast]

theorem Alone.handOver {cfg : Config} {s : State} (h : Alone cfg s) {t : Payload}
    (ht : IsCommand cfg t) (now : Time) : Alone cfg (handOver cfg now t s).1 := by
  obtain ⟨hqueue, hfree, -⟩ := handOver_command ht now s
  obtain ⟨-, hin, hread, hwrite, hunused, -⟩ := handOver_elsewhere ht now s
  refine ⟨?_, ?_, ?_⟩
  · have hold := h.unused
    split at hold
    · rename_i hfast
      rw [if_pos hfast] at hunused ⊢
      rw [hunused, hold]
    · rename_i hfast
      rw [if_neg hfast] at hunused ⊢
      rw [hunused, hold]
  · rw [hin, hread, hwrite]
    exact h.noMemory
  · rw [hqueue, hfree]
    exact h.queued.submit ((le_max_right _ _).trans (Nat.le_add_right _ _)) t

/-- The slots so far are those of the schedule, and the engine is free when it says. -/
structure OnSchedule (cfg : Config) (x : Run) : Prop where
  slots : x.slots = Lib.schedule 0 x.sends
  free : available cfg x.wrapper = Lib.freeAt 0 x.sends
  pending : ∀ t ∈ x.wrapper.pendingQueue, IsCommand cfg t
  alone : Alone cfg x.wrapper

theorem assigned_quiet (cfg : Config) {r : State × List Effect}
    (h : ∀ e ∈ r.2, ∀ t start ch, e ≠ .metrics (.started .pim t start ch)) : assigned cfg r = [] := by
  refine List.filterMap_eq_nil_iff.mpr fun e he => ?_
  split
  · exact absurd rfl (h _ he _ _ _)
  · rfl

theorem OnSchedule.quiet {cfg : Config} {x : Run} (h : OnSchedule cfg x) {now : Time} {op : Op}
    (hsubmit : submitted now x.wrapper op = [])
    (hquiet : ∀ e ∈ (op.action cfg now x.wrapper).2, ∀ t start ch,
      e ≠ .metrics (.started .pim t start ch))
    (hfree : available cfg (op.action cfg now x.wrapper).1 = available cfg x.wrapper)
    (hpending : ∀ t ∈ (op.action cfg now x.wrapper).1.pendingQueue, IsCommand cfg t)
    (halone : Alone cfg (op.action cfg now x.wrapper).1) :
    OnSchedule cfg (x.next cfg (now, op)) := by
  refine ⟨?_, ?_, hpending, halone⟩
  · simp only [Run.next, hsubmit, assigned_quiet cfg hquiet, List.append_nil]
    exact h.slots
  · simp only [Run.next, hsubmit, List.append_nil, hfree]
    exact h.free

theorem completed_quiet (due : List (Time × Payload)) :
    ∀ e ∈ due.flatMap fun e : Time × Payload =>
        [Effect.updateEnd e.2.layer .pim (toCycle e.1), .metrics (.completed .pim e.2 e.1)],
      ∀ t start ch, e ≠ .metrics (.started .pim t start ch) := by
  intro e he t start ch
  obtain ⟨x, -, hx⟩ := List.mem_flatMap.mp he
  rcases List.mem_cons.mp hx with rfl | hx
  · simp
  · obtain rfl := List.mem_singleton.mp hx
    simp

theorem takeCompleted_frame (now : Time) (s : State) :
    (takeCompleted now s).1.pendingQueue = s.pendingQueue ∧
      ∀ e ∈ (takeCompleted now s).2, ∀ t start ch, e ≠ .metrics (.started .pim t start ch) := by
  unfold takeCompleted
  split
  · exact ⟨rfl, by simp⟩
  · split <;> exact ⟨rfl, by simp⟩

theorem handOver_pending (cfg : Config) (now : Time) (t : Payload) (s : State) :
    (handOver cfg now t s).1.pendingQueue = s.pendingQueue := by
  unfold handOver handOverCompute handOverMemory
  split
  · dsimp only
    split <;> rfl
  · dsimp only
    split <;> rfl

theorem sendHead_pending (cfg : Config) (now : Time) (s : State) :
    (sendHead cfg now s).1.pendingQueue = s.pendingQueue.tail := by
  unfold sendHead
  cases hq : s.pendingQueue with
  | nil => exact hq
  | cons t rest => exact handOver_pending cfg now t _

theorem send_nil {cfg : Config} {now : Time} {s : State} (hq : s.pendingQueue = []) :
    Op.send.action cfg now s = (s, []) := by
  simp only [Op.action, sendHead, hq]

theorem send_cons {cfg : Config} {now : Time} {s : State} {t : Payload} {rest : List Payload}
    (hq : s.pendingQueue = t :: rest) :
    Op.send.action cfg now s = handOver cfg now t {s with pendingQueue := rest} := by
  simp only [Op.action, sendHead, hq]

theorem OnSchedule.next {cfg : Config} {x : Run} (h : OnSchedule cfg x) (now : Time) (op : Op)
    (hcommand : ∀ t, op = .arrive t → IsCommand cfg t) : OnSchedule cfg (x.next cfg (now, op)) := by
  cases op with
  | arrive t =>
    refine h.quiet rfl (by simp [Op.action, peqCb]) rfl (fun t' ht' => ?_)
      ⟨h.alone.unused, h.alone.noMemory, h.alone.queued⟩
    rcases List.mem_append.mp ht' with ht' | ht'
    · exact h.pending t' ht'
    · obtain rfl := List.mem_singleton.mp ht'
      exact hcommand _ rfl
  | poll answers =>
    refine h.quiet rfl ?_ (available_poll cfg now answers x.wrapper) h.pending
      (h.alone.poll now answers)
    simp only [Op.action, Action.seq_snd, List.append_nil]
    exact completed_quiet _
  | take =>
    obtain ⟨hpending, hquiet⟩ := takeCompleted_frame now x.wrapper
    refine h.quiet rfl hquiet (available_take cfg now x.wrapper) ?_ (h.alone.take now)
    rw [Op.action, hpending]
    exact h.pending
  | send =>
    cases hq : x.wrapper.pendingQueue with
    | nil =>
      have haction : Op.send.action cfg now x.wrapper = (x.wrapper, []) := send_nil hq
      refine h.quiet (by simp [submitted, hq]) (by simp [haction]) (by rw [haction]) ?_ ?_
      · rw [haction]
        exact h.pending
      · rw [haction]
        exact h.alone
    | cons t rest =>
      have haction : Op.send.action cfg now x.wrapper =
          handOver cfg now t {x.wrapper with pendingQueue := rest} := send_cons hq
      have ht : IsCommand cfg t := h.pending t (by simp [hq])
      have hsubmit : submitted now x.wrapper .send = [(now, Bridge.computeDelay t, t)] := by
        simp [submitted, hq]
      obtain ⟨hqueue, hfree, heffects⟩ :=
        handOver_command ht now {x.wrapper with pendingQueue := rest}
      have hav : available cfg {x.wrapper with pendingQueue := rest} = Lib.freeAt 0 x.sends := h.free
      have halone : Alone cfg {x.wrapper with pendingQueue := rest} :=
        ⟨h.alone.unused, h.alone.noMemory, h.alone.queued⟩
      rw [hav] at hqueue hfree heffects
      refine ⟨?_, ?_, ?_, ?_⟩
      · simp only [Run.next, haction, hsubmit, Lib.schedule_append, Lib.schedule, h.slots]
        simp only [assigned, heffects, hqueue, List.filterMap_cons, List.getLast?_concat,
          Option.map_some, List.filterMap_nil]
      · simp only [Run.next, haction, hsubmit, Lib.freeAt_append, hfree]
      · simp only [Run.next, haction, handOver_pending]
        intro t' ht'
        exact h.pending t' (by rw [hq]; exact List.mem_cons_of_mem t ht')
      · simp only [Run.next, haction]
        exact halone.handOver ht now

theorem onSchedule_start (cfg : Config) (setup : List (Metrics.Device × UInt32 × String)) :
    OnSchedule cfg {ledger := Metrics.configured setup} := by
  have hqueue : queue cfg {} = [] := by
    unfold queue
    split <;> rfl
  refine ⟨rfl, ?_, by simp, ?_, ⟨fun _ => rfl, rfl, rfl⟩, ?_⟩
  · simp only [available]
    split <;> rfl
  · split <;> rfl
  · rw [hqueue]
    exact Lib.Queued.nil _

theorem onSchedule_run (cfg : Config) (setup : List (Metrics.Device × UInt32 × String))
    (ops : List (Time × Op)) (h : Commands cfg ops) : OnSchedule cfg (run cfg setup ops) := by
  have hfold : ∀ (ops : List (Time × Op)) (x : Run), Commands cfg ops → OnSchedule cfg x →
      OnSchedule cfg (ops.foldl (Run.next cfg) x) := by
    intro ops
    induction ops with
    | nil => exact fun _ _ hx => hx
    | cons op ops ih =>
      intro x hops hx
      obtain ⟨now, op⟩ := op
      refine ih _ (fun now t ht => hops now t (List.mem_cons_of_mem _ ht)) (hx.next now op ?_)
      rintro t rfl
      exact hops now t List.mem_cons_self
  exact hfold ops _ h (onSchedule_start cfg setup)

/-- Which scheduler is at work does not show in what is submitted when. -/
theorem sends_eq (cfg cfg' : Config) (setup : List (Metrics.Device × UInt32 × String))
    (ops : List (Time × Op)) : (run cfg setup ops).sends = (run cfg' setup ops).sends := by
  have hpending : ∀ (cfg : Config) (now : Time) (op : Op) (s s' : State),
      s.pendingQueue = s'.pendingQueue →
      (op.action cfg now s).1.pendingQueue = (op.action cfg' now s').1.pendingQueue := by
    intro cfg now op s s' hs
    cases op with
    | arrive t => exact congrArg (· ++ [t]) hs
    | poll answers => exact hs
    | take => rw [Op.action, Op.action, (takeCompleted_frame now s).1, (takeCompleted_frame now s').1, hs]
    | send => rw [Op.action, Op.action, sendHead_pending, sendHead_pending, hs]
  have hfold : ∀ (ops : List (Time × Op)) (x y : Run),
      x.wrapper.pendingQueue = y.wrapper.pendingQueue → x.sends = y.sends →
      (ops.foldl (Run.next cfg) x).sends = (ops.foldl (Run.next cfg') y).sends := by
    intro ops
    induction ops with
    | nil => exact fun _ _ _ h => h
    | cons op ops ih =>
      intro x y hq hs
      refine ih _ _ (hpending cfg op.1 op.2 _ _ hq) ?_
      have hsub : submitted op.1 x.wrapper op.2 = submitted op.1 y.wrapper op.2 := by
        cases op.2 <;> simp [submitted, hq]
      simp only [Run.next, hs, hsub]
  exact hfold ops _ _ rfl rfl

/-! ### Where the commands wait -/

/-- Where the slots given out and not yet reported are: released to the outgoing queue
of the bridge (`ready`), or with the scheduler (`waiting`). -/
structure Placed (cfg : Config) (s : State) (ready waiting : List (Lib.Slot Time Payload)) : Prop where
  queue : queue cfg s = waiting.map Lib.Slot.entry
  outgoing : s.bridge.outgoingQueue = ready.map (·.job)
  localReady : cfg.fastLayerMode = true → ready = []
  doneTimes : cfg.fastLayerMode = false → ∀ o ∈ ready ++ waiting,
    s.detailedComputeDoneTime.lookup o.job.ptr = some o.done
  commands : ∀ o ∈ ready ++ waiting, o.job.isPim = true

/-- The whole invariant of a run. -/
structure Inv (cfg : Config) (x : Run) : Prop where
  schedule : OnSchedule cfg x
  placed : ∃ reported ready waiting, x.slots = reported ++ (ready ++ waiting) ∧
    Placed cfg x.wrapper ready waiting ∧
    Metrics.Reported .pim true x.ledger x.clock reported (ready ++ waiting) x.wrapper.pendingQueue

theorem metricsCalls_completed (slots : List (Lib.Slot Time Payload)) :
    metricsCalls ((slots.map Lib.Slot.entry).flatMap fun e =>
      [.updateEnd e.2.layer .pim (toCycle e.1), .metrics (.completed .pim e.2 e.1)]) =
      slots.map fun o => .completed .pim o.job o.done := by
  rw [metricsCalls_due, List.map_map]
  rfl

theorem Inv.arrive {cfg : Config} {x : Run} (h : Inv cfg x) {now : Time} {t : Payload}
    (hnow : x.clock ≤ now) (ht : IsCommand cfg t) (hptr : t.ptr ≠ 0)
    (hl : x.ledger.requests.lookup t.ptr = none) : Inv cfg (x.next cfg (now, .arrive t)) := by
  obtain ⟨reported, ready, waiting, hslots, hplaced, hreported⟩ := h.placed
  refine ⟨h.schedule.next now _ (fun _ he => by cases he; exact ht), reported, ready, waiting, ?_, ?_, ?_⟩
  · simpa [Run.next, Op.action, peqCb, assigned] using hslots
  · exact ⟨hplaced.queue, hplaced.outgoing, hplaced.localReady, hplaced.doneTimes, hplaced.commands⟩
  · have hnext := hreported.arrive hnow 0 hptr hl
    simpa [Run.next, Op.action, peqCb, metricsCalls, Metrics.applyAll, Metrics.apply, ht.1] using hnext

/-- A step that does nothing. -/
theorem Inv.idle {cfg : Config} {x : Run} (h : Inv cfg x) {now : Time} (hnow : x.clock ≤ now)
    {op : Op} (hop : ∀ t, op ≠ .arrive t)
    (haction : op.action cfg now x.wrapper = (x.wrapper, [])) : Inv cfg (x.next cfg (now, op)) := by
  obtain ⟨reported, ready, waiting, hslots, hplaced, hreported⟩ := h.placed
  refine ⟨h.schedule.next now op fun t ht => absurd ht (hop t), reported, ready, waiting, ?_, ?_, ?_⟩
  · simpa [Run.next, haction, assigned] using hslots
  · simpa [Run.next, haction] using hplaced
  · simpa [Run.next, haction, metricsCalls, Metrics.applyAll] using hreported.later hnow

/-- A command handed over waits behind the others. -/
theorem Placed.handOver {cfg : Config} {s : State} {ready waiting : List (Lib.Slot Time Payload)}
    (h : Placed cfg s ready waiting) {t : Payload} (ht : IsCommand cfg t) (now : Time)
    (hne : ∀ o ∈ ready ++ waiting, o.job.ptr ≠ t.ptr) :
    Placed cfg (PimWrapper.handOver cfg now t s).1 ready (waiting ++
      [⟨max now (available cfg s), max now (available cfg s) + Bridge.computeDelay t, t⟩]) := by
  obtain ⟨hqueue, -, -⟩ := handOver_command ht now s
  obtain ⟨hout, -, -, -, -, hdone⟩ := handOver_elsewhere ht now s
  refine ⟨?_, hout.trans h.outgoing, h.localReady, fun hfast o ho => ?_, fun o ho => ?_⟩
  · rw [hqueue, h.queue, List.map_append]
    rfl
  · rw [hdone hfast]
    rw [← List.append_assoc] at ho
    rcases List.mem_append.mp ho with ho | ho
    · rw [AList.lookup_insert_ne (hne o ho)]
      exact h.doneTimes hfast o ho
    · obtain rfl := List.mem_singleton.mp ho
      exact AList.lookup_insert _
  · rw [← List.append_assoc] at ho
    rcases List.mem_append.mp ho with ho | ho
    · exact h.commands o ho
    · obtain rfl := List.mem_singleton.mp ho
      exact ht.1

theorem Inv.send {cfg : Config} {x : Run} (h : Inv cfg x) {now : Time} (hnow : x.clock ≤ now) :
    Inv cfg (x.next cfg (now, .send)) := by
  cases hq : x.wrapper.pendingQueue with
  | nil => exact h.idle hnow (by simp) (send_nil hq)
  | cons t rest =>
    obtain ⟨reported, ready, waiting, hslots, hplaced, hreported⟩ := h.placed
    have haction : Op.send.action cfg now x.wrapper =
        handOver cfg now t {x.wrapper with pendingQueue := rest} := send_cons hq
    have ht : IsCommand cfg t := h.schedule.pending t (by simp [hq])
    rw [hq] at hreported
    have hne : ∀ o ∈ ready ++ waiting, o.job.ptr ≠ t.ptr := by
      intro o ho he
      exact (List.nodup_append.mp hreported.nodup).2.2 _ (List.mem_map_of_mem ho) _ (by simp) he
    obtain ⟨hqueue, -, heffects⟩ :=
      handOver_command ht now {x.wrapper with pendingQueue := rest}
    have hpending := handOver_pending cfg now t {x.wrapper with pendingQueue := rest}
    have hbefore : Placed cfg {x.wrapper with pendingQueue := rest} ready waiting :=
      ⟨hplaced.queue, hplaced.outgoing, hplaced.localReady, hplaced.doneTimes, hplaced.commands⟩
    have hafter := hbefore.handOver ht now hne
    have hav : available cfg {x.wrapper with pendingQueue := rest} = available cfg x.wrapper := rfl
    rw [hav] at hqueue heffects hafter
    refine ⟨h.schedule.next now _ (fun _ he => by cases he), reported, ready, waiting ++
      [⟨max now (available cfg x.wrapper),
        max now (available cfg x.wrapper) + Bridge.computeDelay t, t⟩], ?_, ?_, ?_⟩
    · simp only [Run.next, haction, assigned, heffects, hqueue, hslots, List.filterMap_cons,
        List.getLast?_concat, Option.map_some, List.filterMap_nil, List.append_assoc]
    · simp only [Run.next, haction]
      exact hafter
    · have hnext := hreported.start (max now (available cfg x.wrapper))
        (max now (available cfg x.wrapper) + Bridge.computeDelay t)
        (hnow.trans (le_max_left _ _)) (Nat.le_add_right _ _) hnow Metrics.kAllChannels
      simp only [Run.next, haction, heffects, hpending]
      rw [← List.append_assoc]
      exact hnext

theorem Inv.poll {cfg : Config} {x : Run} (h : Inv cfg x) {now : Time} (hnow : x.clock ≤ now)
    (answers : Bridge.Answers) : Inv cfg (x.next cfg (now, .poll answers)) := by
  obtain ⟨reported, ready, waiting, hslots, hplaced, hreported⟩ := h.placed
  refine ⟨h.schedule.next now _ (fun _ he => by cases he), ?_⟩
  have hquiet : assigned cfg ((Op.poll answers).action cfg now x.wrapper) = [] := by
    refine assigned_quiet cfg ?_
    simp only [Op.action, Action.seq_snd, List.append_nil]
    exact completed_quiet _
  have haction := h.schedule.alone.poll_eq now answers
  obtain ⟨done, rest, rfl, hdue, hnotDue⟩ := Lib.due_slots now waiting
  have hqueue := hplaced.queue
  cases hfast : cfg.fastLayerMode with
  | true =>
    have hready := hplaced.localReady hfast
    subst hready
    simp only [queue, hfast, if_true] at hqueue haction
    rw [← hqueue] at hdue hnotDue
    refine ⟨reported ++ done, [], rest, ?_, ?_, ?_⟩
    · simp only [Run.next, hquiet, hslots]
      simp
    · simp only [Run.next, haction]
      refine ⟨?_, hplaced.outgoing, fun _ => rfl, ?_, ?_⟩
      · simp only [queue, hfast, if_true, completeFastComputeRequests, hnotDue]
      · intro hf
        rw [hfast] at hf
        exact absurd hf (by simp)
      · exact fun o ho => hplaced.commands o (by simp at ho ⊢; exact .inr ho)
    · simp only [Run.next, haction, completeFastComputeRequests, hdue, metricsCalls_completed]
      exact (hreported.later hnow).completeAll done
  | false =>
    simp only [queue, hfast, Bool.false_eq_true, if_false] at hqueue haction
    rw [← hqueue] at hdue hnotDue
    refine ⟨reported, ready ++ done, rest, ?_, ?_, ?_⟩
    · simp only [Run.next, hquiet, hslots]
      simp
    · simp only [Run.next, haction]
      refine ⟨?_, ?_, ?_, ?_, ?_⟩
      · simp only [queue, hfast, Bool.false_eq_true, if_false, Bridge.drainCompute, hnotDue]
      · simp only [Bridge.drainCompute, hdue, hplaced.outgoing, List.map_append, List.map_map]
        rfl
      · intro hf
        rw [hfast] at hf
        exact absurd hf (by simp)
      · rw [List.append_assoc]
        exact hplaced.doneTimes
      · rw [List.append_assoc]
        exact hplaced.commands
    · simp only [Run.next, haction, List.append_assoc]
      exact hreported.later hnow

theorem Inv.take {cfg : Config} {x : Run} (h : Inv cfg x) {now : Time} (hnow : x.clock ≤ now) :
    Inv cfg (x.next cfg (now, .take)) := by
  obtain ⟨reported, ready, waiting, hslots, hplaced, hreported⟩ := h.placed
  cases ready with
  | nil =>
    refine h.idle hnow (by simp) ?_
    have hout := hplaced.outgoing
    simp only [Op.action, takeCompleted, Bridge.getCompletedCommand, hout, List.map_nil]
  | cons o ready =>
    have hquiet : assigned cfg (Op.take.action cfg now x.wrapper) = [] :=
      assigned_quiet cfg (takeCompleted_frame now x.wrapper).2
    have hfast : cfg.fastLayerMode = false := by
      by_contra hf
      have hr := hplaced.localReady (by simpa using hf)
      exact absurd hr (by simp)
    have hcommand : o.job.command = .pim := by
      simpa [Payload.isPim] using hplaced.commands o (by simp)
    have hdone := hplaced.doneTimes hfast o (by simp)
    have haction : Op.take.action cfg now x.wrapper =
        ({x.wrapper with
          bridge := {x.wrapper.bridge with outgoingQueue := ready.map (·.job)}
          detailedComputeDoneTime := x.wrapper.detailedComputeDoneTime.erase o.job.ptr
          computeCompletedQueue := x.wrapper.computeCompletedQueue ++ [o.job]},
        [.metrics (.completed .pim o.job o.done)]) := by
      have hout := hplaced.outgoing
      simp only [Op.action, takeCompleted, Bridge.getCompletedCommand, hout, List.map_cons,
        hcommand, if_true, hdone, Option.getD_some]
    have hnd := hreported.nodup
    simp only [List.cons_append, List.map_cons, List.nodup_cons] at hnd
    refine ⟨h.schedule.next now _ (fun _ he => by cases he), reported ++ [o], ready, waiting, ?_, ?_, ?_⟩
    · simp only [Run.next, hquiet, hslots]
      simp
    · simp only [Run.next, haction]
      refine ⟨hplaced.queue, rfl, ?_, fun _ o' ho' => ?_, ?_⟩
      · intro hf
        rw [hfast] at hf
        exact absurd hf (by simp)
      · rw [AList.lookup_erase_ne]
        · exact hplaced.doneTimes hfast o' (List.mem_cons_of_mem o ho')
        · intro he
          exact hnd.1 (he ▸ List.mem_append_left _ (List.mem_map_of_mem ho'))
      · exact fun o' ho' => hplaced.commands o' (List.mem_cons_of_mem o ho')
    · simp only [Run.next, haction]
      exact (hreported.later hnow).complete

/-! ### The engine is serial -/

/-- One serial resource: the slots are those of the schedule, they follow each other,
the queue is sorted, and a poll releases exactly what is due, in order. -/
structure Serial (cfg : Config) (x : Run) : Prop where
  slots : x.slots = Lib.schedule 0 x.sends
  disjoint : x.slots.Pairwise (fun a b => a.done ≤ b.start)
  sorted : Lib.Sorted (queue cfg x.wrapper)
  poll : ∀ now answers, let s := ((Op.poll answers).action cfg now x.wrapper).1
    released cfg s = released cfg x.wrapper ++
        ((queue cfg x.wrapper).filter fun e => e.1 ≤ now).map (·.2) ∧
      queue cfg s = (queue cfg x.wrapper).filter fun e => now < e.1

/-- The ledger has recorded the first slots as they were given out, and the busy time it
reports is the sum of their lengths. -/
structure Accounted (x : Run) : Prop where
  recorded : ∃ n, x.ledger.intervals .pim true = (x.slots.take n).map Metrics.slotInterval
  busy : Metrics.intervalUnionNs (x.ledger.intervals .pim true) =
    ((x.ledger.intervals .pim true).map Metrics.Interval.length).sum

theorem OnSchedule.disjoint {cfg : Config} {x : Run} (h : OnSchedule cfg x) :
    x.slots.Pairwise (fun a b => a.done ≤ b.start) := by
  rw [h.slots]
  exact Lib.schedule_disjoint 0 x.sends

theorem OnSchedule.serial {cfg : Config} {x : Run} (h : OnSchedule cfg x) : Serial cfg x := by
  have hsorted := h.alone.queued.sorted
  refine ⟨h.slots, h.disjoint, hsorted, fun now answers => ?_⟩
  rw [← hsorted.due_eq_filter, ← hsorted.notDue_eq_filter, h.alone.poll_eq]
  cases hfast : cfg.fastLayerMode with
  | true => simp [completeFastComputeRequests, queue, released, hfast]
  | false => simp [Bridge.drainCompute, queue, released, hfast]

theorem Inv.accounted {cfg : Config} {x : Run} (h : Inv cfg x) : Accounted x := by
  obtain ⟨reported, ready, waiting, hslots, -, hreported⟩ := h.placed
  have hdisjoint := h.schedule.disjoint
  have hproper : ∀ o ∈ x.slots, o.start ≤ o.done := by
    rw [h.schedule.slots]
    exact fun o ho => (Lib.schedule_bounds 0 x.sends o ho).2.1
  have hintervals := hreported.intervals
  refine ⟨⟨reported.length, ?_⟩, Metrics.intervalUnionNs_inOrder _ ?_ ?_⟩
  · rw [hintervals, hslots, List.take_left]
  · intro i hi
    rw [hintervals] at hi
    obtain ⟨o, ho, rfl⟩ := List.mem_map.mp hi
    exact toNs_mono (hproper o (hslots ▸ List.mem_append_left _ ho))
  · rw [hintervals, Metrics.InOrder, List.pairwise_map]
    rw [hslots] at hdisjoint
    exact (List.pairwise_append.mp hdisjoint).1.imp toNs_mono

theorem Inv.next {cfg : Config} {x : Run} (h : Inv cfg x) {now : Time} {op : Op}
    (hnow : x.clock ≤ now) (hcommand : ∀ t, op = .arrive t → IsCommand cfg t)
    (hfresh : ∀ t, op = .arrive t → t.ptr ≠ 0 ∧ x.ledger.requests.lookup t.ptr = none) :
    Inv cfg (x.next cfg (now, op)) := by
  cases op with
  | arrive t => exact h.arrive hnow (hcommand t rfl) (hfresh t rfl).1 (hfresh t rfl).2
  | send => exact h.send hnow
  | poll answers => exact h.poll hnow answers
  | take => exact h.take hnow

theorem inv_start (cfg : Config) (setup : List (Metrics.Device × UInt32 × String)) :
    Inv cfg {ledger := Metrics.configured setup} := by
  have hblank := Metrics.configured_blank setup
  refine ⟨onSchedule_start cfg setup, [], [], [], rfl, ?_, ?_⟩
  · refine ⟨?_, rfl, fun _ => rfl, by simp, by simp⟩
    unfold queue
    split <;> rfl
  · refine ⟨by simp, by simp, by simp, by simp, ?_⟩
    simp [Metrics.State.intervals, hblank.traffic]

theorem inv_run {cfg : Config} (ops : List (Time × Op)) (x : Run) (hx : Inv cfg x)
    (hcommands : Commands cfg ops) (hlegal : LegalFrom cfg x ops) :
    Inv cfg (ops.foldl (Run.next cfg) x) := by
  induction ops generalizing x with
  | nil => exact hx
  | cons op ops ih =>
    obtain ⟨now, op⟩ := op
    obtain ⟨hnow, hfresh, hrest⟩ := hlegal
    refine ih _ (hx.next hnow ?_ hfresh) (fun now t ht => hcommands now t (List.mem_cons_of_mem _ ht))
      hrest
    rintro t rfl
    exact hcommands now t List.mem_cons_self

/-- **The compute engine is one serial resource**, whichever scheduler is at work. The two
schedulers give the same commands, sent at the same times, the same slots; and the
ledger accounts for them. -/
theorem engine_serial (cfg : Config) (setup : List (Metrics.Device × UInt32 × String))
    (ops : List (Time × Op)) (hcommands : Commands cfg ops) :
    Serial cfg (run cfg setup ops) ∧
      (∀ cfg', Commands cfg' ops → (run cfg' setup ops).slots = (run cfg setup ops).slots) ∧
      (LegalFrom cfg {ledger := Metrics.configured setup} ops → Accounted (run cfg setup ops)) := by
  have hschedule := onSchedule_run cfg setup ops hcommands
  refine ⟨hschedule.serial, fun cfg' h' => ?_, fun hlegal => ?_⟩
  · rw [(onSchedule_run cfg' setup ops h').slots, hschedule.slots, sends_eq cfg' cfg setup ops]
  · exact (inv_run ops _ (inv_start cfg setup) hcommands hlegal).accounted

/-- Two macros sent back to back to the local queue, polled when the first is done. -/
theorem engine_serial_two_macros :
    let cfg : Config := {
      memoryStructure := .partitioned, fastLayerMode := true, period := 1000000,
      modeChangeDelay := (0, 0), pimSyncMap := fun _ => none, hostSyncMap := fun _ => none,
      memorySystem := ⟨1, fun _ => 0⟩, estimateNs := fun _ _ => 0}
    let a : Payload := {
      ptr := 1, command := .pim, address := 3, srcId := .host, dstId := .pim, pimCmd := "macro(qkv)"}
    let b : Payload := {a with ptr := 2, address := 4, pimCmd := "macro(ffn)"}
    let x := run cfg [(.pim, 2, "logical_balanced_pim_model")]
      [(0, .arrive a), (0, .arrive b), (100, .send), (200, .send), (3600, .poll {})]
    Serial cfg x ∧ Accounted x := by
  intro cfg a b x
  obtain ⟨hserial, -, haccounted⟩ := engine_serial cfg [(.pim, 2, "logical_balanced_pim_model")]
      [(0, .arrive a), (0, .arrive b), (100, .send), (200, .send), (3600, .poll {})] (by
    intro now t ht
    simp only [List.mem_cons, Prod.mk.injEq, Op.arrive.injEq, List.not_mem_nil, or_false,
      reduceCtorEq, and_false] at ht
    rcases ht with ⟨-, rfl⟩ | ⟨-, rfl⟩
    · exact ⟨rfl, fun _ => by decide⟩
    · exact ⟨rfl, fun _ => by decide⟩)
  refine ⟨hserial, haccounted ?_⟩
  refine ⟨by decide, ?_, by decide, ?_, by decide, ?_, by decide, ?_, by decide, ?_, trivial⟩
  · rintro t ⟨⟩
    exact ⟨by decide, rfl⟩
  · rintro t ⟨⟩
    exact ⟨by decide, rfl⟩
  all_goals
    intro t ht
    exact absurd ht (by simp)

end Hsim.PimWrapper.Engine
