import Hsim.Bridge
import Hsim.Effect

/-! The PIM memory module, `PIMWrapper`.

One thread moves transactions from the pending queue to a back end and collects
what is finished; two clock methods answer the collected ones, memory traffic on
the rising edge and compute commands on the falling edge. The back end of a
transaction is the bridge, or, for tensor-sized requests in fast-layer mode, one
of two local queues with known completion times.

With a unified memory the array serves one kind of traffic at a time. The thread
looks at the busy flag of the other kind before it takes the head of the queue,
then waits out the mode change, and only then raises its own flag; the wait is
where other processes run in between. -/
namespace Hsim.PimWrapper

/-- `memory_structure`. The baseline has no PIM thread. -/
inductive MemoryStructure where
  | baseline
  | partitioned
  | unified
  deriving DecidableEq, Repr

inductive PimMode where
  | compute
  | memory
  deriving DecidableEq, Repr

/-- What the module reads of the configuration, and the models it is linked with. -/
structure Config where
  memoryStructure : MemoryStructure
  fastLayerMode : Bool
  /-- The polling period. -/
  period : Time
  /-- Nanoseconds to enter memory mode and compute mode. -/
  modeChangeDelay : UInt32 × UInt32
  pimSyncMap : String → Option UInt32
  hostSyncMap : String → Option UInt32
  memorySystem : Bridge.MemorySystem
  /-- `fast_dram_model->estimate_ns`. -/
  estimateNs : Command → UInt64 → UInt64

/-- Where the simulation thread is. -/
inductive Thread where
  /-- At the end of an iteration, until `wake` or, if `onEvent`, an earlier event. -/
  | waiting (wake : Time) (onEvent : Bool)
  /-- Inside `process_mode_transition`, with the transaction it is about to hand over. -/
  | switching (trans : Payload) (wake : Time)
  | exited
  deriving DecidableEq, Repr

structure State where
  thread : Thread := .waiting 0 false
  pimMode : PimMode := .memory
  memoryBusy : Bool := false
  computeBusy : Bool := false
  memoryBusyCount : UInt32 := 0
  computeBusyCount : UInt32 := 0
  pendingQueue : List Payload := []
  memoryCompletedQueue : List Payload := []
  computeCompletedQueue : List Payload := []
  fastMemoryCompletedQueue : List (Time × Payload) := []
  fastComputeCompletedQueue : List (Time × Payload) := []
  fastComputeAvailable : Time := 0
  fastMemoryAvailable : Time := 0
  detailedComputeDoneTime : AList (fun _ : Nat => Time) := ∅
  contentionWaitStart : AList (fun _ : Nat => Time) := ∅
  targetMemoryWaitCount : UInt64 := 0
  draftComputeWaitCount : UInt64 := 0
  bridge : Bridge.State := {}

/-- What the thread reads of the rest of the system during an iteration: whether the
host or a core is still active, and the memory system's answers to the tick. -/
structure Env where
  active : Bool := true
  answers : Bridge.Answers := {}

/-! ### Completion -/

def completeFastMemoryRequests (now : Time) : Action State := fun s =>
  let done := Lib.due now s.fastMemoryCompletedQueue
  ({s with
      memoryCompletedQueue := s.memoryCompletedQueue ++ done.map (·.2)
      fastMemoryCompletedQueue := Lib.notDue now s.fastMemoryCompletedQueue},
    done.flatMap fun e =>
      [.updateEnd e.2.layer .pim (toCycle e.1), .metrics (.completed .pim e.2 e.1)])

def completeFastComputeRequests (now : Time) : Action State := fun s =>
  let done := Lib.due now s.fastComputeCompletedQueue
  ({s with
      computeCompletedQueue := s.computeCompletedQueue ++ done.map (·.2)
      fastComputeCompletedQueue := Lib.notDue now s.fastComputeCompletedQueue},
    done.flatMap fun e =>
      [.updateEnd e.2.layer .pim (toCycle e.1), .metrics (.completed .pim e.2 e.1)])

/-- At most one transaction is collected from the bridge in an iteration. -/
def takeCompleted (now : Time) : Action State := fun s =>
  match Bridge.getCompletedCommand s.bridge with
  | (none, _) => (s, [])
  | (some t, bridge) =>
    if t.command = .pim then
      let finish := (s.detailedComputeDoneTime.lookup t.ptr).getD now
      ({s with
          bridge := bridge
          detailedComputeDoneTime := s.detailedComputeDoneTime.erase t.ptr
          computeCompletedQueue := s.computeCompletedQueue ++ [t]},
        [.metrics (.completed .pim t finish)])
    else
      ({s with
          bridge := bridge
          memoryCompletedQueue := s.memoryCompletedQueue ++ [t]},
        [.metrics (.completed .pim t now)])

/-! ### Hand-over -/

/-- The mode in which a transaction is served. -/
def targetMode (t : Payload) : PimMode := if t.isPim then .compute else .memory

/-- `process` negated: the array still serves the other kind. -/
def headBlocked (s : State) (t : Payload) : Bool :=
  if t.isPim then s.memoryBusy else s.computeBusy

def finishContentionWait (now : Time) (t : Payload) : Action State := fun s =>
  match s.contentionWaitStart.lookup t.ptr with
  | none => (s, [])
  | some start =>
    let s := {s with contentionWaitStart := s.contentionWaitStart.erase t.ptr}
    if now ≤ start then (s, [])
    else if t.isPim then
      let layer := "unified_contention.draft_compute_wait." ++ toString s.draftComputeWaitCount
      ({s with draftComputeWaitCount := s.draftComputeWaitCount + 1},
        [.updateStart layer .pim (toCycle start), .updateEnd layer .pim (toCycle now),
          .metrics (.stall start now true)])
    else if t.srcId = .npu then
      let layer := "unified_contention.target_memory_wait." ++ toString s.targetMemoryWaitCount
      ({s with targetMemoryWaitCount := s.targetMemoryWaitCount + 1},
        [.updateStart layer .pim (toCycle start), .updateEnd layer .pim (toCycle now),
          .metrics (.stall start now false)])
    else (s, [])

/-- A compute command goes to the local queue only as a macro in fast-layer mode. -/
def Config.localCompute (cfg : Config) (t : Payload) : Bool :=
  cfg.fastLayerMode && startsWith t.pimCmd "macro("

/-- `send_transaction` for a compute command, after the mode transition. -/
def handOverCompute (cfg : Config) (now : Time) (t : Payload) : Action State := fun s =>
  let s := {s with computeBusy := true, computeBusyCount := s.computeBusyCount + 1}
  if cfg.localCompute t then
    let actualStart := max now s.fastComputeAvailable
    let doneTime := actualStart + ns t.address.toNat + halfNs
    ({s with
        fastComputeCompletedQueue := s.fastComputeCompletedQueue ++ [(doneTime, t)]
        fastComputeAvailable := doneTime},
      [.metrics (.started .pim t actualStart Metrics.kAllChannels),
        .updateStart t.layer .pim (toCycle actualStart)])
  else
    let bridge := Bridge.sendCommand cfg.memorySystem s.bridge now t
    let actualStart := bridge.lastComputeStartTime
    ({s with
        bridge := bridge
        detailedComputeDoneTime :=
          s.detailedComputeDoneTime.insert t.ptr bridge.lastComputeDoneTime},
      [.metrics (.started .pim t actualStart Metrics.kAllChannels),
        .updateStart t.layer .pim (toCycle actualStart)])

/-- `send_transaction` for memory traffic, after the mode transition. -/
def handOverMemory (cfg : Config) (now : Time) (t : Payload) : Action State := fun s =>
  let s := {s with memoryBusy := true, memoryBusyCount := s.memoryBusyCount + 1}
  if t.pimCmd = "fast_memory" then
    let durationNs := cfg.estimateNs t.command t.macroBytes
    let actualStart := max now s.fastMemoryAvailable
    let doneTime := actualStart + ns durationNs.toNat
    ({s with
        fastMemoryAvailable := doneTime
        fastMemoryCompletedQueue := s.fastMemoryCompletedQueue ++ [(doneTime, t)]},
      [.updateStart t.layer .pim (toCycle actualStart),
        .metrics (.started .pim t actualStart Metrics.kAllChannels)])
  else
    ({s with bridge := Bridge.sendCommand cfg.memorySystem s.bridge now t},
      [.metrics (.started .pim t now (cfg.memorySystem.getChannel t.address).val)])

def handOver (cfg : Config) (now : Time) (t : Payload) : Action State :=
  if t.isPim then handOverCompute cfg now t else handOverMemory cfg now t

/-! ### The simulation thread -/

/-- When a sleeping thread has to look again: in a millisecond, or at the first
completion of a local queue. -/
def nextWake (now : Time) (s : State) : Time :=
  let next := now + ns 1000000
  let next := match s.fastMemoryCompletedQueue with
    | [] => next
    | e :: _ => min next e.1
  match s.fastComputeCompletedQueue with
  | [] => next
  | e :: _ => min next e.1

/-- The bridge is ticked only outside fast-layer mode. -/
def tick (cfg : Config) (env : Env) (now : Time) (s : State) : State :=
  {s with bridge :=
    if cfg.fastLayerMode then s.bridge
    else Bridge.clockTick cfg.memorySystem s.bridge now env.answers}

/-- From the tick to the wait at the end of the loop body. -/
def finishIteration (cfg : Config) (env : Env) (now : Time) (blockedFastRequest : Bool) :
    Action State := fun s =>
  let s := tick cfg env now s
  if env.active then
    if cfg.fastLayerMode && (s.pendingQueue.isEmpty || blockedFastRequest) then
      ({s with thread := .waiting (nextWake now s) true}, [])
    else ({s with thread := .waiting (now + cfg.period) false}, [])
  else ({s with thread := .exited}, [.stopDram])

/-- `send_transaction` and the rest of the loop body. A mode change suspends the thread
before anything is sent. -/
def sendTransaction (cfg : Config) (env : Env) (now : Time) (t : Payload) : Action State := fun s =>
  if s.pimMode = targetMode t then
    (handOver cfg now t).seq (finishIteration cfg env now false) s
  else
    let delay := if t.isPim then cfg.modeChangeDelay.2 else cfg.modeChangeDelay.1
    ({s with thread := .switching t (now + ns delay.toNat)}, [])

/-- The head of the pending queue, as `simulate_partitioned_pim` treats it. -/
def processPartitioned (cfg : Config) (env : Env) (now : Time) : Action State := fun s =>
  match s.pendingQueue with
  | [] => finishIteration cfg env now false s
  | t :: rest => sendTransaction cfg env now t {s with pendingQueue := rest}

/-- `contention_wait_start.try_emplace(trans, sc_time_stamp())`. -/
def noteContention (now : Time) (t : Payload) (s : State) : State :=
  if (s.contentionWaitStart.lookup t.ptr).isSome then s
  else {s with contentionWaitStart := s.contentionWaitStart.insert t.ptr now}

/-- The head of the pending queue, as `simulate_unified_pim` treats it. -/
def processUnified (cfg : Config) (env : Env) (now : Time) : Action State := fun s =>
  match s.pendingQueue with
  | [] => finishIteration cfg env now false s
  | t :: rest =>
    if headBlocked s t then
      finishIteration cfg env now cfg.fastLayerMode (noteContention now t s)
    else
      (finishContentionWait now t).seq (sendTransaction cfg env now t) {s with pendingQueue := rest}

/-- The part of the loop body that moves finished transactions to the completion queues. -/
def collect (now : Time) : Action State :=
  (completeFastMemoryRequests now).seq <| (completeFastComputeRequests now).seq (takeCompleted now)

/-- From the head of the pending queue to the first wait. -/
def process (cfg : Config) (env : Env) (now : Time) : Action State :=
  match cfg.memoryStructure with
  | .unified => processUnified cfg env now
  | _ => processPartitioned cfg env now

/-- One iteration of `simulate_partitioned_pim` or `simulate_unified_pim`, up to its
first wait. -/
def iterate (cfg : Config) (env : Env) (now : Time) : Action State :=
  (collect now).seq (process cfg env now)

/-- The end of `process_mode_transition` and what follows it. -/
def resume (cfg : Config) (env : Env) (now : Time) (t : Payload) : Action State := fun s =>
  (handOver cfg now t).seq (finishIteration cfg env now false) {s with pimMode := targetMode t}

/-! ### The clock methods -/

def signalSync (map : String → Option UInt32) (layer : String) : List Effect :=
  match map layer with
  | some id => [.pimSignal id]
  | none => []

/-- `complete_write_request`. -/
def completeWriteRequest (cfg : Config) (now : Time) (t : Payload) : List Effect :=
  let map := if t.pimCmd = "addertree" then cfg.pimSyncMap else cfg.hostSyncMap
  (if t.last then
    signalSync map t.layer ++
      if t.srcId = .host ∨ t.srcId = .mcu then [.updateEnd t.layer t.srcId (toCycle now)] else []
  else []) ++ [.release t]

def clockPosedge (cfg : Config) (now : Time) : Action State := fun s =>
  match s.memoryCompletedQueue with
  | [] => (s, [])
  | t :: rest =>
    let effects :=
      if t.command = .read ∨ t.srcId = .npu then
        [.respond t (if t.srcId = .mcu then 1 else 0)]
      else if t.command = .write then completeWriteRequest cfg now t
      else []
    let count := s.memoryBusyCount - 1
    ({s with
        memoryCompletedQueue := rest
        memoryBusyCount := count
        memoryBusy := if count = 0 then false else s.memoryBusy},
      effects)

def isDraft (layer : String) : Bool := startsWith layer "draft_pim."

/-- `layer.find("RoPE") != npos || layer == "Mul1"`. -/
def endsComputation (layer : String) : Bool :=
  (findFrom layer.toList "RoPE".toList 0).isSome || layer == "Mul1"

/-- What the falling edge announces for the last command of a stage. -/
def announceLast (cfg : Config) (now : Time) (t : Payload) : List Effect :=
  (if isDraft t.layer then [.metrics (.pimEpisode (episodeIdFromLayer t.layer) now)] else []) ++
  (if endsComputation t.layer then
    (if t.srcId = .host ∨ t.srcId = .mcu then [.updateEnd t.layer t.srcId (toCycle now)] else []) ++
      [.pimComputeDone]
  else []) ++
  (if isDraft t.layer then []
  else signalSync cfg.pimSyncMap t.layer ++ [.updateEnd t.layer .pim (toCycle now)]) ++
  [.pimTraceDone]

def clockNegedge (cfg : Config) (now : Time) : Action State := fun s =>
  match s.computeCompletedQueue with
  | [] => (s, [])
  | t :: rest =>
    let effects :=
      (if isDraft t.layer && !cfg.fastLayerMode then [.updateEnd t.layer .pim (toCycle now)]
      else []) ++ (if t.last then announceLast cfg now t else [])
    let count := s.computeBusyCount - 1
    ({s with
        computeCompletedQueue := rest
        computeBusyCount := count
        computeBusy := if count = 0 then false else s.computeBusy},
      effects)

/-- Delivery of a transaction to the module. -/
def peqCb (now : Time) (t : Payload) : Action State := fun s =>
  ({s with pendingQueue := s.pendingQueue ++ [t]},
    [.metrics (.arrived .pim t (if t.isPim then 0 else t.chargedBytes) t.isPim now)])

/-! ### What an iteration can do -/

/-- The completions reported for the entries of a local queue. -/
theorem metricsCalls_due (queue : List (Time × Payload)) :
    metricsCalls (queue.flatMap fun e =>
      [.updateEnd e.2.layer .pim (toCycle e.1), .metrics (.completed .pim e.2 e.1)]) =
      queue.map fun e => .completed .pim e.2 e.1 := by
  induction queue with
  | nil => rfl
  | cons e queue ih => exact congrArg (Metrics.Call.completed .pim e.2 e.1 :: ·) ih

/-- The end of the loop body ticks and leaves the thread at a wait or outside the loop. -/
theorem finishIteration_spec (cfg : Config) (env : Env) (now : Time) (blocked : Bool) (s : State) :
    ∃ thread, (∀ t wake, thread ≠ .switching t wake) ∧
      (finishIteration cfg env now blocked s).1 = {tick cfg env now s with thread := thread} ∧
      (finishIteration cfg env now blocked s).2 = if env.active then [] else [.stopDram] := by
  unfold finishIteration
  cases env.active with
  | false => exact ⟨.exited, by simp, rfl, rfl⟩
  | true =>
    dsimp only
    split
    · split
      · exact ⟨_, by simp, rfl, rfl⟩
      · exact ⟨_, by simp, rfl, rfl⟩
    · contradiction

/-- The effects of ending a contention wait: none, or one stall in log and ledger. -/
def ContentionEffects (effects : List Effect) : Prop :=
  effects = [] ∨ ∃ layer start finish draft, effects =
    [.updateStart layer .pim (toCycle start), .updateEnd layer .pim (toCycle finish),
      .metrics (.stall start finish draft)]

/-- Taking a transaction off the pending queue touches only the contention records. -/
def Dequeued (s s' : State) (rest : List Payload) : Prop :=
  ∃ waits target draft, s' = {s with
    pendingQueue := rest
    contentionWaitStart := waits
    targetMemoryWaitCount := target
    draftComputeWaitCount := draft}

theorem finishContentionWait_spec (now : Time) (t : Payload) (s : State) :
    Dequeued s (finishContentionWait now t s).1 s.pendingQueue ∧
      ContentionEffects (finishContentionWait now t s).2 := by
  unfold finishContentionWait
  split
  · exact ⟨⟨_, _, _, rfl⟩, .inl rfl⟩
  · rename_i start _
    dsimp only
    split
    · exact ⟨⟨_, _, _, rfl⟩, .inl rfl⟩
    · split
      · exact ⟨⟨_, _, _, rfl⟩, .inr ⟨_, start, now, true, rfl⟩⟩
      · split
        · exact ⟨⟨_, _, _, rfl⟩, .inr ⟨_, start, now, false, rfl⟩⟩
        · exact ⟨⟨_, _, _, rfl⟩, .inl rfl⟩

/-- The head of the queue is left alone, found blocked, or taken and sent. -/
theorem process_cases (cfg : Config) (env : Env) (now : Time) (s : State) :
    (s.pendingQueue = [] ∧ process cfg env now s = finishIteration cfg env now false s) ∨
    (∃ t rest, s.pendingQueue = t :: rest ∧ cfg.memoryStructure = .unified ∧
      headBlocked s t = true ∧ process cfg env now s =
        finishIteration cfg env now cfg.fastLayerMode (noteContention now t s)) ∨
    (∃ t rest s₀ effects, s.pendingQueue = t :: rest ∧
      (cfg.memoryStructure = .unified → headBlocked s t = false) ∧ Dequeued s s₀ rest ∧
      ContentionEffects effects ∧ process cfg env now s =
        ((sendTransaction cfg env now t s₀).1, effects ++ (sendTransaction cfg env now t s₀).2)) := by
  by_cases hc : cfg.memoryStructure = .unified
  · have hp : process cfg env now s = processUnified cfg env now s := by simp only [process, hc]
    rw [hp, processUnified]
    cases hq : s.pendingQueue with
    | nil => exact .inl ⟨rfl, rfl⟩
    | cons t rest =>
      right
      dsimp only
      cases hb : headBlocked s t with
      | true => exact .inl ⟨t, rest, rfl, hc, hb, rfl⟩
      | false =>
        obtain ⟨⟨waits, target, draft, hs₀⟩, heffects⟩ :=
          finishContentionWait_spec now t {s with pendingQueue := rest}
        exact .inr ⟨t, rest, _, _, rfl, fun _ => hb, ⟨waits, target, draft, hs₀⟩, heffects, rfl⟩
  · have hp : process cfg env now s = processPartitioned cfg env now s := by
      cases hm : cfg.memoryStructure with
      | unified => exact absurd hm hc
      | baseline => simp only [process, hm]
      | partitioned => simp only [process, hm]
    rw [hp, processPartitioned]
    cases hq : s.pendingQueue with
    | nil => exact .inl ⟨rfl, rfl⟩
    | cons t rest =>
      exact .inr (.inr ⟨t, rest, {s with pendingQueue := rest}, [], rfl, fun h => absurd h hc,
        ⟨_, _, _, rfl⟩, .inl rfl, rfl⟩)

end Hsim.PimWrapper
