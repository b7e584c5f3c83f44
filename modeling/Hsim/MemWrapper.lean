import Hsim.Bridge
import Hsim.Effect

/-! The DRAM module, `MEMWrapper`.

A request is taken from the forward queue on the rising edge, handed to a back
end by the simulation thread, and answered on the falling edge. The back end is
the bridge, or, for tensor-sized requests in fast-layer mode, a local queue of
completion times. Unlike the PIM module's, this queue carries no time from which
the memory is free: a request completes its own duration after the iteration
that finds it. -/
namespace Hsim.MemWrapper

/-- What the module reads of the configuration, and the models it is linked with. -/
structure Config where
  fastLayerMode : Bool
  /-- The polling period. -/
  period : Time
  hostSyncMap : String → Option UInt32
  pimSyncMap : String → Option UInt32
  memorySystem : Bridge.MemorySystem
  /-- `fast_dram_model->estimate_ns`. -/
  estimateNs : Command → UInt64 → UInt64

/-- Where the simulation thread is. -/
inductive Thread where
  /-- Until `wake` or, if `onEvent`, an earlier event. -/
  | waiting (wake : Time) (onEvent : Bool)
  | exited
  /-- Ended by an exception. -/
  | failed
  deriving DecidableEq, Repr

structure State where
  thread : Thread := .waiting 0 false
  fwQueue : List Payload := []
  bwQueue : List Payload := []
  memRequest : List Payload := []
  fastMemoryCompletedQueue : List (Time × Payload) := []
  outstanding : UInt32 := 0
  wackNum : UInt32 := 0
  bridge : Bridge.State := {}

/-- What the thread reads of the rest of the system during an iteration. -/
structure Env where
  active : Bool := true
  answers : Bridge.Answers := {}

/-- The completion is reported at the time of the poll. -/
def completeFastMemoryRequests (now : Time) : Action State := fun s =>
  let done := Lib.due now s.fastMemoryCompletedQueue
  ({s with
      bwQueue := s.bwQueue ++ done.map (·.2)
      fastMemoryCompletedQueue := Lib.notDue now s.fastMemoryCompletedQueue},
    done.flatMap fun e =>
      [.updateEnd e.2.layer .dram (toCycle now), .metrics (.completed .dram e.2 now)])

/-- The layers whose sync id is signalled to the DRAM object too. -/
def dramSyncLayers : List String :=
  ["D_V0", "D_V2", "D_V4", "D_V6", "D_V8", "D_V10", "D_V12", "D_V14"]

def signalSync (map : String → Option UInt32) (layer : String) : List Effect :=
  match map layer with
  | some id => (if layer ∈ dramSyncLayers then [.dramSignal id] else []) ++ [.pimSignal id]
  | none => []

def completeWriteRequest (cfg : Config) (now : Time) (t : Payload) : List Effect :=
  let map := if t.pimCmd = "addertree" then cfg.pimSyncMap else cfg.hostSyncMap
  (if t.last then
    signalSync map t.layer ++
      if t.srcId = .host ∨ t.srcId = .mcu then [.updateEnd t.layer t.srcId (toCycle now)] else []
  else []) ++ [.release t]

/-- A write of a host burst. The last acknowledgement signals the burst's layer, which
has to be in the host's map. -/
def acknowledgeHostWrite (cfg : Config) (now : Time) (t : Payload) : Action State := fun s =>
  let wackNum := s.wackNum + 1
  if wackNum = t.bstSize then
    match cfg.hostSyncMap t.layer with
    | some id => ({s with wackNum := 0, outstanding := s.outstanding - 1},
        [.dramSignal id, .updateEnd t.layer .host (toCycle now), .release t])
    | none => ({s with wackNum := 0, thread := .failed},
        [.throw "[DRAM][ERROR] Address not found in map."])
  else ({s with wackNum := wackNum, outstanding := s.outstanding - 1}, [.release t])

/-- At most one transaction is collected from the bridge in an iteration. -/
def takeCompleted (cfg : Config) (now : Time) : Action State := fun s =>
  match Bridge.getCompletedCommand s.bridge with
  | (none, _) => (s, [])
  | (some t, bridge) =>
    let s := {s with bridge := bridge}
    let completed : Effect := .metrics (.completed .dram t now)
    if t.command = .read then ({s with bwQueue := s.bwQueue ++ [t]}, [completed])
    else if t.command = .write then
      if t.srcId = .host ∧ t.pimCmd = "addertree" then
        ({s with outstanding := s.outstanding - 1}, completed :: completeWriteRequest cfg now t)
      else if t.srcId = .host then
        let r := acknowledgeHostWrite cfg now t s
        (r.1, completed :: r.2)
      else if t.srcId = .npu then ({s with bwQueue := s.bwQueue ++ [t]}, [completed])
      else (s, [completed])
    else (s, [])

/-- A tensor-sized request that stays in the module. -/
def Config.localRequest (cfg : Config) (t : Payload) : Bool := cfg.fastLayerMode && t.isMacroRequest

/-- How long a tensor-sized request is served. -/
def Config.duration (cfg : Config) (t : Payload) : Time :=
  ns (cfg.estimateNs t.command t.macroBytes).toNat

/-- One turn of the loop that empties `mem_request`. -/
def sendRequest (cfg : Config) (now : Time) (t : Payload) : Action State := fun s =>
  let s := {s with outstanding := s.outstanding + 1}
  if cfg.localRequest t then
    ({s with fastMemoryCompletedQueue :=
        s.fastMemoryCompletedQueue ++ [(now + cfg.duration t, t)]},
      [.updateStart t.layer .dram (toCycle now),
        .metrics (.started .dram t now Metrics.kAllChannels)])
  else
    ({s with bridge := Bridge.sendCommand cfg.memorySystem s.bridge now t},
      [.metrics (.started .dram t now (cfg.memorySystem.getChannel t.address).val)])

def sendRequests (cfg : Config) (now : Time) : Action State := fun s =>
  s.memRequest.foldl (fun r t => let r' := sendRequest cfg now t r.1; (r'.1, r.2 ++ r'.2))
    ({s with memRequest := []}, [])

/-- What holds of the requests left and of what was done before each turn of the
loop holds at its end, with none left. -/
theorem sendRequests_rule (cfg : Config) (now : Time) (s : State)
    (P : List Payload → State → List Effect → Prop) (start : P s.memRequest {s with memRequest := []} [])
    (turn : ∀ t rest s effects, P (t :: rest) s effects →
      P rest (sendRequest cfg now t s).1 (effects ++ (sendRequest cfg now t s).2)) :
    P [] (sendRequests cfg now s).1 (sendRequests cfg now s).2 := by
  have hall : ∀ (requests : List Payload) (r : State × List Effect), P requests r.1 r.2 →
      let r' := requests.foldl (fun r t => let r' := sendRequest cfg now t r.1; (r'.1, r.2 ++ r'.2)) r
      P [] r'.1 r'.2 := by
    intro requests
    induction requests with
    | nil => exact fun _ hr => hr
    | cons t rest ih => exact fun r hr => ih _ (turn t rest r.1 r.2 hr)
  exact hall s.memRequest _ start

/-- The bridge is ticked only outside fast-layer mode. -/
def tick (cfg : Config) (env : Env) (now : Time) (s : State) : State :=
  {s with bridge :=
    if cfg.fastLayerMode then s.bridge
    else Bridge.clockTick cfg.memorySystem s.bridge now env.answers}

/-- From the tick to the wait at the end of the loop body. -/
def finishIteration (cfg : Config) (env : Env) (now : Time) : Action State := fun s =>
  let s := tick cfg env now s
  if !env.active && s.outstanding == 0 then ({s with thread := .exited}, [.stopDram])
  else
    match s.fastMemoryCompletedQueue with
    | e :: _ =>
      if cfg.fastLayerMode && s.memRequest.isEmpty then ({s with thread := .waiting e.1 true}, [])
      else ({s with thread := .waiting (now + cfg.period) false}, [])
    | [] => ({s with thread := .waiting (now + cfg.period) false}, [])

/-- One iteration of `simulate_dram`. -/
def iterate (cfg : Config) (env : Env) (now : Time) : Action State :=
  (completeFastMemoryRequests now).seq <| (takeCompleted cfg now).seq fun s =>
    if s.thread = .failed then (s, [])
    else (sendRequests cfg now).seq (finishIteration cfg env now) s

def clockPosedge (s : State) : State :=
  match s.fwQueue with
  | [] => s
  | t :: rest => {s with fwQueue := rest, memRequest := s.memRequest ++ [t]}

def clockNegedge : Action State := fun s =>
  match s.bwQueue with
  | [] => (s, [])
  | t :: rest => ({s with bwQueue := rest, outstanding := s.outstanding - 1}, [.respond t 0])

/-- Delivery of a transaction to the module. -/
def peqCb (now : Time) (t : Payload) : Action State := fun s =>
  ({s with fwQueue := s.fwQueue ++ [t]}, [.metrics (.arrived .dram t t.chargedBytes false now)])

end Hsim.MemWrapper
