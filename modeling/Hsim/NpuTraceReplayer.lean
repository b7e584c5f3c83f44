import Hsim.Configurations

/-! The synthetic NPU, `NPUTraceReplayer`.

A launch carries three token counts. The replay then walks the decoder layers of
the target model: for each operation the weights and, for `qkt`, the key/value
cache are read, the operation computes, and `v_proj` writes its new cache
entries; the layer's output is written last. The detailed replay splits every
transfer into requests of the DRAM's size; the fast one sends a tensor-sized
request, of one layer or of all of them at once.

The replay thread waits inside a transfer and inside a computation, and what it
does next depends on nothing it waits for. So a run is a list of segments, known
at its start, and the thread's state is what is left of it. -/
namespace Hsim.NpuTraceReplayer

/-- The counts and the episode of the run, as `peq_fw_cb` sets them. -/
structure Launch where
  episodeId : String := ""
  contextTokens : UInt32 := 1
  queryTokens : UInt32 := 1
  kvWriteTokens : UInt32 := 1
  deriving DecidableEq, Repr

def Launch.ofPayload (t : Payload) : Launch where
  episodeId := episodeIdFromLayer t.layer
  contextTokens := max 1 t.dataLength
  queryTokens := max 1 t.bstSize
  kvWriteTokens := max 1 t.address.toUInt32

structure Config where
  profile : SyntheticNPUInfo
  layerProfile : ModelLayerProfile
  dramReqBytes : UInt32
  /-- `cfgs.dram_enabled() ? DRAM : PIM`. -/
  memory : DeviceType
  /-- `operation_compute_ns` of the analytical model, a `long double` formula of the
  launch and the operation's MAC counts. -/
  operationComputeNs : Launch → ModelOperationInfo → UInt64
  /-- The payload `m_mm.allocate` hands out for the n-th request. -/
  allocate : Nat → Nat := id

/-- Which data of an operation a transfer moves. -/
inductive TensorKind where
  | weight
  | kvRead
  | kvWrite
  | output
  deriving DecidableEq, Repr

/-- A piece of a run. A transfer names the operation's position in the layer and
holds the requests it issues, which are none where the source returns early. -/
inductive Segment where
  | layerStart (layer : String)
  | transfer (op : Nat) (kind : TensorKind) (command : Command) (bytes : UInt64) (layer : String)
      (requests : List Payload)
  | compute (op : Nat) (ns : UInt64)
  | layerEnd (layer : String) (compute : UInt64)
  /-- Integer division by zero. -/
  | trap
  /-- The end of the run: the episode completes and `npu_trace_done_ev` is notified. -/
  | finish
  deriving DecidableEq, Repr

/-! ### Requests -/

/-- The request the replay sends, but for its identity and its address. -/
def Config.request (cfg : Config) (command : Command) (layer : String) (dataLength bstId bstSize : UInt32)
    (pimCmd : String) : Payload where
  ptr := 0
  command := command
  dataLength := dataLength
  bstSize := bstSize
  bstId := bstId
  srcId := .npu
  dstId := cfg.memory
  layer := layer
  pimCmd := pimCmd

def Config.requestBytes (cfg : Config) : UInt32 := max 1 cfg.dramReqBytes

/-- The loop of `issue_memory`. A turn takes at least one byte off `remaining`, so the
byte count bounds the turns. -/
def Config.splitRequests (cfg : Config) (command : Command) (layer : String) (burstSize : UInt32) :
    Nat → UInt32 → UInt32 → List Payload
  | 0, _, _ => []
  | turns + 1, remaining, burstId =>
    if remaining = 0 then []
    else
      let payloadBytes := min remaining cfg.requestBytes
      cfg.request command layer payloadBytes burstId burstSize "" ::
        cfg.splitRequests command layer burstSize turns (remaining - payloadBytes) (burstId + 1)

/-- `issue_memory`. The sum that rounds the burst size up is a 32-bit one. -/
def Config.issueMemory (cfg : Config) (command : Command) (bytes : UInt32) (layer : String) :
    List Payload :=
  let burstSize := (bytes + cfg.requestBytes - 1) / cfg.requestBytes
  if burstSize = 0 then []
  else cfg.splitRequests command layer burstSize bytes.toNat bytes 0

/-- `issue_fast_memory`. -/
def Config.issueFastMemory (cfg : Config) (command : Command) (bytes : UInt64) (layer : String) :
    List Payload :=
  if bytes = 0 then []
  else [cfg.request command layer (lowWord bytes) 0 (highWord bytes) "fast_memory"]

/-! ### The walk over the layers -/

/-- What the two branches of `replay_trace` do differently. -/
structure Mode where
  /-- `layer_multiplier`. -/
  multiplier : UInt32
  issue : Command → UInt64 → String → List Payload
  /-- Whether an operation that takes no time is passed over. -/
  skipsZeroCompute : Bool

/-- Byte counts are narrowed to 32 bits on the way into `issue_memory`. -/
def Config.detailed (cfg : Config) : Mode where
  multiplier := 1
  issue := fun command bytes layer => cfg.issueMemory command bytes.toUInt32 layer
  skipsZeroCompute := true

def Config.fast (cfg : Config) (multiplier : UInt32) : Mode where
  multiplier := multiplier
  issue := cfg.issueFastMemory
  skipsZeroCompute := false

namespace Mode

def transfer (m : Mode) (op : Nat) (kind : TensorKind) (command : Command) (bytes : UInt64)
    (layer : String) : Segment :=
  let total := bytes * m.multiplier.toUInt64
  .transfer op kind command total layer (m.issue command total layer)

def compute (m : Mode) (op : Nat) (ns : UInt64) : List Segment :=
  let total := ns * m.multiplier.toUInt64
  if m.skipsZeroCompute ∧ total = 0 then [] else [.compute op total]

end Mode

/-- The sum of the shares, in 32 bits. -/
def Config.totalComputeShare (cfg : Config) : UInt32 :=
  (cfg.layerProfile.operations.map (·.computeShare)).sum

/-- The time one operation of one layer computes, `none` for a division by zero. The
last operation takes what the others have left. -/
def Config.perLayerCompute (cfg : Config) (l : Launch) (isLast : Bool) (assigned : UInt64)
    (op : ModelOperationInfo) : Option UInt64 :=
  if cfg.profile.analyticalComputeEnabled then some (cfg.operationComputeNs l op)
  else if isLast then some (cfg.profile.computeNsPerLayer.toUInt64 - assigned)
  else if cfg.totalComputeShare = 0 then none
  else some (cfg.profile.computeNsPerLayer * op.computeShare / cfg.totalComputeShare).toUInt64

section
variable (cfg : Config) (l : Launch) (m : Mode)

/-- What an operation reads before it computes. -/
def Config.reads (layer : String) (i : Nat) (op : ModelOperationInfo) : List Segment :=
  let opLayer := layer ++ ".op." ++ op.name
  (if 0 < op.weightReadBytes then
    [m.transfer i .weight .read op.weightReadBytes (opLayer ++ ".weight")] else []) ++
  (if op.name = "qkt" ∧ 0 < cfg.layerProfile.kvCacheBytesPerToken then
    [m.transfer i .kvRead .read (cfg.layerProfile.kvCacheBytesPerToken * l.contextTokens.toUInt64)
      (opLayer ++ ".kv_cache.read")] else [])

/-- What it writes afterwards. -/
def Config.writes (layer : String) (i : Nat) (op : ModelOperationInfo) : List Segment :=
  if op.name = "v_proj" ∧ 0 < cfg.layerProfile.kvCacheBytesPerToken then
    [m.transfer i .kvWrite .write (cfg.layerProfile.kvCacheBytesPerToken * l.kvWriteTokens.toUInt64)
      (layer ++ ".op." ++ op.name ++ ".kv_cache.write")] else []

/-- The loop over the operations from position `i` on, and the compute time assigned at
its end, `none` if it traps. -/
def Config.replayOps (layer : String) :
    Nat → List ModelOperationInfo → UInt64 → List Segment × Option UInt64
  | _, [], assigned => ([], some assigned)
  | i, op :: rest, assigned =>
    match cfg.perLayerCompute l rest.isEmpty assigned op with
    | none => (cfg.reads l m layer i op ++ [.trap], none)
    | some c =>
      let tail := Config.replayOps layer (i + 1) rest (assigned + c)
      (cfg.reads l m layer i op ++ m.compute i c ++ cfg.writes l m layer i op ++ tail.1, tail.2)

/-- Per decoder token, from the model or else from the NPU's own default. -/
def Config.outputWriteBytes (cfg : Config) : UInt64 :=
  if cfg.layerProfile.outputWriteBytes ≠ 0 then cfg.layerProfile.outputWriteBytes
  else cfg.profile.outputWriteBytesPerLayer.toUInt64

/-- One turn of the loop over the layers, and whether it traps. -/
def Config.replayLayer (layer : String) : List Segment × Bool :=
  match cfg.replayOps l m layer 0 cfg.layerProfile.operations 0 with
  | (segments, none) => (.layerStart layer :: segments, true)
  | (segments, some assigned) =>
    (.layerStart layer :: segments ++
      [m.transfer 0 .output .write (cfg.outputWriteBytes * l.queryTokens.toUInt64)
        (layer ++ ".output"), .layerEnd layer (assigned * m.multiplier.toUInt64)], false)

/-- The loop over the layers of a run, and its end. -/
def Config.replayLayers : List String → List Segment
  | [] => [.finish]
  | layer :: rest =>
    match cfg.replayLayer l m layer with
    | (segments, true) => segments
    | (segments, false) => segments ++ Config.replayLayers rest

end

def runLabel (run : UInt32) : String := "target_npu.run" ++ toString run.toNat

/-- The labels of a run that walks the layers one at a time. -/
def Config.layerLabels (cfg : Config) (run : UInt32) : List String :=
  (List.range cfg.layerProfile.layerCount.toNat).map fun id => runLabel run ++ ".layer" ++ toString id

/-- The run of a launch in a mode. -/
def Config.replayAs (cfg : Config) (fastLayerMode : Bool) (granularity : Granularity) (l : Launch)
    (run : UInt32) : List Segment :=
  if fastLayerMode then
    match granularity with
    | .macro_ => cfg.replayLayers l (cfg.fast cfg.layerProfile.layerCount) [runLabel run ++ ".macro"]
    | .layer => cfg.replayLayers l (cfg.fast 1) (cfg.layerLabels run)
  else cfg.replayLayers l cfg.detailed (cfg.layerLabels run)

/-- `replay_trace`, from one launch to the end of its run. -/
def Config.replayTrace (cfg : Config) (l : Launch) (run : UInt32) : List Segment :=
  cfg.replayAs cfg.profile.fastLayerMode cfg.profile.fastLayerGranularity l run

/-! ### The replay thread -/

/-- Where the thread waits, and what it does after. -/
inductive Thread where
  /-- At `wait(start_event)`. -/
  | waitStart
  /-- Until `wake`. -/
  | computing (wake : Time) (rest : List Segment)
  /-- At the window of `issue_memory`, with the requests still to issue. -/
  | throttled (requests : List Payload) (rest : List Segment)
  /-- In the loop that waits for the last responses of a transfer. -/
  | draining (rest : List Segment)
  | trapped
  deriving DecidableEq, Repr

structure State where
  thread : Thread := .waitStart
  launch : Launch := {}
  runId : UInt32 := 0
  nextAddress : UInt64 := 0x10000000
  pendingResponses : UInt32 := 0
  activeCore : Bool := true
  npuStartTime : Time := 0
  /-- Requests issued so far. -/
  issued : Nat := 0
  /-- Launches and responses on their way to the callbacks. -/
  peqFw : List Payload := []
  peqBw : List Payload := []
  /-- `start_event` and `response_event`, notified and not yet triggered. -/
  startEvent : Bool := false
  responseEvent : Bool := false
  /-- Ghost: the control record of the current launch. -/
  stage : Nat := 0

/-- `nb_transport_fw` of one request. A fast request reserves its bytes of the address
space, a detailed one the request size. -/
def send (cfg : Config) (body : Payload) (s : State) : State × Payload :=
  let t := {body with
    ptr := cfg.allocate s.issued
    address := s.nextAddress
    stage := s.stage}
  let reserved := if cfg.profile.fastLayerMode then t.macroBytes else cfg.requestBytes.toUInt64
  ({s with
    nextAddress := s.nextAddress + reserved
    pendingResponses := s.pendingResponses + 1
    issued := s.issued + 1}, t)

/-- The window of the detailed replay is full. -/
def Config.windowFull (cfg : Config) (s : State) : Bool :=
  !cfg.profile.fastLayerMode && cfg.profile.maxInflightRequests ≤ s.pendingResponses

/-- The rest of a transfer, then `next`. -/
def issue (cfg : Config) (rest : List Segment) (next : Action State) : List Payload → Action State
  | [] => fun s =>
    if s.pendingResponses = 0 then next s else ({s with thread := .draining rest}, [])
  | body :: requests => fun s =>
    let (s, t) := send cfg body s
    if cfg.windowFull s then ({s with thread := .throttled requests rest}, [.request t])
    else
      let r := issue cfg rest next requests s
      (r.1, .request t :: r.2)

/-- From a segment on to the next wait. -/
def advance (cfg : Config) (now : Time) : List Segment → Action State
  | [] => fun s => ({s with thread := .waitStart}, [])
  | .layerStart layer :: rest => fun s =>
    let r := advance cfg now rest {s with npuStartTime := now}
    (r.1, .updateNpuStart layer (toCycle now) :: r.2)
  | .transfer _ _ _ _ _ requests :: rest => fun s =>
    if requests = [] then advance cfg now rest s
    else issue cfg rest (advance cfg now rest) requests {s with pendingResponses := 0}
  | .compute _ computeNs :: rest => fun s =>
    let wake := now + ns computeNs.toNat
    ({s with thread := .computing wake rest}, [.metrics (.npuComputeInterval now wake)])
  | .layerEnd layer compute :: rest => fun s =>
    let r := advance cfg now rest s
    (r.1, .updateNpuEnd layer (toCycle now) compute :: .metrics (.npuInterval s.npuStartTime now) :: r.2)
  | .trap :: _ => fun s => ({s with thread := .trapped}, [])
  | .finish :: _ => fun s =>
    ({s with thread := .waitStart, activeCore := false},
      [.metrics (.npuEpisode s.launch.episodeId now), .npuTraceDone])

/-- `start_event` triggers: a run begins if the thread waits for it. -/
def startRun (cfg : Config) (now : Time) : Action State := fun s =>
  let s := {s with startEvent := false}
  match s.thread with
  | .waitStart =>
    advance cfg now (cfg.replayTrace s.launch s.runId)
      {s with activeCore := true, runId := s.runId + 1}
  | _ => (s, [])

/-- `response_event` triggers. -/
def onResponse (cfg : Config) (now : Time) : Action State := fun s =>
  let s := {s with responseEvent := false}
  match s.thread with
  | .throttled requests rest => issue cfg rest (advance cfg now rest) requests s
  | .draining rest => if s.pendingResponses = 0 then advance cfg now rest s else (s, [])
  | _ => (s, [])

/-- The end of an operation's computation. -/
def endCompute (cfg : Config) (now : Time) : Action State := fun s =>
  match s.thread with
  | .computing _ rest => advance cfg now rest s
  | _ => (s, [])

/-- `peq_fw_cb`. -/
def peqFwCb (t : Payload) (s : State) : State :=
  if t.command = .compute then
    {s with
      launch := .ofPayload t
      startEvent := true
      stage := t.stage}
  else s

/-- `peq_bw_cb`, with `complete_memory_response`. -/
def peqBwCb (t : Payload) : Action State := fun s =>
  ({s with
      pendingResponses := s.pendingResponses - 1
      responseEvent := true},
    [.release t])

end Hsim.NpuTraceReplayer
