import Hsim.Payload
import Mathlib.Data.List.AList

/-! The runtime ledger, `PerformanceMetrics`.

Wrappers report a request three times: when it reaches them, when the modelled
resource can begin serving it, and when it is done. The ledger keeps open
requests in a table keyed by the payload pointer, and folds a closed one into
its device's traffic counters and per-channel rows. Speculative stages are
reported as episodes with one launch and two completions.

A call is a value (`Call`), so a component can say what it reports and the
ledger's state after a run is a fold over the calls it received. -/
namespace Hsim.Metrics

/-- `PerformanceMetrics::Device`. -/
inductive Device where
  | dram
  | pim
  deriving DecidableEq, Repr

structure Interval where
  startNs : Int := 0
  endNs : Int := 0
  deriving DecidableEq, Repr

structure ChannelStats where
  bytes : UInt64 := 0
  requests : Nat := 0
  serviceIntervals : List Interval := []
  deriving DecidableEq, Repr

/-- An open request. `startNs` is negative until service begins. -/
structure Request where
  device : Device := .dram
  bytes : UInt64 := 0
  pimCompute : Bool := false
  arrivalNs : Int := 0
  startNs : Int := -1
  channel : Int := -1
  deriving DecidableEq, Repr

structure TrafficStats where
  requests : Nat := 0
  bytes : UInt64 := 0
  queueWaitNs : UInt64 := 0
  maxQueueWaitNs : UInt64 := 0
  queueWaitSamples : List UInt64 := []
  serviceIntervals : List Interval := []
  deriving DecidableEq, Repr

structure DeviceStats where
  channels : UInt32 := 1
  channelMode : String := "physical_address_mapped"
  memory : TrafficStats := {}
  compute : TrafficStats := {}
  perChannel : List ChannelStats := []
  deriving DecidableEq, Repr

structure ParallelEpisode where
  id : String
  launchNs : Int := 0
  npuEndNs : Int := -1
  pimEndNs : Int := -1
  deriving DecidableEq, Repr

structure State where
  dram : DeviceStats := {}
  pim : DeviceStats := {}
  requests : AList (fun _ : Nat => Request) := ∅
  npuIntervals : List Interval := []
  npuComputeIntervals : List Interval := []
  pimComputeIntervals : List Interval := []
  pimDraftComputeIntervals : List Interval := []
  parallelEpisodes : List ParallelEpisode := []
  parallelEpisodeIndex : AList (fun _ : String => Nat) := ∅
  pimDraftComputeResourceStallNs : UInt64 := 0
  pimTargetMemoryResourceStallNs : UInt64 := 0

/-- Tensor-sized transfers and PIM commands name no single channel. -/
def kAllChannels : Int := -1

def State.deviceStats (s : State) : Device → DeviceStats
  | .dram => s.dram
  | .pim => s.pim

def State.setDevice (s : State) (d : Device) (stats : DeviceStats) : State :=
  match d with
  | .dram => {s with dram := stats}
  | .pim => {s with pim := stats}

def State.setRequests (s : State) (m : AList (fun _ : Nat => Request)) : State :=
  {s with requests := m}

/-- The traffic a request counts towards. -/
def DeviceStats.traffic (stats : DeviceStats) (pimCompute : Bool) : TrafficStats :=
  if pimCompute then stats.compute else stats.memory

def DeviceStats.setTraffic (stats : DeviceStats) (pimCompute : Bool) (t : TrafficStats) :
    DeviceStats :=
  if pimCompute then {stats with compute := t} else {stats with memory := t}

/-- `vector::resize`. -/
def resize (rows : List ChannelStats) (n : Nat) : List ChannelStats :=
  rows.take n ++ List.replicate (n - rows.length) ({} : ChannelStats)

def configure (s : State) (device : Device) (channels : UInt32) (channelMode : String) : State :=
  let stats := s.deviceStats device
  let channels := max 1 channels
  s.setDevice device {stats with
    channels := channels
    channelMode := channelMode
    perChannel := resize stats.perChannel channels.toNat}

/-- `now` is the kernel time of the call. -/
def requestArrived (s : State) (device : Device) (trans : Payload) (bytes : UInt64)
    (pimCompute : Bool) (now : Time) : State :=
  if trans.ptr = 0 then s
  else if (s.requests.lookup trans.ptr).isSome then s
  else
    let request : Request :=
      {device := device, bytes := bytes, pimCompute := pimCompute, arrivalNs := toNs now}
    s.setRequests (s.requests.insert trans.ptr request)

/-- What `request_started` adds to the traffic counters. -/
def TrafficStats.wait (t : TrafficStats) (queueWait : UInt64) : TrafficStats :=
  {t with
    queueWaitNs := t.queueWaitNs + queueWait
    maxQueueWaitNs := max t.maxQueueWaitNs queueWait
    queueWaitSamples := t.queueWaitSamples ++ [queueWait]}

def requestStarted (s : State) (device : Device) (trans : Payload) (start : Time) (channel : Int) :
    State :=
  match s.requests.lookup trans.ptr with
  | none => s
  | some request =>
    if request.device ≠ device ∨ 0 ≤ request.startNs then s
    else
      let startNs := max request.arrivalNs (toNs start)
      let queueWait := UInt64.ofNat (startNs - request.arrivalNs).toNat
      let stats := s.deviceStats device
      let stats := stats.setTraffic request.pimCompute
        ((stats.traffic request.pimCompute).wait queueWait)
      let request := {request with startNs := startNs, channel := channel}
      (s.setDevice device stats).setRequests (s.requests.insert trans.ptr request)

def ChannelStats.serve (c : ChannelStats) (bytes : UInt64) (interval : Interval) : ChannelStats :=
  {c with
    requests := c.requests + 1
    bytes := c.bytes + bytes
    serviceIntervals := c.serviceIntervals ++ [interval]}

/-- The share of channel `id` in a transfer spread over `n` channels: the quotient,
and one byte of the remainder for the first channels. -/
def channelShare (bytes : UInt64) (n id : Nat) : UInt64 :=
  bytes / UInt64.ofNat n + if UInt64.ofNat id < bytes % UInt64.ofNat n then 1 else 0

/-- The channel rows a request is charged to, created at the first one if the device
was never configured. -/
def serviceRows (stats : DeviceStats) : List ChannelStats :=
  if stats.perChannel.isEmpty then resize [] (max 1 stats.channels).toNat else stats.perChannel

/-- A request that names an existing channel is charged to it; any other is charged
to all of them. -/
def addChannelService (stats : DeviceStats) (request : Request) (interval : Interval) :
    DeviceStats :=
  let rows := serviceRows stats
  {stats with perChannel :=
    if 0 ≤ request.channel ∧ request.channel.toNat < rows.length then
      rows.modify request.channel.toNat (·.serve request.bytes interval)
    else
      rows.mapIdx fun id c => c.serve (channelShare request.bytes rows.length id) interval}

/-- What `request_completed` adds to the traffic counters. -/
def TrafficStats.serve (t : TrafficStats) (bytes : UInt64) (interval : Interval) : TrafficStats :=
  {t with
    requests := t.requests + 1
    bytes := t.bytes + bytes
    serviceIntervals := t.serviceIntervals ++ [interval]}

/-- The compute timelines of the overlap and balance figures. -/
def State.recordPimCompute (s : State) (trans : Payload) (interval : Interval) : State :=
  {s with
    pimComputeIntervals := s.pimComputeIntervals ++ [interval]
    pimDraftComputeIntervals :=
      if startsWith trans.layer "draft_pim." then s.pimDraftComputeIntervals ++ [interval]
      else s.pimDraftComputeIntervals}

def requestCompleted (s : State) (device : Device) (trans : Payload) (finish : Time) : State :=
  match s.requests.lookup trans.ptr with
  | none => s
  | some request =>
    let s := s.setRequests (s.requests.erase trans.ptr)
    if request.device ≠ device ∨ request.startNs < 0 then s
    else
      let interval : Interval := ⟨request.startNs, max request.startNs (toNs finish)⟩
      let stats := s.deviceStats device
      let stats := stats.setTraffic request.pimCompute
        ((stats.traffic request.pimCompute).serve request.bytes interval)
      let s := s.setDevice device (addChannelService stats request interval)
      if request.pimCompute then s.recordPimCompute trans interval else s

def recordPimResourceStall (s : State) (start finish : Time) (draftCompute : Bool) : State :=
  if toNs finish ≤ toNs start then s
  else
    let duration := UInt64.ofNat (toNs finish - toNs start).toNat
    if draftCompute then
      {s with pimDraftComputeResourceStallNs := s.pimDraftComputeResourceStallNs + duration}
    else {s with pimTargetMemoryResourceStallNs := s.pimTargetMemoryResourceStallNs + duration}

def recordNpuInterval (s : State) (start finish : Time) : State :=
  if toNs start < toNs finish then
    {s with npuIntervals := s.npuIntervals ++ [⟨toNs start, toNs finish⟩]}
  else s

def recordNpuComputeInterval (s : State) (start finish : Time) : State :=
  if toNs start < toNs finish then
    {s with npuComputeIntervals := s.npuComputeIntervals ++ [⟨toNs start, toNs finish⟩]}
  else s

def beginParallelEpisode (s : State) (id : String) (launch : Time) : State :=
  if id = "" ∨ (s.parallelEpisodeIndex.lookup id).isSome then s
  else {s with
    parallelEpisodeIndex := s.parallelEpisodeIndex.insert id s.parallelEpisodes.length
    parallelEpisodes := s.parallelEpisodes ++ [{id := id, launchNs := toNs launch}]}

/-- The two completion hooks differ in the field they set. -/
def completeEpisode (set : ParallelEpisode → Int → ParallelEpisode) (s : State) (id : String)
    (finish : Time) : State :=
  match s.parallelEpisodeIndex.lookup id with
  | none => s
  | some index => {s with parallelEpisodes :=
      s.parallelEpisodes.modify index fun e => set e (max e.launchNs (toNs finish))}

def completeParallelNpuEpisode : State → String → Time → State :=
  completeEpisode fun e t => {e with npuEndNs := t}

def completeParallelPimEpisode : State → String → Time → State :=
  completeEpisode fun e t => {e with pimEndNs := t}

/-- A call of one of the hooks above, with the time at which it is made where the
hook reads the kernel's clock. -/
inductive Call where
  | arrived (device : Device) (trans : Payload) (bytes : UInt64) (pimCompute : Bool) (now : Time)
  | started (device : Device) (trans : Payload) (start : Time) (channel : Int)
  | completed (device : Device) (trans : Payload) (finish : Time)
  | stall (start finish : Time) (draftCompute : Bool)
  | npuInterval (start finish : Time)
  | npuComputeInterval (start finish : Time)
  | beginEpisode (id : String) (launch : Time)
  | npuEpisode (id : String) (finish : Time)
  | pimEpisode (id : String) (finish : Time)
  deriving DecidableEq, Repr

def apply (s : State) : Call → State
  | .arrived device t bytes pimCompute now => requestArrived s device t bytes pimCompute now
  | .started device t start channel => requestStarted s device t start channel
  | .completed device t finish => requestCompleted s device t finish
  | .stall start finish draftCompute => recordPimResourceStall s start finish draftCompute
  | .npuInterval start finish => recordNpuInterval s start finish
  | .npuComputeInterval start finish => recordNpuComputeInterval s start finish
  | .beginEpisode id launch => beginParallelEpisode s id launch
  | .npuEpisode id finish => completeParallelNpuEpisode s id finish
  | .pimEpisode id finish => completeParallelPimEpisode s id finish

def applyAll (s : State) (calls : List Call) : State := calls.foldl apply s

theorem applyAll_append (s : State) (a b : List Call) :
    applyAll s (a ++ b) = applyAll (applyAll s a) b := List.foldl_append

end Hsim.Metrics
