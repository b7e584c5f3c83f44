import Hsim.DramMacroModel
import Hsim.HostTrace
import Hsim.Lib.Reach
import Hsim.MemWrapper
import Hsim.NpuTraceReplayer

/-! The simulated system, `Top`.

The host, the arbiter, the NPU and the memory modules exchange transactions
through zero-time event queues. A state holds every module with what waits for
its callbacks; a step is one activation of one process, or time passing. Any
process may run whenever it is not waiting for another, so every order in which
the kernel can schedule the processes is an order of steps here. -/
namespace Hsim

open TraceGenerator (SpeculativeControl)

/-! ### The host's processes -/

namespace Host

/-- Where `process_trace` is. -/
inductive Thread where
  /-- In `handle_speculative_trace`, at the next control record. -/
  | nextControl
  /-- At `wait(pim_trace_done_ev & npu_trace_done_ev)`, with the events seen so far. -/
  | barrier (layer : String) (pim npu : Bool)
  /-- Between the two traces. -/
  | betweenTraces
  /-- After the termination trace, until the memory has stopped. -/
  | terminating
  | stopped
  | failed
  deriving DecidableEq, Repr

structure State where
  thread : Thread := .nextControl
  controls : List SpeculativeControl := []
  pendingQ : List Payload := []
  readRspQ : List Payload := []
  activeHost : Bool := true
  /-- Payloads allocated so far. -/
  allocated : Nat := 0
  /-- Ghost: the number of control records launched, and the PIM transactions of the
  last one. -/
  stage : Nat := 0
  emitted : List Payload := []

/-- The identity of an emission's payloads: what `m_mm.allocate` hands out. -/
def stamp (allocate : Nat → Nat) (s : State) (transactions : List Payload) : List Payload :=
  transactions.mapIdx fun i t => {t with
    ptr := allocate (s.allocated + i)
    stage := s.stage + 1}

def barrierLayer (control : SpeculativeControl) : String :=
  (if control.algorithm = "ssd" && control.draftOverlapsTarget then "ssd." else "speculative.") ++
    samplePrefix control ++ ".barrier"

/-- From a control record to its barrier. -/
def launchStage (cfg : Config) (allocate : Nat → Nat) (now : Time) (control : SpeculativeControl)
    (rest : List SpeculativeControl) : Action State := fun s =>
  match cfg.emission control with
  | .error message => ({s with thread := .failed}, [.throw message])
  | .ok transactions =>
    let stamped := stamp allocate s (Config.launch control :: transactions)
    ({s with
        thread := .barrier (barrierLayer control) false false
        controls := rest
        pendingQ := s.pendingQ ++ stamped
        allocated := s.allocated + stamped.length
        stage := s.stage + 1
        emitted := stamped.tail},
      [.metrics (.beginEpisode (samplePrefix control) now),
        .updateStart (barrierLayer control) .host (toCycle now)])

/-- An activation of `process_trace`. -/
def processTrace (cfg : Config) (allocate : Nat → Nat) (now : Time) (activeDram : Bool) :
    Action State := fun s =>
  match s.thread with
  | .nextControl =>
    match s.controls with
    | control :: rest => launchStage cfg allocate now control rest s
    | [] => ({s with thread := .betweenTraces}, [])
  | .barrier layer true true =>
    ({s with thread := .nextControl}, [.updateEnd layer .host (toCycle now)])
  | .betweenTraces => ({s with thread := .terminating, activeHost := false}, [])
  | .terminating => if activeDram then (s, []) else ({s with thread := .stopped}, [])
  | _ => (s, [])

/-- One request each falling edge. -/
def clockNegedge : Action State := fun s =>
  match s.pendingQ with
  | [] => (s, [])
  | t :: rest => ({s with pendingQ := rest}, [.request t])

/-- An event of the barrier triggers. -/
def notePim (s : State) : State :=
  match s.thread with
  | .barrier layer _ npu => {s with thread := .barrier layer true npu}
  | _ => s

def noteNpu (s : State) : State :=
  match s.thread with
  | .barrier layer pim _ => {s with thread := .barrier layer pim true}
  | _ => s

end Host

/-! ### The arbiter -/

namespace Arbiter

/-- The queues, with the socket each transaction leaves through. Every forward phase is
`BEGIN_REQ` and every backward phase `BEGIN_RESP`: the arbiter completes `END_RESP`
without queueing it. -/
structure State where
  peqFw : List Payload := []
  fwQueue : List (Payload × Nat) := []
  peqBw : List Payload := []
  bwQueue : List (Payload × Nat) := []

/-- The target socket of a request. -/
def targetIndex (dramEnabled : Bool) (t : Payload) : Nat :=
  if dramEnabled then
    match t.dstId with
    | .pim => 1
    | _ => 0
  else 0

def peqFwCb (dramEnabled : Bool) (t : Payload) (s : State) : State :=
  {s with fwQueue := s.fwQueue ++ [(t, targetIndex dramEnabled t)]}

def peqBwCb (t : Payload) (s : State) : State :=
  {s with bwQueue := s.bwQueue ++ [(t, if t.srcId = .host then 0 else 1)]}

end Arbiter

/-! ### The system -/

namespace System

structure Config where
  host : Host.Config
  hostAllocate : Nat → Nat
  npu : NpuTraceReplayer.Config
  mem : MemWrapper.Config
  pim : PimWrapper.Config
  dramEnabled : Bool
  pimEnabled : Bool

/-- What a system is linked with: the memory systems behind the bridges, what the DRAM models
measure of them, the compute model of the NPU, and the payload pools. -/
structure Models where
  dram : Bridge.MemorySystem
  pim : Bridge.MemorySystem
  dramCalibration : DramMacroModel.Calibration
  pimCalibration : DramMacroModel.Calibration
  operationComputeNs : NpuTraceReplayer.Launch → ModelOperationInfo → UInt64
  hostAllocate : Nat → Nat
  npuAllocate : Nat → Nat

/-- The period of a thread that polls at a frequency in GHz, in fast-layer mode a
microsecond: `sc_time` rounds to the nearest picosecond, here from the exact quotient. -/
def pollingPeriod (fastLayerMode : Bool) (frequency : Rat) : Time :=
  if fastLayerMode then ns 1000 else (1000 / frequency + 1 / 2).floor.toNat

/-- The modules as `Top` builds them. The sync maps of the compiled network are not
loaded in a speculative replay. -/
def Config.of (c : Configurations) (models : Models) : Config where
  host := .of c
  hostAllocate := models.hostAllocate
  npu := {
    profile := c.syntheticNpu
    layerProfile := c.targetLayerProfile
    dramReqBytes := c.dramReqSize
    memory := if c.dramEnabled then .dram else .pim
    operationComputeNs := models.operationComputeNs
    allocate := models.npuAllocate}
  mem := {
    fastLayerMode := c.fastLayerModeEnabled
    period := pollingPeriod c.fastLayerModeEnabled c.dramFrequency
    hostSyncMap := fun _ => none
    pimSyncMap := fun _ => none
    memorySystem := models.dram
    estimateNs := (DramMacroModel.of c models.dramCalibration).estimateNs}
  pim := {
    memoryStructure := c.memoryStructure
    fastLayerMode := c.fastLayerModeEnabled
    period := pollingPeriod c.fastLayerModeEnabled c.pimFrequency
    modeChangeDelay := c.modeChangeDelay
    pimSyncMap := fun _ => none
    hostSyncMap := fun _ => none
    memorySystem := models.pim
    estimateNs := (DramMacroModel.of c models.pimCalibration).estimateNs}
  dramEnabled := c.dramEnabled
  pimEnabled := c.pimEnabled

/-- The modules bound to the arbiter's target sockets, in order. -/
def Config.targets (cfg : Config) : List DeviceType :=
  (if cfg.dramEnabled then [.dram] else []) ++ (if cfg.pimEnabled then [.pim] else [])

structure State where
  now : Time := 0
  host : Host.State := {}
  arbiter : Arbiter.State := {}
  npu : NpuTraceReplayer.State := {}
  memPeq : List Payload := []
  mem : MemWrapper.State := {}
  pimPeq : List Payload := []
  pim : PimWrapper.State := {}
  activeDram : Bool := true
  /-- An error report has ended the simulation. -/
  failed : Bool := false
  /-- `pim_trace_done_ev` and `npu_trace_done_ev`, notified and not yet triggered. -/
  pimTraceDone : Bool := false
  npuTraceDone : Bool := false
  /-- Every call out of a module so far. -/
  log : List Effect := []
  /-- Ghost: the compute commands of the current stage popped by the PIM's falling edge. -/
  served : List Payload := []

/-- What a module's call does to the rest of the system. -/
def perform (s : State) : Effect → State
  | .request t =>
    if t.dstId = .npu then {s with npu := {s.npu with peqFw := s.npu.peqFw ++ [t]}}
    else {s with arbiter := {s.arbiter with peqFw := s.arbiter.peqFw ++ [t]}}
  | .respond t _ => {s with arbiter := {s.arbiter with peqBw := s.arbiter.peqBw ++ [t]}}
  | .pimTraceDone => {s with pimTraceDone := true}
  | .npuTraceDone => {s with npuTraceDone := true}
  | .stopDram => {s with activeDram := false}
  | _ => s

def performAll (s : State) (effects : List Effect) : State :=
  {effects.foldl perform s with log := s.log ++ effects}

/-- `active_host == 1 || active_core == 1`, as the memory threads test it. -/
def State.active (s : State) : Bool := s.host.activeHost || s.npu.activeCore

/-- The request of an arbiter's target socket reaches the module bound to it. -/
def deliverFw (cfg : Config) (t : Payload) (index : Nat) (s : State) : State :=
  match cfg.targets[index]? with
  | some .dram => {s with memPeq := s.memPeq ++ [t]}
  | some _ => {s with pimPeq := s.pimPeq ++ [t]}
  | none => {s with failed := true}

/-- A response reaches the host or the NPU. -/
def deliverBw (t : Payload) (index : Nat) (s : State) : State :=
  if index = 0 then {s with host := {s.host with readRspQ := s.host.readRspQ ++ [t]}}
  else {s with npu := {s.npu with peqBw := s.npu.peqBw ++ [t]}}

/-! One function for each process. -/

section
variable (cfg : Config)

def runHost (s : State) : State :=
  let r := Host.processTrace cfg.host cfg.hostAllocate s.now s.activeDram s.host
  let served := if r.1.stage = s.host.stage then s.served else []
  performAll {s with host := r.1, served := served} r.2

def hostNegedge (s : State) : State :=
  let r := Host.clockNegedge s.host
  performAll {s with host := r.1} r.2

def runNpu (process : Action NpuTraceReplayer.State) (s : State) : State :=
  let r := process s.npu
  performAll {s with npu := r.1} r.2

def runMem (process : Action MemWrapper.State) (s : State) : State :=
  let r := process s.mem
  performAll {s with mem := r.1} r.2

def runPim (process : Action PimWrapper.State) (s : State) : State :=
  let r := process s.pim
  performAll {s with pim := r.1} r.2

/-- The PIM's falling edge, which serves the front of its completion queue. -/
def pimNegedge (s : State) : State :=
  {runPim (PimWrapper.clockNegedge cfg.pim s.now) s with
    served := s.served ++ s.pim.computeCompletedQueue.take 1}

end

/-- No module has thrown and the host has not stopped the simulation. -/
def Running (s : State) : Prop :=
  s.failed = false ∧ s.host.thread ≠ .failed ∧ s.host.thread ≠ .stopped ∧
    s.npu.thread ≠ .trapped ∧ s.mem.thread ≠ .failed

/-- One activation of one process. -/
inductive Move (cfg : Config) (s : State) : State → Prop where
  | elapse (d : Time) : Move cfg s {s with now := s.now + d}
  | host : Move cfg s (runHost cfg s)
  | hostNegedge : Move cfg s (hostNegedge s)
  | pimTraceDone : s.pimTraceDone = true →
    Move cfg s {s with pimTraceDone := false, host := Host.notePim s.host}
  | npuTraceDone : s.npuTraceDone = true →
    Move cfg s {s with npuTraceDone := false, host := Host.noteNpu s.host}
  | arbiterPeqFw (t : Payload) (rest : List Payload) : s.arbiter.peqFw = t :: rest →
    Move cfg s {s with arbiter := Arbiter.peqFwCb cfg.dramEnabled t {s.arbiter with peqFw := rest}}
  | arbiterNegedge (t : Payload) (index : Nat) (rest : List (Payload × Nat)) :
    s.arbiter.fwQueue = (t, index) :: rest →
    Move cfg s (deliverFw cfg t index {s with arbiter := {s.arbiter with fwQueue := rest}})
  | arbiterPeqBw (t : Payload) (rest : List Payload) : s.arbiter.peqBw = t :: rest →
    Move cfg s {s with arbiter := Arbiter.peqBwCb t {s.arbiter with peqBw := rest}}
  | arbiterPosedge (t : Payload) (index : Nat) (rest : List (Payload × Nat)) :
    s.arbiter.bwQueue = (t, index) :: rest →
    Move cfg s (deliverBw t index {s with arbiter := {s.arbiter with bwQueue := rest}})
  | npuPeqFw (t : Payload) (rest : List Payload) : s.npu.peqFw = t :: rest →
    Move cfg s {s with npu := NpuTraceReplayer.peqFwCb t {s.npu with peqFw := rest}}
  | npuStart : s.npu.startEvent = true →
    Move cfg s (runNpu (NpuTraceReplayer.startRun cfg.npu s.now) s)
  | npuCompute (wake : Time) (rest : List NpuTraceReplayer.Segment) :
    s.npu.thread = .computing wake rest →
    Move cfg s (runNpu (NpuTraceReplayer.endCompute cfg.npu s.now) s)
  | npuPeqBw (t : Payload) (rest : List Payload) : s.npu.peqBw = t :: rest →
    Move cfg s (runNpu (NpuTraceReplayer.peqBwCb t) {s with npu := {s.npu with peqBw := rest}})
  | npuResponse : s.npu.responseEvent = true →
    Move cfg s (runNpu (NpuTraceReplayer.onResponse cfg.npu s.now) s)
  | memPeq (t : Payload) (rest : List Payload) : s.memPeq = t :: rest →
    Move cfg s (runMem (MemWrapper.peqCb s.now t) {s with memPeq := rest})
  | memIterate (answers : Bridge.Answers) (wake : Time) (onEvent : Bool) :
    s.mem.thread = .waiting wake onEvent → cfg.dramEnabled = true →
    Move cfg s (runMem (MemWrapper.iterate cfg.mem {
      active := s.active
      answers := answers} s.now) s)
  | memPosedge : Move cfg s {s with mem := MemWrapper.clockPosedge s.mem}
  | memNegedge : Move cfg s (runMem MemWrapper.clockNegedge s)
  | pimPeq (t : Payload) (rest : List Payload) : s.pimPeq = t :: rest →
    Move cfg s (runPim (PimWrapper.peqCb s.now t) {s with pimPeq := rest})
  | pimIterate (answers : Bridge.Answers) (wake : Time) (onEvent : Bool) :
    s.pim.thread = .waiting wake onEvent → cfg.pimEnabled = true →
    Move cfg s (runPim (PimWrapper.iterate cfg.pim {
      active := s.active
      answers := answers} s.now) s)
  | pimResume (answers : Bridge.Answers) (t : Payload) (wake : Time) :
    s.pim.thread = .switching t wake →
    Move cfg s (runPim (PimWrapper.resume cfg.pim {
      active := s.active
      answers := answers} s.now t) s)
  | pimPosedge : Move cfg s (runPim (PimWrapper.clockPosedge cfg.pim s.now) s)
  | pimNegedge : Move cfg s (pimNegedge cfg s)

def Step (cfg : Config) (s s' : State) : Prop := Running s ∧ Move cfg s s'

/-- The system as it is built, with a control list to replay. -/
def Initial (controls : List SpeculativeControl) (s : State) : Prop :=
  s = {host := {controls := controls}}

abbrev Reachable (cfg : Config) (controls : List SpeculativeControl) : State → Prop :=
  Lib.Reach (Initial controls) (Step cfg)

end System

end Hsim
