import Hsim.Json
import Hsim.PimWrapper

/-! Reading the configuration.

`init_configurations` reads the system file, the two model profiles it names, the
memory file and the profiles of the host and the PIM, and rejects what the replay
cannot run. The file system is a parameter: `files name` is what
`parse_json(name)` returns, an error for a missing or malformed file. Frequencies
and scales are exact rationals. -/
namespace Hsim

open PimWrapper (MemoryStructure)

structure ModelOperationInfo where
  name : String
  weightReadBytes : UInt64 := 0
  computeShare : UInt32 := 1
  macsPerToken : UInt64 := 0
  macsPerKvToken : UInt64 := 0
  deriving DecidableEq, Repr

structure ModelLayerProfile where
  name : String := ""
  layerCount : UInt32 := 0
  outputWriteBytes : UInt64 := 0
  kvCacheBytesPerToken : UInt64 := 0
  attentionContextTileTokens : UInt32 := 128
  operations : List ModelOperationInfo := []
  deriving DecidableEq, Repr

/-- `fast_layer_granularity`. -/
inductive Granularity where
  | macro_
  | layer
  deriving DecidableEq, Repr

/-- `fast_memory_backend`. -/
inductive MemoryBackend where
  | analytic
  | dramsim3Calibrated
  deriving DecidableEq, Repr

/-- `fast_memory_channel_model`. -/
inductive ChannelModel where
  | native
  | linearLogical
  deriving DecidableEq, Repr

structure SyntheticNPUInfo where
  enabled : Bool := false
  computeNsPerLayer : UInt32 := 0
  outputWriteBytesPerLayer : UInt32 := 0
  maxInflightRequests : UInt32 := 256
  modelProfile : String := ""
  fastLayerMode : Bool := false
  fastLayerGranularity : Granularity := .macro_
  fastMemoryBackend : MemoryBackend := .analytic
  fastMemoryChannelModel : ChannelModel := .native
  fastMemoryChannelEfficiency : Rat := 1
  dramMacroCalibrationRequests : UInt32 := 4096
  fastMemoryBandwidthGBps : Rat := 128 / 5
  fastMemoryFixedLatencyNs : UInt32 := 100
  analyticalComputeEnabled : Bool := true
  macsPerCycle : UInt32 := 1024
  computeFrequencyGHz : Rat := 1 / 2

structure SyntheticPIMInfo where
  enabled : Bool := false
  modelProfile : String := ""
  aggregateMicroCommands : Bool := false
  fastLayerMode : Bool := false
  fastLayerGranularity : Granularity := .macro_

structure SpeculativeInfo where
  controlTraceFile : String := ""
  sampleIndex : Int := -1
  skipWarmupIterations : UInt32 := 0
  maxControlIterations : UInt32 := 0
  excludePrefill : Bool := false
  draftProfileLayer : String := ""

structure DelayCount where
  delay : UInt32
  count : UInt32
  deriving DecidableEq, Repr

/-- The commands of one PIM operation: their order, and what each costs. The newest
entry of a name is first in `cmdMap`, and every ordered name has one. -/
structure PIMCmdProfile where
  cmdMap : List (String × DelayCount) := []
  orderedCmdName : List String := []
  channelLatencyScale : Rat := 1
  known : ∀ name ∈ orderedCmdName, (cmdMap.lookup name).isSome := by simp

namespace PIMCmdProfile

/-- No commands. -/
def empty : PIMCmdProfile := {}

/-- `cmd_map.at(name)`, for an ordered name. -/
def get (p : PIMCmdProfile) (name : String) : DelayCount :=
  (p.cmdMap.lookup name).getD {
    delay := 0
    count := 0}

/-- `cmd_map[name] = entry; ordered_cmd_name.push_back(name)`. -/
def push (p : PIMCmdProfile) (name : String) (entry : DelayCount) : PIMCmdProfile where
  cmdMap := (name, entry) :: p.cmdMap
  orderedCmdName := p.orderedCmdName ++ [name]
  channelLatencyScale := p.channelLatencyScale
  known := by
    intro other hother
    rw [List.lookup_cons]
    split
    · rfl
    · next hne =>
      rcases List.mem_append.mp hother with h | h
      · exact p.known other h
      · cases List.mem_singleton.mp h
        simp at hne

end PIMCmdProfile

/-- What `init_system` sets. -/
structure SystemInfo where
  memoryStructure : MemoryStructure
  hostFrequency : Rat
  targetModel : String
  inputSequenceLength : UInt32
  syntheticNpu : SyntheticNPUInfo
  syntheticPim : SyntheticPIMInfo
  speculative : SpeculativeInfo
  targetLayerProfile : ModelLayerProfile
  draftLayerProfile : ModelLayerProfile

/-- `dram_enabled()`: only the unified memory does without a DRAM module. -/
def SystemInfo.dramEnabled (c : SystemInfo) : Bool :=
  match c.memoryStructure with
  | .baseline | .partitioned => true
  | .unified => false

/-- `pim_enabled()`: only the baseline does without a PIM module. -/
def SystemInfo.pimEnabled (c : SystemInfo) : Bool :=
  match c.memoryStructure with
  | .baseline => false
  | .partitioned | .unified => true

structure Configurations extends SystemInfo where
  dramReqSize : UInt32
  dramFrequency : Rat
  pimFrequency : Rat
  dramChannels : UInt32
  pimChannels : UInt32
  layerTileMap : List (String × UInt32)
  pimProfile : List (String × PIMCmdProfile)
  /-- From PIM to DRAM, and from DRAM to PIM. -/
  modeChangeDelay : UInt32 × UInt32

def Configurations.fastLayerModeEnabled (c : Configurations) : Bool :=
  c.syntheticNpu.fastLayerMode || c.syntheticPim.fastLayerMode

/-- What `parse_json` returns for a file name. -/
abbrev Files := String → Except String Json

/-! ### Model profiles -/

def readOperation (op : Json) : Except String ModelOperationInfo := do
  return {
    name := ← (← op.field "name").asString
    weightReadBytes := ← (← op.get "weight_read_bytes" (.int 0)).asUInt64
    computeShare := ← (← op.get "compute_share" (.int 1)).asUInt
    macsPerToken := ← (← op.get "macs_per_token" (.int 0)).asUInt64
    macsPerKvToken := ← (← op.get "macs_per_kv_token" (.int 0)).asUInt64}

/-- One turn of the loader's loop over the operations. -/
def loadOperation (fileName : String) (op : Json) : Except String ModelOperationInfo := do
  let entry ← readOperation op
  reject (entry.name = "" ∨ entry.computeShare = 0) ("Invalid operation in model profile: " ++ fileName)
  return entry

/-- The fields of a model profile before its operations. -/
def readModelLayerProfile (fileName : String) (root : Json) : Except String ModelLayerProfile := do
  return {
    name := ← (← root.get "name" (.str fileName)).asString
    layerCount := ← (← root.field "decoder_layers").asUInt
    outputWriteBytes := ← (← root.get "output_write_bytes" (.int 0)).asUInt64
    kvCacheBytesPerToken := ← (← root.get "kv_cache_bytes_per_token" (.int 0)).asUInt64
    attentionContextTileTokens :=
      ← (← root.get "attention_context_tile_tokens" (.int 128)).asUInt}

def loadModelLayerProfile (files : Files) (fileName : String) :
    Except String ModelLayerProfile := do
  let root ← files fileName
  let profile ← readModelLayerProfile fileName root
  let array ← root.field "operations"
  reject (profile.layerCount = 0 ∨ array.isArray = false) ("Invalid model layer profile: " ++ fileName)
  let operations ← array.elements.mapM (loadOperation fileName)
  reject (operations = []) ("Model profile has no operations: " ++ fileName)
  return {profile with operations := operations}

/-- What the loader guarantees of a profile. -/
structure ModelLayerProfile.Valid (p : ModelLayerProfile) : Prop where
  layers : p.layerCount ≠ 0
  operations : p.operations ≠ []
  named : ∀ op ∈ p.operations, op.name ≠ ""
  shares : ∀ op ∈ p.operations, op.computeShare ≠ 0

theorem loadOperation_valid {fileName : String} {j : Json} {op : ModelOperationInfo}
    (h : loadOperation fileName j = .ok op) : op.name ≠ "" ∧ op.computeShare ≠ 0 := by
  obtain ⟨entry, -, h⟩ := ok_of_bind h
  obtain ⟨_, hok, h⟩ := ok_of_bind h
  cases h
  exact not_or.mp (not_of_reject hok)

theorem loadModelLayerProfile_valid {files : Files} {fileName : String} {p : ModelLayerProfile}
    (h : loadModelLayerProfile files fileName = .ok p) : p.Valid := by
  obtain ⟨root, -, h⟩ := ok_of_bind h
  obtain ⟨profile, -, h⟩ := ok_of_bind h
  obtain ⟨array, -, h⟩ := ok_of_bind h
  obtain ⟨_, hheader, h⟩ := ok_of_bind h
  obtain ⟨operations, hops, h⟩ := ok_of_bind h
  obtain ⟨_, hsome, h⟩ := ok_of_bind h
  cases h
  have hvalid := forall_of_mapM (fun _ _ _ => loadOperation_valid) hops
  exact ⟨(not_or.mp (not_of_reject hheader)).1, not_of_reject hsome,
    fun op hop => (hvalid op hop).1, fun op hop => (hvalid op hop).2⟩

/-! ### The system file -/

/-- The numbers and texts of a section that are converted and that the replay never looks at. -/
def convertMembers (section_ : Json) (numbers texts : List String) : Except String Unit := do
  numbers.forM fun key => do
    let _ ← (← section_.field key).asUInt
  texts.forM fun key => do
    let _ ← (← section_.field key).asString

/-- The options of `synthetic_npu` whose text is checked later. -/
structure NpuTexts where
  granularity : String := "macro"
  backend : String := "analytic"
  channelModel : String := "native"

def readSyntheticNpu (root : Json) : Except String (SyntheticNPUInfo × NpuTexts) := do
  let synthetic ← root.field "synthetic_npu"
  if synthetic.isNull then
    return ({}, {})
  convertMembers synthetic ["weight_read_bytes_per_layer"] []
  let info : SyntheticNPUInfo := {
    enabled := ← (← synthetic.get "enabled" (.bool false)).asBool
    computeNsPerLayer := ← (← synthetic.get "compute_ns_per_layer" (.int 0)).asUInt
    outputWriteBytesPerLayer := ← (← synthetic.get "output_write_bytes_per_layer" (.int 0)).asUInt
    maxInflightRequests := ← (← synthetic.get "max_inflight_requests" (.int 256)).asUInt
    modelProfile := ← (← synthetic.get "model_profile" (.str "")).asString
    fastLayerMode := ← (← synthetic.get "fast_layer_mode" (.bool false)).asBool
    fastMemoryChannelEfficiency :=
      ← (← synthetic.get "fast_memory_channel_efficiency" (.real 1 "1.0")).asDouble
    dramMacroCalibrationRequests :=
      ← (← synthetic.get "dram_macro_calibration_requests" (.int 4096)).asUInt
    fastMemoryBandwidthGBps :=
      ← (← synthetic.get "fast_memory_bandwidth_GBps" (.real (128 / 5) "25.6")).asDouble
    fastMemoryFixedLatencyNs :=
      ← (← synthetic.get "fast_memory_fixed_latency_ns" (.int 100)).asUInt
    analyticalComputeEnabled :=
      ← (← synthetic.get "analytical_compute_enabled" (.bool true)).asBool
    macsPerCycle := ← (← synthetic.get "macs_per_cycle" (.int 1024)).asUInt
    computeFrequencyGHz :=
      ← (← synthetic.get "compute_frequency_GHz" (.real (1 / 2) "0.5")).asDouble}
  let texts : NpuTexts := {
    granularity := ← (← synthetic.get "fast_layer_granularity" (.str "macro")).asString
    backend := ← (← synthetic.get "fast_memory_backend" (.str "analytic")).asString
    channelModel := ← (← synthetic.get "fast_memory_channel_model" (.str "native")).asString}
  reject (info.macsPerCycle = 0 ∨ info.computeFrequencyGHz ≤ 0)
    "synthetic_npu MAC throughput and frequency must be positive"
  return (info, texts)

def readSyntheticPim (root : Json) : Except String (SyntheticPIMInfo × String) := do
  let synthetic ← root.field "synthetic_pim"
  if synthetic.isNull then
    return ({}, "macro")
  convertMembers synthetic ["layer_count", "compute_ns_per_layer", "commands_per_layer"] ["command"]
  let info : SyntheticPIMInfo := {
    enabled := ← (← synthetic.get "enabled" (.bool false)).asBool
    modelProfile := ← (← synthetic.get "model_profile" (.str "")).asString
    aggregateMicroCommands := ← (← synthetic.get "aggregate_micro_commands" (.bool false)).asBool
    fastLayerMode := ← (← synthetic.get "fast_layer_mode" (.bool false)).asBool}
  return (info, ← (← synthetic.get "fast_layer_granularity" (.str "macro")).asString)

def readGranularity (who text : String) : Except String Granularity :=
  oneOf [("macro", .macro_), ("layer", .layer)]
    (who ++ ".fast_layer_granularity must be \"macro\" or \"layer\", got: " ++ text) text

def readSpeculative (root : Json) : Except String SpeculativeInfo := do
  let spec ← root.field "speculative"
  if spec.isNull then
    return {}
  convertMembers spec ["scenario_id"] []
  let info : SpeculativeInfo := {
    controlTraceFile := ← (← spec.get "control_trace_file" (.str "")).asString
    sampleIndex := ← (← spec.get "sample_index" (.int (-1))).asInt
    skipWarmupIterations := ← (← spec.get "skip_warmup_iterations" (.int 0)).asUInt
    maxControlIterations := ← (← spec.get "max_control_iterations" (.int 0)).asUInt
    excludePrefill := ← (← spec.get "exclude_prefill" (.bool false)).asBool
    draftProfileLayer := ← (← spec.get "draft_profile_layer" (.str "D_K0")).asString}
  reject (info.sampleIndex < -1) "speculative.sample_index must be -1 or non-negative"
  return info

/-- The checks of the fast memory model, and what its texts name. -/
def checkFastMemory (npu : SyntheticNPUInfo) (texts : NpuTexts) : Except String SyntheticNPUInfo := do
  reject (npu.fastLayerMode ∧ npu.fastMemoryBandwidthGBps ≤ 0)
    "synthetic_npu.fast_memory_bandwidth_GBps must be positive"
  let backend ← oneOf [("analytic", .analytic), ("dramsim3_calibrated", .dramsim3Calibrated)]
    "synthetic_npu.fast_memory_backend must be \"analytic\" or \"dramsim3_calibrated\"" texts.backend
  let channelModel ← oneOf [("native", .native), ("linear_logical", .linearLogical)]
    "synthetic_npu.fast_memory_channel_model must be \"native\" or \"linear_logical\""
    texts.channelModel
  reject (npu.fastMemoryChannelEfficiency ≤ 0 ∨ 1 < npu.fastMemoryChannelEfficiency)
    "synthetic_npu.fast_memory_channel_efficiency must be in (0, 1]"
  reject (backend = .dramsim3Calibrated ∧ npu.dramMacroCalibrationRequests < 2)
    "synthetic_npu.dram_macro_calibration_requests must be at least 2"
  return {npu with
    fastMemoryBackend := backend
    fastMemoryChannelModel := channelModel}

def memoryStructures : List (String × MemoryStructure) :=
  [("baseline", .baseline), ("partitioned", .partitioned), ("unified", .unified)]

/-- `init_system`. The replay only supports the speculative execution mode, so the
checks that mode asks for are made of every configuration. -/
def initSystem (files : Files) : Except String SystemInfo := do
  let root ← files "system"
  let arch ← root.field "architecture"
  let work ← root.field "workload"
  let freq ← root.field "frequency"
  let structureName ← (← arch.field "memory_structure").asString
  let (npu, texts) ← readSyntheticNpu root
  let (pim, pimText) ← readSyntheticPim root
  let npuGranularity ← readGranularity "synthetic_npu" texts.granularity
  let pimGranularity ← readGranularity "synthetic_pim" pimText
  let targetModel ← (← work.field "model").asString
  let executionMode ← (← work.get "execution_mode" (.str "speculative")).asString
  reject (executionMode ≠ "speculative") "This artifact supports execution_mode=speculative only"
  convertMembers work ["attention_head", "scenario_id", "output_sequence_length", "decoder_block"] []
  let inputSequenceLength ← (← work.field "input_sequence_length").asUInt
  let speculative ← readSpeculative root
  reject (speculative.controlTraceFile = "")
    "speculative.control_trace_file is required in speculative mode"
  reject (npu.enabled = false) "speculative mode requires synthetic_npu.enabled=true"
  reject (npu.enabled ∧ npu.maxInflightRequests = 0)
    "synthetic_npu.max_inflight_requests must be non-zero"
  let npu ← checkFastMemory npu texts
  reject (npu.modelProfile = "" ∨ pim.modelProfile = "")
    "speculative mode requires synthetic_npu/pim model_profile"
  let targetLayerProfile ← loadModelLayerProfile files npu.modelProfile
  let draftLayerProfile ← loadModelLayerProfile files pim.modelProfile
  let hostFrequency ← (← freq.field "host").asDouble
  convertMembers root [] ["cycle_log_file", "performance_stats_file"]
  let memoryStructure ← oneOf memoryStructures ("Invalid memory_structure: " ++ structureName)
    structureName
  return {
    memoryStructure := memoryStructure
    hostFrequency := hostFrequency
    targetModel := targetModel
    inputSequenceLength := inputSequenceLength
    syntheticNpu := {npu with fastLayerGranularity := npuGranularity}
    syntheticPim := {pim with fastLayerGranularity := pimGranularity}
    speculative := speculative
    targetLayerProfile := targetLayerProfile
    draftLayerProfile := draftLayerProfile}

/-! ### The PIM profile -/

/-- The share of the one-channel latency that remains with more channels: the serial
part, and the parallel part over the channels it makes use of. -/
def channelLatencyScale (pimChannels : UInt32) (operation : String) (scaling : Json) :
    Except String Rat := do
  if scaling.isNull then
    return 1
  let parallelFraction ← (← scaling.get "parallel_fraction" (.real 0 "0.0")).asDouble
  let efficiency ← (← scaling.get "efficiency" (.real 1 "1.0")).asDouble
  let saturationChannels ← (← scaling.get "saturation_channels" (.int 1)).asUInt
  reject (parallelFraction < 0 ∨ 1 < parallelFraction ∨ efficiency < 0 ∨ 1 < efficiency ∨
    saturationChannels = 0) ("Invalid channel_scaling for PIM operation: " ++ operation)
  let activeChannels := min pimChannels saturationChannels
  let effectiveChannels := 1 + efficiency * (activeChannels - 1).toNat
  return (1 - parallelFraction) + parallelFraction / effectiveChannels

/-- A member of a command entry that has to be there and has to be of its kind. -/
def requireMember (operation key : String) (ofKind : Json → Bool) (entry : Json) :
    Except String Json := do
  let message := "Missing or invalid '" ++ key ++ "' in operation '" ++ operation ++ "'"
  reject ((← entry.isMember key) = false) message
  let value ← entry.field key
  reject (ofKind value = false) message
  return value

/-- One entry of an operation's command list: its number of output tiles, or a command. -/
def readCommand (operation : String) (acc : PIMCmdProfile × Option UInt32) (entry : Json) :
    Except String (PIMCmdProfile × Option UInt32) := do
  if ← entry.isMember "output_tile" then
    let tiles ← entry.field "output_tile"
    reject (tiles.isUInt = false)
      ("Invalid 'output_tile' value in operation '" ++ operation ++ "'")
    return (acc.1, some (← tiles.asUInt))
  let name ← requireMember operation "name" Json.isString entry
  let latency ← requireMember operation "latency" Json.isUInt entry
  let count ← requireMember operation "count" Json.isUInt entry
  let cost : DelayCount := {
    delay := ← latency.asUInt
    count := ← count.asUInt}
  return (acc.1.push (← name.asString) cost, acc.2)

/-- The profile of one layer name, with the tile count its commands give, if any. -/
def readPimLayer (pimChannels : UInt32) (root layers : Json) (name : String) :
    Except String (String × PIMCmdProfile × Option UInt32) := do
  let operation ← (← layers.field name).asString
  let commands ← (← root.field "operations").field operation
  let scalings ← root.field "channel_scaling"
  let scaling ←
    if scalings.isNull then pure .null
    else if ← scalings.isMember operation then scalings.field operation
    else scalings.field "default"
  let scale ← channelLatencyScale pimChannels operation scaling
  let (profile, tiles) ← commands.elements.foldlM (readCommand operation)
    ({channelLatencyScale := scale}, none)
  return (name, profile, tiles)

/-- The name of the PIM profile for a workload. -/
def pimProfileName (pimType : String) (inputSequenceLength : UInt32) (targetModel : String) : String :=
  "profile/" ++ pimType ++
    (if inputSequenceLength = 1024 then "_1024"
    else if inputSequenceLength = 512 then "_512" else "") ++
    (if targetModel = "gemma2-9B" then "_9b" else "")

/-- The host's latencies only have to be readable: no speculative replay uses them. -/
def initHostProfile (files : Files) : Except String Unit := do
  let host ← (← files "profile/host").field "host"
  for op in ← host.getMemberNames do
    let _ ← (← host.field op).asUInt

/-- `init_dram`, with `init_pim_profile`. -/
def initDram (files : Files) (system : SystemInfo) : Except String Configurations := do
  let root ← files "memory"
  let dram ← root.field "dram"
  let pim ← root.field "pim"
  let dramReqSize ← (← root.field "request_size").asUInt
  convertMembers dram ["capacity"] ["backend", "memory_type", "chip_config", "timing_preset"]
  let dramChannels ← (← dram.field "num_channels").asUInt
  let dramFrequency ← (← dram.field "clock_freq").asDouble
  convertMembers pim ["capacity"] ["backend", "chip_config", "timing_preset"]
  let pimType ← (← pim.field "memory_type").asString
  let pimChannels ← (← pim.field "num_channels").asUInt
  let pimFrequency ← (← pim.field "clock_freq").asDouble
  initHostProfile files
  let profile ← files (pimProfileName pimType system.inputSequenceLength system.targetModel)
  let delays ← profile.field "mode_change_delay"
  let pimToDram ← (← delays.field "PIM_to_DRAM").asUInt
  let dramToPim ← (← delays.field "DRAM_to_PIM").asUInt
  let layers ← profile.field "layers"
  let entries ← (← layers.getMemberNames).mapM (readPimLayer pimChannels profile layers)
  return {
    toSystemInfo := system
    dramReqSize := dramReqSize
    dramFrequency := dramFrequency
    pimFrequency := pimFrequency
    dramChannels := dramChannels
    pimChannels := pimChannels
    layerTileMap := entries.filterMap fun e => e.2.2.map (e.1, ·)
    pimProfile := entries.map fun e => (e.1, e.2.1)
    modeChangeDelay := (pimToDram, dramToPim)}

def initConfigurations (files : Files) : Except String Configurations := do
  initDram files (← initSystem files)

/-! ### What is accepted -/

theorem checkFastMemory_window {npu npu' : SyntheticNPUInfo} {texts : NpuTexts}
    (h : checkFastMemory npu texts = .ok npu') : npu'.maxInflightRequests = npu.maxInflightRequests := by
  simp only [checkFastMemory, bind_eq_ok] at h
  obtain ⟨_, _, _, _, _, _, _, _, _, _, h⟩ := h
  cases h
  rfl

theorem initSystem_window {files : Files} {c : SystemInfo} (h : initSystem files = .ok c) :
    c.syntheticNpu.maxInflightRequests ≠ 0 := by
  simp only [initSystem, bind_eq_ok, reject_eq_ok] at h
  -- the system file is read, then the checks of the NPU are made
  obtain ⟨_, -, _, -, _, -, _, -, _, -, _, -, npu, -, _, -, _, -, _, -, _, -, _, -, _, -, _, -, _, -, h⟩ := h
  obtain ⟨_, -, _, -, _, -, _, -, _, -, _, henabled, _, hwindow, _, hchecked, h⟩ := h
  obtain ⟨_, -, _, -, _, -, _, -, _, -, _, -, _, -, h⟩ := h
  cases h
  rw [checkFastMemory_window hchecked]
  simp_all

theorem initDram_system {files : Files} {system : SystemInfo} {c : Configurations}
    (h : initDram files system = .ok c) : c.toSystemInfo = system := by
  simp only [initDram, bind_eq_ok] at h
  obtain ⟨_, -, _, -, _, -, _, -, _, -, _, -, _, -, _, -, _, -, _, -, _, -, _, -, _, -, _, -, h⟩ := h
  obtain ⟨_, -, _, -, _, -, _, -, _, -, _, -, _, -, _, -, _, -, _, -, _, -, _, -, _, -, h⟩ := h
  cases h
  rfl

/-- No accepted configuration has an empty window. -/
theorem initConfigurations_window {files : Files} {c : Configurations}
    (h : initConfigurations files = .ok c) : c.syntheticNpu.maxInflightRequests ≠ 0 := by
  obtain ⟨system, hsystem, hdram⟩ := bind_eq_ok.mp h
  rw [initDram_system hdram]
  exact initSystem_window hsystem

end Hsim
