import Hsim.TraceGenerator

/-! What the host issues for a control record, `Host::handle_speculative_trace`.

A record starts the target verification on the NPU and then puts the draft's PIM
work on the queue: one transaction for each micro command, or, when micro commands
are aggregated, one for each model operation. The last transaction of a record is
marked, by its position against a count made beforehand. -/
namespace Hsim.Host

open TraceGenerator (SpeculativeControl)

/-- What the host reads of the configuration. -/
structure Config where
  syntheticPim : SyntheticPIMInfo
  draftLayerProfile : ModelLayerProfile
  pimProfile : List (String × PIMCmdProfile)
  tileCntByLayer : List (String × UInt32)
  draftProfileLayer : String

def Config.of (c : Configurations) : Config where
  syntheticPim := c.syntheticPim
  draftLayerProfile := c.draftLayerProfile
  pimProfile := c.pimProfile
  tileCntByLayer := c.layerTileMap
  draftProfileLayer := c.speculative.draftProfileLayer

structure DraftWorkItem where
  contextTokens : UInt32
  treeStep : UInt32 := 0
  branchDepth : UInt32
  branchIndex : UInt32 := 0
  deriving DecidableEq, Repr

/-- The draft's forward passes: the fan-out of every tree step for SSD, a chain of
proposals for PEARL. -/
def draftWorkItems (control : SpeculativeControl) : List DraftWorkItem :=
  if control.algorithm = "ssd" then
    (List.range control.draftTreeSteps.toNat).flatMap fun treeStep =>
      control.draftFanOutList.zipIdx.flatMap fun (fanOut, branchDepth) =>
        (List.range fanOut.toNat).map fun branchIndex => {
          contextTokens := control.draftKvCacheTokens + .ofNat branchDepth + .ofNat treeStep
          treeStep := .ofNat treeStep
          branchDepth := .ofNat branchDepth
          branchIndex := .ofNat branchIndex}
  else
    (List.range control.draftProposalCount.toNat).map fun proposal => {
      contextTokens := control.draftKvCacheTokens + .ofNat proposal
      branchDepth := .ofNat proposal}

/-! ### Labels -/

def samplePrefix (control : SpeculativeControl) : String :=
  "sample" ++ toString control.sampleIndex.toNat ++ ".iter" ++ toString control.iteration.toNat

def workLabel (control : SpeculativeControl) (work : DraftWorkItem) : String :=
  if control.algorithm = "ssd" then
    ".tree_step" ++ toString work.treeStep.toNat ++ ".depth" ++ toString work.branchDepth.toNat ++
      ".branch" ++ toString work.branchIndex.toNat
  else ".proposal" ++ toString work.branchDepth.toNat

/-! ### Transactions of one operation -/

/-- `generate_trans` for a PIM command, but for the identity and the last flag. -/
def generateTrans (addr burstId burstSize : UInt32) (layer microCmd : String) : Payload where
  ptr := 0
  command := .pim
  address := addr.toUInt64
  bstSize := burstSize
  bstId := burstId
  srcId := .host
  dstId := .pim
  layer := layer
  pimCmd := microCmd

/-- `std::round`: to the nearest integer, halves away from zero. -/
def round (x : Rat) : Int := if 0 ≤ x then (x + 1 / 2).floor else (x - 1 / 2).ceil

/-- The delay of one micro command on the configured channels. -/
def scaledDelay (profile : PIMCmdProfile) (delay : UInt32) : UInt32 :=
  .ofNat (max 1 (round (delay.toNat * profile.channelLatencyScale))).toNat

/-- The micro commands of all tiles, in order. -/
def microTransactions (profile : PIMCmdProfile) (tileCount : UInt32) (layer : String) : List Payload :=
  (List.range tileCount.toNat).flatMap fun _ =>
    profile.orderedCmdName.flatMap fun name =>
      let cost := profile.get name
      (List.range cost.count.toNat).map fun burst =>
        generateTrans (scaledDelay profile cost.delay) (.ofNat burst) cost.count layer name

/-- The latencies of the tile-expanded stream, and the number of its commands, each
added up in 64 bits. -/
def summedDelayNs (profile : PIMCmdProfile) (tileCount layerMultiplier : UInt32) : UInt64 :=
  (profile.orderedCmdName.map fun name =>
    (profile.get name).delay.toUInt64 * (profile.get name).count.toUInt64 * tileCount.toUInt64 *
      layerMultiplier.toUInt64).sum

def microCommandCount (profile : PIMCmdProfile) (tileCount layerMultiplier : UInt32) : UInt64 :=
  (profile.orderedCmdName.map fun name =>
    (profile.get name).count.toUInt64 * tileCount.toUInt64 * layerMultiplier.toUInt64).sum

/-- The delay of the aggregated stream. The half nanosecond each command adds is part of
the scaled total; the macro's own is taken off. -/
def macroDelayNs (profile : PIMCmdProfile) (tileCount layerMultiplier : UInt32) : UInt64 :=
  let scaledTotalNs : Rat :=
    ((summedDelayNs profile tileCount layerMultiplier).toNat +
      1 / 2 * (microCommandCount profile tileCount layerMultiplier).toNat) *
      profile.channelLatencyScale
  .ofNat (max 0 (round (scaledTotalNs - 1 / 2))).toNat

/-- One transaction for the whole stream. Its delay is carried in 32 bits. -/
def macroTransaction (profile : PIMCmdProfile) (tileCount layerMultiplier : UInt32)
    (layer opName : String) : Payload :=
  generateTrans (macroDelayNs profile tileCount layerMultiplier).toUInt32 0 1 layer
    ("macro(" ++ toString layerMultiplier.toNat ++ "x" ++ opName ++ ")")

/-! ### The draft's transactions -/

namespace Config
variable (cfg : Config)

def aggregateMicro : Bool :=
  cfg.syntheticPim.aggregateMicroCommands || cfg.syntheticPim.fastLayerMode

def collapseLayers : Bool :=
  cfg.syntheticPim.fastLayerMode && cfg.syntheticPim.fastLayerGranularity == .macro_

def simulatedLayerCount : UInt32 :=
  if cfg.collapseLayers then 1 else cfg.draftLayerProfile.layerCount

def layerMultiplier : UInt32 :=
  if cfg.collapseLayers then cfg.draftLayerProfile.layerCount else 1

/-- How many tiles an attention product has, by its context. -/
def draftAttentionTiles (op : ModelOperationInfo) (work : DraftWorkItem) : Except String UInt32 :=
  let tileTokens := cfg.draftLayerProfile.attentionContextTileTokens
  if op.name ≠ "qkt" ∧ op.name ≠ "sv" then .ok 1
  else if tileTokens = 0 then .error "integer division by zero"
  else .ok (max 1 ((work.contextTokens + tileTokens - 1) / tileTokens))

/-- The profile of an operation and its output tiles. Operations without one are
skipped. -/
def operation? (op : ModelOperationInfo) : Option (PIMCmdProfile × UInt32) := do
  return (← cfg.pimProfile.lookup op.name, ← cfg.tileCntByLayer.lookup op.name)

def commandsPerTile (profile : PIMCmdProfile) : UInt64 :=
  (profile.orderedCmdName.map fun name => (profile.get name).count.toUInt64).sum

/-- What one work item and operation add to the count of transactions of a layer. -/
def countOperation (work : DraftWorkItem) (op : ModelOperationInfo) : Except String UInt64 :=
  match cfg.operation? op with
  | none => .ok 0
  | some (profile, tiles) =>
    if cfg.aggregateMicro then .ok 1
    else do return (tiles * (← cfg.draftAttentionTiles op work)).toUInt64 * commandsPerTile profile

def perDecoderLayerTransactions (works : List DraftWorkItem) : Except String UInt64 := do
  let counts ← works.mapM fun work => cfg.draftLayerProfile.operations.mapM (cfg.countOperation work)
  return (counts.map List.sum).sum

def operationTransactions (control : SpeculativeControl) (work : DraftWorkItem) (layerId : Nat)
    (op : ModelOperationInfo) : Except String (List Payload) :=
  match cfg.operation? op with
  | none => .ok []
  | some (profile, tiles) => do
    let tileCount := tiles * (← cfg.draftAttentionTiles op work)
    let layer := "draft_pim." ++ samplePrefix control ++ workLabel control work ++
      (if cfg.collapseLayers then ".macro" else ".layer" ++ toString layerId) ++ ".op." ++ op.name
    return if cfg.aggregateMicro then
      [macroTransaction profile tileCount cfg.layerMultiplier layer op.name]
    else microTransactions profile tileCount layer

/-- The loop over work items, layers and operations. -/
def draftTransactions (control : SpeculativeControl) : Except String (List Payload) := do
  let transactions ← (draftWorkItems control).mapM fun work =>
    (List.range cfg.simulatedLayerCount.toNat).mapM fun layerId =>
      cfg.draftLayerProfile.operations.mapM (cfg.operationTransactions control work layerId)
  return transactions.flatten.flatten.flatten

/-- `trans->set_last(++index == total)` along the emission. -/
def markLast (total : UInt64) (transactions : List Payload) : List Payload :=
  transactions.mapIdx fun i t => {t with last := UInt64.ofNat (i + 1) == total}

/-- A queue the address space does not hold: an allocation on the way fails. -/
def allocated (transactions : List Payload) : Except String (List Payload) := do
  reject (2 ^ 64 ≤ transactions.length) "std::bad_alloc"
  return transactions

/-- The PIM work of a record with the synthetic PIM. -/
def syntheticEmission (control : SpeculativeControl) : Except String (List Payload) := do
  reject (cfg.draftLayerProfile.layerCount = 0) "Synthetic PIM model profile has no decoder layers"
  let perLayer ← cfg.perDecoderLayerTransactions (draftWorkItems control)
  let total := perLayer * cfg.simulatedLayerCount.toUInt64
  reject (total = 0) "No draft PIM operations match the active LPDDR5 profile"
  return markLast total (← allocated (← cfg.draftTransactions control))

/-- The PIM work of a record from one template profile. -/
def templateEmission (control : SpeculativeControl) : Except String (List Payload) := do
  match cfg.pimProfile.lookup cfg.draftProfileLayer, cfg.tileCntByLayer.lookup cfg.draftProfileLayer with
  | some profile, some tileCount =>
    let works := draftWorkItems control
    let total := UInt64.ofNat works.length * tileCount.toUInt64 * commandsPerTile profile
    return markLast total (← allocated (works.flatMap fun work =>
      microTransactions profile tileCount (cfg.draftProfileLayer ++ workLabel control work)))
  | _, _ => throw ("Missing PIM draft template: " ++ cfg.draftProfileLayer)

def emission (control : SpeculativeControl) : Except String (List Payload) :=
  if cfg.syntheticPim.enabled then cfg.syntheticEmission control else cfg.templateEmission control

/-- The launch of the target verification, which carries its token counts. -/
def launch (control : SpeculativeControl) : Payload where
  ptr := 0
  command := .compute
  address := control.targetKvWriteTokens.toUInt64
  dataLength := control.targetKvCacheTokens
  bstSize := control.targetQueryTokens
  srcId := .host
  dstId := .npu
  layer := "target." ++ samplePrefix control

end Config

end Hsim.Host
