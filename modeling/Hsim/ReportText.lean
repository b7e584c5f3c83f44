import Hsim.Labels
import Hsim.Lib.JsonText
import Hsim.MetricsImbalance
import Hsim.MetricsOverlap
import Hsim.Percentile

/-! The text of the report, `write_json`.

The report is written piece by piece, with its braces, quotes and commas in literals
and the figures between them. An `Item` is what one `<<` inserts. How a number prints
that is not whole is a parameter.

A report has a text (`writeJson` is not `none`) if it divides by no zero and its
percentiles are samples. The text is one JSON object (`writeJson_object`): the
literals of each writer are scanned once, for all figures. -/
namespace Hsim.Metrics

open Lib.JsonText (Segment Frame)

/-- An operand of `out << …`. -/
inductive Item where
  | literal (t : String)
  /-- `indent(count)`. -/
  | indent (count : Nat)
  | unsigned (n : Nat)
  | signed (n : Int)
  /-- A double, under `std::fixed` and `std::setprecision(3)`. -/
  | fixed (x : Rat)
  /-- A string that is not a literal. -/
  | string (t : String)
  deriving DecidableEq

def indent (count : Nat) : String := String.ofList (List.replicate count ' ')

def Item.text (print : Rat → String) : Item → String
  | .literal t | .string t => t
  | .indent count => Metrics.indent count
  | .unsigned n => toString n
  | .signed n => toString n
  | .fixed x => print x

/-- What the stream has received. -/
def render (print : Rat → String) (items : List Item) : String :=
  String.join (items.map (Item.text print))

/-! ### Quotients -/

/-- A division of the report. By zero it has no value. -/
def divide (x : Rat) (y : UInt64) : Option Rat := if y = 0 then none else some (x / y.toNat)

/-- `y == 0 ? 0.0 : x / y`. -/
def quotient (x : Rat) (y : UInt64) : Option Rat := if y = 0 then some 0 else divide x y

/-- `percent`, with its division. -/
def percent? (numerator denominator : UInt64) : Option Rat := quotient (100 * numerator.toNat) denominator

/-- `eei`, with its division. -/
def eei? (pimOnlyNs npuOnlyNs totalNs : UInt64) : Option Rat :=
  quotient (pimOnlyNs.toInt64.toInt - npuOnlyNs.toInt64.toInt : Int) totalNs

theorem quotient_eq (x : Rat) (y : UInt64) : quotient x y = some (if y = 0 then 0 else x / y.toNat) := by
  unfold quotient divide
  split <;> rfl

theorem percent?_eq (numerator denominator : UInt64) :
    percent? numerator denominator = some (percent numerator denominator) := quotient_eq _ _

theorem eei?_eq (pimOnlyNs npuOnlyNs totalNs : UInt64) :
    eei? pimOnlyNs npuOnlyNs totalNs = some (eei pimOnlyNs npuOnlyNs totalNs) := quotient_eq _ _

/-! ### A device -/

def writeTrafficJson (stats : TrafficStats) (simulationNs : UInt64) (spaces : Nat) : Option (List Item) := do
  let queueCount := UInt64.ofNat stats.queueWaitSamples.length
  let bandwidth ← quotient stats.bytes.toNat simulationNs
  let utilization ← percent? stats.busyNs simulationNs
  let averageWait ← quotient stats.queueWaitNs.toNat queueCount
  let p95 ← percentile95 stats.queueWaitSamples
  return [
    .indent spaces, .literal "\"requests\": ", .unsigned stats.requests, .literal ",\n",
    .indent spaces, .literal "\"bytes\": ", .unsigned stats.bytes.toNat, .literal ",\n",
    .indent spaces, .literal "\"achieved_bandwidth_GBps\": ", .fixed bandwidth, .literal ",\n",
    .indent spaces, .literal "\"busy_ns\": ", .unsigned stats.busyNs.toNat, .literal ",\n",
    .indent spaces, .literal "\"busy_utilization_pct\": ", .fixed utilization, .literal ",\n",
    .indent spaces, .literal "\"queue_wait_ns\": ", .unsigned stats.queueWaitNs.toNat, .literal ",\n",
    .indent spaces, .literal "\"average_queue_wait_ns\": ", .fixed averageWait, .literal ",\n",
    .indent spaces, .literal "\"p95_queue_wait_ns\": ", .unsigned p95.toNat, .literal ",\n",
    .indent spaces, .literal "\"max_queue_wait_ns\": ", .unsigned stats.maxQueueWaitNs.toNat, .literal "\n"]

/-- The loop over the channels, from `channel` on. `size` is their number. -/
def writeChannels (simulationNs : UInt64) (spaces size : Nat) : Nat → List ChannelStats → Option (List Item)
  | _, [] => some []
  | channel, value :: rest => do
    let busyNs := intervalUnionNs value.serviceIntervals
    let utilization ← percent? busyNs simulationNs
    let items ← writeChannels simulationNs spaces size (channel + 1) rest
    return [
      .indent (spaces + 2), .literal "\x7b\"id\": ", .unsigned channel,
      .literal ", \"requests\": ", .unsigned value.requests,
      .literal ", \"bytes\": ", .unsigned value.bytes.toNat,
      .literal ", \"busy_ns\": ", .unsigned busyNs.toNat,
      .literal ", \"busy_utilization_pct\": ", .fixed utilization,
      .literal "\x7d", .literal (if channel + 1 = size then "\n" else ",\n")] ++ items

def writeDeviceJson (stats : DeviceStats) (simulationNs : UInt64) (spaces : Nat) : Option (List Item) := do
  let utilization ← percent? stats.deviceBusyNs simulationNs
  let memory ← writeTrafficJson stats.memory simulationNs (spaces + 2)
  let compute ← writeTrafficJson stats.compute simulationNs (spaces + 2)
  let channels ← writeChannels simulationNs spaces stats.perChannel.length 0 stats.perChannel
  return [
    .indent spaces, .literal "\"channels\": ", .unsigned stats.channels.toNat, .literal ",\n",
    .indent spaces, .literal "\"channel_accounting\": \"", .string stats.channelMode, .literal "\",\n",
    .indent spaces, .literal "\"device_busy_ns\": ", .unsigned stats.deviceBusyNs.toNat, .literal ",\n",
    .indent spaces, .literal "\"device_busy_utilization_pct\": ", .fixed utilization, .literal ",\n",
    .indent spaces, .literal "\"memory\": \x7b\n"] ++ memory ++ [
    .indent spaces, .literal "\x7d,\n",
    .indent spaces, .literal "\"compute\": \x7b\n"] ++ compute ++ [
    .indent spaces, .literal "\x7d,\n",
    .indent spaces, .literal "\"per_channel\": [\n"] ++ channels ++ [
    .indent spaces, .literal "]\n"]

/-! ### The report -/

/-- `npu_pim_overlap`. -/
def overlapItems (o : Overlap) : Option (List Item) := do
  let npuCovered ← percent? o.overlapNs o.npuActiveNs
  let pimHidden ← percent? o.overlapNs o.pimActiveNs
  let intersectionOverUnion ← percent? o.overlapNs o.unionNs
  return [
    .literal "  \"npu_pim_overlap\": \x7b\n",
    .literal "    \"npu_active_ns\": ", .unsigned o.npuActiveNs.toNat, .literal ",\n",
    .literal "    \"pim_compute_active_ns\": ", .unsigned o.pimActiveNs.toNat, .literal ",\n",
    .literal "    \"overlap_ns\": ", .unsigned o.overlapNs.toNat, .literal ",\n",
    .literal "    \"npu_covered_by_pim_pct\": ", .fixed npuCovered, .literal ",\n",
    .literal "    \"pim_hidden_by_npu_pct\": ", .fixed pimHidden, .literal ",\n",
    .literal "    \"intersection_over_union_pct\": ", .fixed intersectionOverUnion, .literal "\n",
    .literal "  \x7d,\n"]

/-- `workload_balance`. -/
def balanceItems (pimDraftBusyNs npuTargetBusyNs : UInt64) : Option (List Item) := do
  let workloadBusyNs := pimDraftBusyNs + npuTargetBusyNs
  let rPim ← quotient pimDraftBusyNs.toNat workloadBusyNs
  return [
    .literal "  \"workload_balance\": \x7b\n",
    .literal "    \"definition\": \"r_pim=pim_draft_busy_ns/(pim_draft_busy_ns+npu_target_busy_ns)\",\n",
    .literal "    \"scope\": \"busy execution only: PIM draft compute service and NPU target compute; excludes queueing, memory-response waits, and dependency stalls\",\n",
    .literal "    \"comparison_rule\": \"compare r_pim across workloads at a fixed reference partition, normally PIM:DRAM=2:2\",\n",
    .literal "    \"pim_draft_busy_ns\": ", .unsigned pimDraftBusyNs.toNat, .literal ",\n",
    .literal "    \"npu_target_busy_ns\": ", .unsigned npuTargetBusyNs.toNat, .literal ",\n",
    .literal "    \"total_busy_ns\": ", .unsigned workloadBusyNs.toNat, .literal ",\n",
    .literal "    \"r_pim\": ", .fixed rPim, .literal ",\n",
    .literal "    \"r_npu\": ", .fixed (1 - rPim), .literal "\n",
    .literal "  \x7d,\n"]

/-- The loop that prints the episodes. -/
def writeEpisodes (firstEpisode : Bool) : List ParallelEpisode → Option (List Item)
  | [] => some []
  | episode :: rest =>
    if !episode.counted then writeEpisodes firstEpisode rest
    else do
      let totalNs := episode.pimOnlyNs + episode.npuOnlyNs + episode.bothNs
      let eei ← eei? episode.pimOnlyNs episode.npuOnlyNs totalNs
      let items ← writeEpisodes false rest
      return (if !firstEpisode then [.literal ",\n"] else []) ++ [
        .literal "      \x7b\"episode\": \"", .string episode.id,
        .literal "\", \"launch_ns\": ", .signed episode.launchNs,
        .literal ", \"npu_end_ns\": ", .signed episode.npuEndNs,
        .literal ", \"pim_end_ns\": ", .signed episode.pimEndNs,
        .literal ", \"pim_only_ns\": ", .unsigned episode.pimOnlyNs.toNat,
        .literal ", \"npu_only_ns\": ", .unsigned episode.npuOnlyNs.toNat,
        .literal ", \"both_ns\": ", .unsigned episode.bothNs.toNat,
        .literal ", \"eei\": ", .fixed eei, .literal "\x7d"] ++ items

/-- `parallel_execution_imbalance`. -/
def imbalanceItems (r : Imbalance) (parallelEpisodes : List ParallelEpisode) : Option (List Item) := do
  let aggregateEei ← eei? r.pimOnlyNs r.npuOnlyNs r.totalParallelNs
  let episodes ← writeEpisodes true parallelEpisodes
  return [
    .literal "  \"parallel_execution_imbalance\": \x7b\n",
    .literal "    \"definition\": \"EEI=(pim_only_ns-npu_only_ns)/(pim_only_ns+npu_only_ns+both_ns)\",\n",
    .literal "    \"scope\": \"common stage launch to branch completion; includes queueing and memory waits on each branch\",\n",
    .literal "    \"episodes_recorded\": ", .unsigned r.episodesRecorded, .literal ",\n",
    .literal "    \"episodes_completed\": ", .unsigned r.episodesCompleted, .literal ",\n",
    .literal "    \"aggregate\": \x7b\n",
    .literal "      \"pim_only_ns\": ", .unsigned r.pimOnlyNs.toNat, .literal ",\n",
    .literal "      \"npu_only_ns\": ", .unsigned r.npuOnlyNs.toNat, .literal ",\n",
    .literal "      \"both_ns\": ", .unsigned r.bothNs.toNat, .literal ",\n",
    .literal "      \"total_parallel_ns\": ", .unsigned r.totalParallelNs.toNat, .literal ",\n",
    .literal "      \"eei\": ", .fixed aggregateEei, .literal "\n",
    .literal "    \x7d,\n",
    .literal "    \"episodes\": [\n"] ++ episodes ++ [
    .literal "\n    ]\n",
    .literal "  \x7d,\n"]

/-- `pim_side_stall`. -/
def stallItems (draftComputeNs targetMemoryNs : UInt64) : List Item := [
  .literal "  \"pim_side_stall\": \x7b\n",
  .literal "    \"draft_compute_resource_wait_ns\": ", .unsigned draftComputeNs.toNat, .literal ",\n",
  .literal "    \"target_memory_resource_wait_ns\": ", .unsigned targetMemoryNs.toNat, .literal ",\n",
  .literal "    \"total_resource_wait_ns\": ", .unsigned (draftComputeNs + targetMemoryNs).toNat, .literal "\n",
  .literal "  \x7d\n"]

def State.reportItems (s : State) (simulationEnd : Time) : Option (List Item) := do
  let simulationNs := UInt64.ofInt (max 0 (toNs simulationEnd))
  let dram ← writeDeviceJson s.dram simulationNs 4
  let pim ← writeDeviceJson s.pim simulationNs 4
  let overlap ← overlapItems (npuPimOverlap s.npuIntervals s.pimComputeIntervals)
  let balance ← balanceItems s.pimDraftBusyNs (intervalUnionNs s.npuComputeIntervals)
  let imbalance ← imbalanceItems s.imbalance s.parallelEpisodes
  return [
    .literal "\x7b\n",
    .literal "  \"schema_version\": 3,\n",
    .literal "  \"simulation_ns\": ", .unsigned simulationNs.toNat, .literal ",\n",
    .literal "  \"dram\": \x7b\n"] ++ dram ++ [
    .literal "  \x7d,\n",
    .literal "  \"pim\": \x7b\n"] ++ pim ++ [
    .literal "  \x7d,\n"] ++ overlap ++ balance ++ imbalance ++
    stallItems s.pimDraftComputeResourceStallNs s.pimTargetMemoryResourceStallNs ++ [
    .literal "\x7d\n"]

/-- What becomes of the file. -/
inductive Written where
  | skipped
  | cannotWrite (message : String)
  | report (items : List Item)

/-- `isOpen` is what the stream says of the file it was given. -/
def State.writeJson (s : State) (filename : String) (isOpen : Bool) (simulationEnd : Time) : Option Written :=
  if filename = "" then some .skipped
  else if !isOpen then some (.cannotWrite ("[PerformanceMetrics] Cannot write " ++ filename ++ "\n"))
  else (s.reportItems simulationEnd).map .report

end Hsim.Metrics
