import Hsim.MetricsLedger
import Hsim.MetricsIntervals
import Hsim.PimExclusion
import Hsim.PimEngine
import Hsim.MemReservation
import Hsim.NpuWorkload
import Hsim.TraceContinuity
import Hsim.PimAggregation
import Hsim.StageIsolation
import Hsim.BridgeTicked
import Hsim.BridgeConservation
import Hsim.Episodes
import Hsim.ArbiterRouting
import Hsim.MetricsBooked
import Hsim.PimClocked
import Hsim.PimBusy
import Hsim.PimContention
import Hsim.Transit
import Hsim.NpuIssue
import Hsim.BridgeAddresses
import Hsim.NpuAddresses
import Hsim.NpuWindow
import Hsim.Launches
import Hsim.Lib.Pool
import Hsim.Pools
import Hsim.Ownership
import Hsim.Lib.Runs
import Hsim.MetricsOverlap
import Hsim.TraceSamples
import Hsim.TraceShape
import Hsim.DraftStage
import Hsim.MemOutstanding
import Hsim.PimSleep
import Hsim.MetricsDesk
import Hsim.Reporting
import Hsim.NpuCalls
import Hsim.ByteAccounting
import Hsim.DraftCommands
import Hsim.DraftLane
import Hsim.MetricsStages
import Hsim.StageReports
import Hsim.StageEpisodes
import Hsim.DraftAccounting
import Hsim.TracePrefill
import Hsim.DramMacroModel
import Hsim.NpuTransfer
import Hsim.DraftTiling
import Hsim.NpuShares
import Hsim.PimExpansion
import Hsim.PimGranularity
import Hsim.MetricsImbalance
import Hsim.BridgeCallbacks
import Hsim.DraftLabels
import Hsim.Logger
import Hsim.PimTimeline
import Hsim.NpuLabels
import Hsim.DraftLog
import Hsim.ConfigPath
import Hsim.EpisodeIds
import Hsim.Lib.Bursts
import Hsim.Lib.Chain
import Hsim.Lib.JsonText
import Hsim.Lib.Ranks
import Hsim.MemoryTrace
import Hsim.Mm
import Hsim.Percentile
import Hsim.ReportJson
import Hsim.WriteAcks
import Hsim.Lib.Cells
import Hsim.Lib.History
import Hsim.Lib.Packing
import Hsim.Lib.SlidingWindow
import Hsim.Dramsim3.Command
import Hsim.Dramsim3.Config
import Hsim.Dramsim3.AddressFields
import Hsim.Dramsim3.Timing
import Hsim.Dramsim3.BankState
import Hsim.Dramsim3.ChannelState
import Hsim.Dramsim3.CommandQueue
import Hsim.Dramsim3.Refresh
import Hsim.Dramsim3.Controller
import Hsim.Dramsim3.Ready
import Hsim.Dramsim3.Moves
import Hsim.Dramsim3.Queues
import Hsim.Dramsim3.Sends
import Hsim.Dramsim3.Lineup
import Hsim.Dramsim3.Total
import Hsim.Dramsim3.Legal
import Hsim.Dramsim3.Memory
import Hsim.Dramsim3.DramSystem
import Hsim.Dramsim3.RefreshOrder
import Hsim.Dramsim3.Turns
import Hsim.Dramsim3.RefreshDelay
import Hsim.Dramsim3.Wedge
import Hsim.Dramsim3.Busy
import Hsim.Dramsim3.RowWork
import Hsim.Dramsim3.Accesses
import Hsim.Dramsim3.Drain
