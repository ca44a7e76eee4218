import TianmaCoder.Agent.InboxConservation
import TianmaCoder.Agent.StreamExpanded
import TianmaCoder.Agent.SystemPrompt
import TianmaCoder.Agent.ToolCallsOrdered
import TianmaCoder.Client.ProjectionOrder
import TianmaCoder.Compaction.FidelityRuns
import TianmaCoder.Compaction.FileStateRuns
import TianmaCoder.Compaction.OffloadDecision
import TianmaCoder.Compaction.OffloadKept
import TianmaCoder.Compaction.OffloadOldest
import TianmaCoder.Compaction.PrunedContent
import TianmaCoder.Compaction.RangeSelection
import TianmaCoder.Compaction.RecencyPolicy
import TianmaCoder.Compaction.ShadowPrices
import TianmaCoder.Compaction.Transacts
import TianmaCoder.Format.AssistantSnapshot
import TianmaCoder.Format.RowCodec
import TianmaCoder.Format.V1ToV2Migrated
import TianmaCoder.Gateway.JournalUnbroken
import TianmaCoder.Gateway.StreamMuxed
import TianmaCoder.Goal.Agreement
import TianmaCoder.Goal.Checkpoint
import TianmaCoder.Goal.Service
import TianmaCoder.Jobs.RingReader
import TianmaCoder.Layout.ClampSizes
import TianmaCoder.Layout.Resize
import TianmaCoder.Lib.DepthFirst
import TianmaCoder.Lib.Schema
import TianmaCoder.Lsp.Chunks
import TianmaCoder.Persistence.ArtifactNames
import TianmaCoder.Persistence.FlushBarrier
import TianmaCoder.Persistence.WritePath
import TianmaCoder.Persistence.ZstdPrefix
import TianmaCoder.Projection.Checkpoint
import TianmaCoder.Schedule.Agreement
import TianmaCoder.Schedule.FixedRate
import TianmaCoder.Schedule.LocalTime
import TianmaCoder.Session.Descent
import TianmaCoder.Session.Replay
import TianmaCoder.Session.StoreLifecycle
import TianmaCoder.Storage.BootstrapKept
import TianmaCoder.Storage.BootstrapLoads
import TianmaCoder.Storage.BootstrapRecords
import TianmaCoder.Storage.BootstrapRun
import TianmaCoder.Storage.BootstrapTree
import TianmaCoder.Storage.PerRecord
import TianmaCoder.Storage.Serialised
import TianmaCoder.Team.LogAccepted
import TianmaCoder.Team.Projection
import TianmaCoder.Team.TaskGraph
import TianmaCoder.Tokens.Calibrated
import TianmaCoder.Tokens.Occupancy
import TianmaCoder.Tokens.UsageScan
import TianmaCoder.Tokens.UsageTotals
import TianmaCoder.Util.JsonCopy
import TianmaCoder.Util.JsonEquality
import TianmaCoder.Util.JsonSnapshot
import TianmaCoder.Util.JsonWalk
import TianmaCoder.Util.RetainedText
