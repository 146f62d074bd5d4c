import RdSpeTool.ProbeTable
import RdSpeTool.Uapi
import RdSpeTool.Thread
import RdSpeTool.Evaluator
import RdSpeTool.ContextCapture
import RdSpeTool.Handlers
import RdSpeTool.HandlerCases
import RdSpeTool.Session
import RdSpeTool.Meter
import RdSpeTool.MeterSteps
import RdSpeTool.Frame
import RdSpeTool.SessionInvariant
import RdSpeTool.ThreadShape
import RdSpeTool.Conservation
import RdSpeTool.Reservoir
import RdSpeTool.Results
import RdSpeTool.ModeIndependence
import RdSpeTool.Reset
import RdSpeTool.Controller
import RdSpeTool.AccessShift
import RdSpeTool.FreshStart
import RdSpeTool.WindowGap
import RdSpeTool.ReuseDistance
import RdSpeTool.Census
import RdSpeTool.LiveRefs
import RdSpeTool.CText
import RdSpeTool.OperandDecoder
import RdSpeTool.EffectiveAddress
import RdSpeTool.ContextTable
import RdSpeTool.ContextIntegrity
import RdSpeTool.Registry
import RdSpeTool.Queries
import RdSpeTool.CheckedHandlers
import RdSpeTool.StateMachine
import RdSpeTool.Bindings
import RdSpeTool.KeyedFiles
import RdSpeTool.ResultFiles
import RdSpeTool.SampleDrain
import RdSpeTool.SpeStream
import RdSpeTool.AuxSpace
import RdSpeTool.Schedule
import RdSpeTool.SamplerThread
import RdSpeTool.WindowCredit
import RdSpeTool.ModuleMaps
import RdSpeTool.Disassembly
import RdSpeTool.Hotspots
import RdSpeTool.LatencyBounds
import RdSpeTool.HotspotSelection
import RdSpeTool.ByteRecords
import RdSpeTool.OfflineAnalysis
import RdSpeTool.AnalysisAgreement
import RdSpeTool.CandidatePartition
import RdSpeTool.WindowCounters
import RdSpeTool.PyText
import RdSpeTool.SourceFrames
import RdSpeTool.DwarfRecords
import RdSpeTool.StackSnapshot
import RdSpeTool.SnapshotTrail
import RdSpeTool.DwarfPipeline
import RdSpeTool.CfiUnwinder
import RdSpeTool.RingPosition
import RdSpeTool.GeneralFormat
import RdSpeTool.HotspotManifest
import RdSpeTool.ManifestFilter
import RdSpeTool.IntervalChain
import RdSpeTool.Log2Buckets
import RdSpeTool.BucketAgreement
import RdSpeTool.CallchainWalk
import RdSpeTool.EvaluatorSafety
import RdSpeTool.PerfMatch
import RdSpeTool.RetiredCounts
import RdSpeTool.ResourceLog
import RdSpeTool.ThreadAttach
import RdSpeTool.WindowStart
import RdSpeTool.ThreadResources
import RdSpeTool.KernelControl
import RdSpeTool.KernelInvariant
import RdSpeTool.HitRouting
import RdSpeTool.AccuracyScore
import RdSpeTool.MonitorSettings
import RdSpeTool.ShellQuoting
import RdSpeTool.KernelLifetime
import RdSpeTool.RunReport
import RdSpeTool.ContextRows
import RdSpeTool.ProfilerRun
import RdSpeTool.ProfilerSetup
import RdSpeTool.MonitorLifetime
import RdSpeTool.OrderedGroups
import RdSpeTool.Ranking
import RdSpeTool.FrameText
import RdSpeTool.PairContexts
import RdSpeTool.DwarfReport
import RdSpeTool.RunInfo
import RdSpeTool.Sections
import RdSpeTool.CallpathReport
import RdSpeTool.CostRanking
import RdSpeTool.AttributionReport
