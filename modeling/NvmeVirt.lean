import NvmeVirt.Lib.Outcome
import NvmeVirt.Lib.Lockstep
import NvmeVirt.Lib.Inverse
import NvmeVirt.Lib.Sums
import NvmeVirt.Lib.Chain
import NvmeVirt.Lib.Ring
import NvmeVirt.Lib.Intervals
import NvmeVirt.Lib.BinaryHeap
import NvmeVirt.Lib.DoWhile
import NvmeVirt.Lib.PrioritySet
import NvmeVirt.Ssd.Params
import NvmeVirt.Ssd.Nand
import NvmeVirt.Ssd.Geometry
import NvmeVirt.Ssd.Addresses
import NvmeVirt.Ssd.Blocks
import NvmeVirt.Pqueue.Basic
import NvmeVirt.Pqueue.Positions
import NvmeVirt.Pqueue.Mirror
import NvmeVirt.Pqueue.Order
import NvmeVirt.Pqueue.Remove
import NvmeVirt.ConvFtl.WritePointer
import NvmeVirt.ConvFtl.Gc
import NvmeVirt.ConvFtl.Write
import NvmeVirt.ConvFtl.Read
import NvmeVirt.ConvFtl.Cleaner
import NvmeVirt.ConvFtl.Lines
import NvmeVirt.Pqueue.Validity
import NvmeVirt.Pqueue.Refinement
import NvmeVirt.ConvFtl.Invariant
import NvmeVirt.ConvFtl.PageMarks
import NvmeVirt.ConvFtl.Walk
import NvmeVirt.ConvFtl.AdvanceUser
import NvmeVirt.ConvFtl.AdvanceGc
import NvmeVirt.ConvFtl.Remap
import NvmeVirt.ConvFtl.Space
import NvmeVirt.ConvFtl.GcFrame
import NvmeVirt.ConvFtl.Collect
import NvmeVirt.ConvFtl.DoGc
import NvmeVirt.ConvFtl.PageWrite
import NvmeVirt.ConvFtl.Start
import NvmeVirt.ConvFtl.Runs
import NvmeVirt.ConvFtl.Reachable
import NvmeVirt.ConvFtl.GcExact
import NvmeVirt.ConvFtl.GcRuns
import NvmeVirt.ConvFtl.HandOuts
import NvmeVirt.ConvFtl.Credits
import NvmeVirt.Io.Perform
import NvmeVirt.Io.Transfers
import NvmeVirt.Io.Prps
import NvmeVirt.Io.PerformDma
import NvmeVirt.Io.Worker
import NvmeVirt.Io.WorkerChains
import NvmeVirt.Io.WorkerInv
import NvmeVirt.Io.Device
import NvmeVirt.Io.Pool
import NvmeVirt.Io.WorkerRuns
import NvmeVirt.Io.WorkOrder
import NvmeVirt.Io.CatchUp
import NvmeVirt.Io.Account
import NvmeVirt.Io.Namespace
import NvmeVirt.Io.Queues
import NvmeVirt.Io.SimpleFtl
import NvmeVirt.Io.FlushCover
import NvmeVirt.Io.NothingLost
import NvmeVirt.Io.Steps
import NvmeVirt.Io.SlotReuse
import NvmeVirt.Io.QueueDeletion
import NvmeVirt.Zns.State
import NvmeVirt.Zns.ReadWrite
import NvmeVirt.Zns.MgmtSend
import NvmeVirt.Zns.MgmtRecv
import NvmeVirt.Zns.Namespace
import NvmeVirt.Zns.Zones
import NvmeVirt.Zns.Counters
import NvmeVirt.Zns.ZoneSteps
import NvmeVirt.Zns.WriteSteps
import NvmeVirt.Zns.ZoneMachine
import NvmeVirt.Zns.ZrwaAccounting
import NvmeVirt.Zns.Rejections
import NvmeVirt.Zns.Limits
import NvmeVirt.Zns.Frames
import NvmeVirt.Zns.Protection
import NvmeVirt.Zns.Appends
import NvmeVirt.Zns.IndexSafety
import NvmeVirt.Zns.ZoneAddresses
import NvmeVirt.Zns.Placement
import NvmeVirt.Zns.ReportBounds
import NvmeVirt.Zns.CounterRuns
import NvmeVirt.Zns.Admission
import NvmeVirt.Zns.ZrwaWindow
import NvmeVirt.Zns.WindowRuns
import NvmeVirt.Zns.OneShotPages
import NvmeVirt.Zns.WriteBuffers
import NvmeVirt.Zns.BufferCharges
import NvmeVirt.ConvFtl.BufferBalance
import NvmeVirt.ConvFtl.HeadOfLine
import NvmeVirt.ConvFtl.Range
import NvmeVirt.Lib.LittleEndian
import NvmeVirt.Io.KernelFile
import NvmeVirt.Zns.Snapshot
import NvmeVirt.Zns.SnapshotRoundTrip
import NvmeVirt.Zns.SnapshotData
import NvmeVirt.Zns.SnapshotChecks
import NvmeVirt.ConvFtl.Chunks
import NvmeVirt.ConvFtl.PhfragCheck
import NvmeVirt.ConvFtl.CleanFtl
import NvmeVirt.ConvFtl.CleanCall
import NvmeVirt.ConvFtl.CleanTurns
import NvmeVirt.ConvFtl.CleanRounds
import NvmeVirt.ConvFtl.CleanEnds
import NvmeVirt.Kv.Table
import NvmeVirt.Kv.Allocators
import NvmeVirt.Kv.Commands
import NvmeVirt.Kv.Walks
import NvmeVirt.Kv.Index
import NvmeVirt.Kv.IndexRuns
import NvmeVirt.Kv.AllocatorRuns
import NvmeVirt.Kv.Values
import NvmeVirt.Kv.Batch
import NvmeVirt.Kv.BatchSequence
import NvmeVirt.Kv.StoreSteps
import NvmeVirt.Kv.Isolation
import NvmeVirt.Lib.PhaseRing
import NvmeVirt.Admin.Queue
import NvmeVirt.Admin.Commands
import NvmeVirt.Admin.Answers
import NvmeVirt.Admin.CompletionRings
import NvmeVirt.Admin.Bars
import NvmeVirt.Admin.ConfigSpace
import NvmeVirt.Admin.Reset
import NvmeVirt.Lib.SlotLedger
import NvmeVirt.Ssd.ChannelModel
import NvmeVirt.Ssd.CreditRing
import NvmeVirt.Ssd.CreditDelay
import NvmeVirt.Ssd.TransferOrder
import NvmeVirt.Ssd.Timing
import NvmeVirt.Ssd.DieTimeline
import NvmeVirt.ConvFtl.Striping
import NvmeVirt.ConvFtl.ReadCoverage
import NvmeVirt.ConvFtl.CleanRewrite
import NvmeVirt.ConvFtl.ReadTiming
import NvmeVirt.ConvFtl.QueueingWait
import NvmeVirt.Io.Sections
import NvmeVirt.ConvFtl.Snapshot
import NvmeVirt.ConvFtl.Records
import NvmeVirt.ConvFtl.RoundTrip
import NvmeVirt.ConvFtl.Reloads
import NvmeVirt.ConvFtl.Mirror
import NvmeVirt.ConvFtl.Lockstep
import NvmeVirt.ConvFtl.PowerCycles
import NvmeVirt.ConvFtl.CleanOrder
import NvmeVirt.ConvFtl.Defragment
import NvmeVirt.ConvFtl.Victims
import NvmeVirt.ConvFtl.Restore
import NvmeVirt.Zns.LoadErrors
import NvmeVirt.Lib.Links
import NvmeVirt.Kv.Chains
import NvmeVirt.Kv.StoreEnds
import NvmeVirt.Kv.Iterators
import NvmeVirt.Kv.IteratorHandles
import NvmeVirt.Kv.IteratorReads
import NvmeVirt.Kv.DictionaryRuns
