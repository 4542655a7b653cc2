import CmsisStream.Dataflow.Balance
import CmsisStream.Dataflow.Loop
import CmsisStream.Dataflow.Net
import CmsisStream.Dataflow.Periodic
import CmsisStream.Dataflow.Queues
import CmsisStream.Concurrency.Machine
import CmsisStream.Concurrency.Commuting
import CmsisStream.Dataflow.Processes
import CmsisStream.Dataflow.Progress
import CmsisStream.Concurrency.EventFlags
import CmsisStream.Concurrency.ReadWriteLock
import CmsisStream.Concurrency.CriticalSection
import CmsisStream.Container.RingBuffer
import CmsisStream.Container.Heap
import CmsisStream.Container.Copy
import CmsisStream.Clock.Wrapped
import CmsisStream.Codec.Bytes
import CmsisStream.Codec.Action
import CmsisStream.Scheduler.Graph
import CmsisStream.Scheduler.Connect
import CmsisStream.Scheduler.InsertDuplicates
import CmsisStream.Scheduler.DuplicatePaths
import CmsisStream.Scheduler.DuplicateNames
import CmsisStream.Scheduler.SelectorIdentifiers
import CmsisStream.Scheduler.SelectorInits
import CmsisStream.Scheduler.RepetitionVector
import CmsisStream.Scheduler.BalanceEquations
import CmsisStream.Scheduler.MatrixColumn
import CmsisStream.Scheduler.Execution
import CmsisStream.Scheduler.GreedyLoop
import CmsisStream.Scheduler.SinkLayers
import CmsisStream.Scheduler.SinkPriority
import CmsisStream.Scheduler.SourceLayers
import CmsisStream.Scheduler.AcceptedGraph
import CmsisStream.Scheduler.GraphPorts
import CmsisStream.Scheduler.FullyAsynchronous
import CmsisStream.Scheduler.Interference
import CmsisStream.Scheduler.BufferAllocation
import CmsisStream.Scheduler.Storage
import CmsisStream.Scheduler.AsynchronousFifos
import CmsisStream.Scheduler.OptimalColoring
import CmsisStream.Scheduler.LiveIntervals
import CmsisStream.Scheduler.Schedule
import CmsisStream.Scheduler.PlainGraph
import CmsisStream.Scheduler.SynchronousGraph
import CmsisStream.Platform.Fifo
import CmsisStream.Platform.FifoContents
import CmsisStream.Platform.FifoPositions
import CmsisStream.Scheduler.ArrayFifo
import CmsisStream.Scheduler.FifoLengths
import CmsisStream.Scheduler.FifoRun
import CmsisStream.Scheduler.SharedRun
import CmsisStream.Scheduler.BufferSharing
import CmsisStream.Scheduler.DuplicateSkip
import CmsisStream.Scheduler.DuplicateRun
import CmsisStream.Scheduler.QueueRun
import CmsisStream.Scheduler.AsynchronousRun
import CmsisStream.Scheduler.AsynchronousNodes
import CmsisStream.Scheduler.AsynchronousLiveness
import CmsisStream.Nodes.Windows
import CmsisStream.Events.Value
import CmsisStream.Platform.ProcessLocks
import CmsisStream.Platform.ProtectedBuffers
import CmsisStream.Platform.OwningPointers
import CmsisStream.Platform.BufferLocking
import CmsisStream.Events.Dispatch
import CmsisStream.Events.Wire
import CmsisStream.Events.Pack
import CmsisStream.Events.Unpack
import CmsisStream.Events.RoundTrip
import CmsisStream.Events.SharedBuffers
import CmsisStream.Events.Safety
import CmsisStream.Events.Float
import CmsisStream.Events.Python
import CmsisStream.Events.PythonPack
import CmsisStream.Events.PythonUnpack
import CmsisStream.Events.PythonRoundTrip
import CmsisStream.Events.PythonShared
import CmsisStream.Events.CrossLanguage
import CmsisStream.Runtime.EventQueue
import CmsisStream.Runtime.TimeToLive
import CmsisStream.Runtime.QueueHistory
import CmsisStream.Runtime.EventOutput
import CmsisStream.Runtime.EventDelivery
import CmsisStream.Runtime.WakeUp
import CmsisStream.Runtime.Threads
import CmsisStream.Runtime.Transitions
import CmsisStream.Runtime.Handshake
import CmsisStream.Runtime.PauseScheduler
import CmsisStream.Runtime.StopThreads
import CmsisStream.Runtime.StopMessages
import CmsisStream.Runtime.StopSteps
import CmsisStream.Runtime.StopProgress
import CmsisStream.Runtime.ContextSwitch
import CmsisStream.Runtime.ResumeScheduler
import CmsisStream.Runtime.Acknowledgements
import CmsisStream.Runtime.ErrorReports
import CmsisStream.Generated.ScheduleLoop
import CmsisStream.Generated.StraightLine
import CmsisStream.Generated.CallbackPause
import CmsisStream.Generated.ExecutionStatus
import CmsisStream.Generated.ResetFifos
import CmsisStream.Generated.HeapAllocation
import CmsisStream.Yaml.Graph
import CmsisStream.Yaml.ConnectedGraph
import CmsisStream.Yaml.Export
import CmsisStream.Yaml.Import
import CmsisStream.Yaml.TypeTable
import CmsisStream.Yaml.NodeRoundTrip
import CmsisStream.Yaml.EdgeRoundTrip
import CmsisStream.Yaml.RoundTrip
import CmsisStream.Yaml.ReadPorts
import CmsisStream.Yaml.ReadNodes
import CmsisStream.Yaml.ReadEdges
import CmsisStream.Yaml.Isomorphism
