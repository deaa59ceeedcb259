import DeepInIo.Foundation.EdgeTriggered
import DeepInIo.Foundation.ThreadSum
import DeepInIo.AdvancedServer.Invariant
import DeepInIo.AdvancedServer.RefCount
import DeepInIo.AdvancedServer.MessageQueue
import DeepInIo.AdvancedServer.HandOff
import DeepInIo.AdvancedServer.Descriptors
import DeepInIo.AdvancedServer.InterestLists
import DeepInIo.AdvancedServer.DescriptorReuse
import DeepInIo.AdvancedServer.UseAfterFree
import DeepInIo.AdvancedServer.ShutdownCost
import DeepInIo.AdvancedServer.ShutdownOrder
import DeepInIo.AdvancedServer.ShutdownProgress
import DeepInIo.AdvancedServer.TaskProgress
import DeepInIo.AdvancedServer.Counters
import DeepInIo.AdvancedServer.Statistics
import DeepInIo.AdvancedServer.Release
import DeepInIo.AdvancedServer.ResponseStream
import DeepInIo.AdvancedServer.InterestSwitching
import DeepInIo.AdvancedServer.Responsiveness
import DeepInIo.Foundation.SlotTable
import DeepInIo.ReactorServer.GlobalQueue
import DeepInIo.ReactorServer.State
import DeepInIo.ReactorServer.Server
import DeepInIo.ReactorServer.Steps
import DeepInIo.ReactorServer.Descriptors
import DeepInIo.ReactorServer.Registration
import DeepInIo.ReactorServer.Delivery
import DeepInIo.AdvancedServer.Framing
import DeepInIo.AdvancedServer.Backends
import DeepInIo.Foundation.BoundedFifo
import DeepInIo.Foundation.Condition
import DeepInIo.Foundation.LinkedChain
import DeepInIo.TaskQueue.Basic
import DeepInIo.TaskQueue.Monitor
import DeepInIo.TaskQueue.Refinement
import DeepInIo.TaskQueue.WakeUp
import DeepInIo.ThreadPool.Pool
import DeepInIo.ThreadPool.Steps
import DeepInIo.ThreadPool.Lifecycle
import DeepInIo.ThreadPool.Shutdown
import DeepInIo.AdvancedServer.Locks
import DeepInIo.AdvancedServer.LockInvariant
import DeepInIo.AdvancedServer.Deadlock
import DeepInIo.AdvancedServer.ClientSteps
import DeepInIo.AdvancedServer.Addresses
import DeepInIo.AdvancedServer.Stored
import DeepInIo.AdvancedServer.AddressReuse
import DeepInIo.AdvancedServer.SocketLog
import DeepInIo.AdvancedServer.Isolation
import DeepInIo.AdvancedServer.Teardown
import DeepInIo.Foundation.RequestCycle
import DeepInIo.AdvancedServer.Exchange
import DeepInIo.AdvancedServer.RequestResponse
import DeepInIo.AdvancedServer.Rounds
import DeepInIo.AdvancedServer.ConnectionObject
import DeepInIo.AdvancedServer.WriteBuffer
import DeepInIo.AdvancedServer.ResumableWrite
import DeepInIo.AdvancedServer.TaskCreate
import DeepInIo.AdvancedServer.AcceptAccounting
import DeepInIo.AdvancedServer.AcceptLoop
import DeepInIo.AdvancedServer.Construction
import DeepInIo.AdvancedServer.HandOffBytes
import DeepInIo.AdvancedServer.MessageChain
import DeepInIo.AdvancedServer.ClosingTerminal
import DeepInIo.Foundation.RoundRobin
import DeepInIo.AdvancedServer.FairDispatch
import DeepInIo.Foundation.SlotBag
import DeepInIo.ReactorServer.Dispatch
import DeepInIo.Foundation.Allocator
import DeepInIo.Foundation.KeyedList
import DeepInIo.ReactorServer.TaskTable
import DeepInIo.ReactorServer.ConnMap
import DeepInIo.ReactorServer.WritePath
import DeepInIo.EpollServer.Server
import DeepInIo.EpollServer.Reading
import DeepInIo.EpollServer.Custody
import DeepInIo.Foundation.History
import DeepInIo.ReactorServer.Reading
import DeepInIo.ReactorServer.Rest
import DeepInIo.Foundation.StreamService
import DeepInIo.EpollServer.Streams
import DeepInIo.EpollServer.Dispatch
import DeepInIo.Foundation.Progress
import DeepInIo.KqueueServer.Server
import DeepInIo.KqueueServer.Steps
import DeepInIo.KqueueServer.Streams
import DeepInIo.KqueueServer.Drain
