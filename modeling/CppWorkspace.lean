import CppWorkspace.Lib.Transition
import CppWorkspace.Lib.OrdMap
import CppWorkspace.Lib.Retention
import CppWorkspace.Lib.Codec
import CppWorkspace.Lib.IndexedLog
import CppWorkspace.Lib.FileSystem
import CppWorkspace.Lib.TextStream
import CppWorkspace.Lib.Raft
import CppWorkspace.Lib.RaftElection
import CppWorkspace.Lib.RaftMatching
import CppWorkspace.Lib.RaftSafety
import CppWorkspace.Lib.RaftRuns
import CppWorkspace.Lib.Channel
import CppWorkspace.Lib.History
import CppWorkspace.Lib.TrialSieve
import CppWorkspace.Lib.Reduction
import CppWorkspace.Lib.Stage
import CppWorkspace.Lib.AsyncChannel
import CppWorkspace.Lib.UniqueOwner
import CppWorkspace.Lib.LazySequence
import CppWorkspace.RaftRpc.Buffer
import CppWorkspace.RaftRpc.CounterStateMachine
import CppWorkspace.RaftRpc.SnapshotTransfer
import CppWorkspace.RaftRpc.SnapshotRetention
import CppWorkspace.RaftRpc.MemLogStore
import CppWorkspace.RaftRpc.LogTransfer
import CppWorkspace.RaftRpc.FileStateMgr
import CppWorkspace.RaftRpc.SaveFailure
import CppWorkspace.RaftRpc.VoteDurability
import CppWorkspace.RaftRpc.CounterServer
import CppWorkspace.RaftRpc.CounterClient
import CppWorkspace.RaftRpc.ClientConnection
import CppWorkspace.RaftRpc.AddGrammar
import CppWorkspace.RaftRpc.ExactReplies
import CppWorkspace.RaftRpc.AddRetry
import CppWorkspace.RaftRpc.RaftStore
import CppWorkspace.RaftRpc.CounterCluster
import CppWorkspace.RaftRpc.ClusterRefinement
import CppWorkspace.RaftRpc.AckedAdds
import CppWorkspace.RaftRpc.RedirectChains
import CppWorkspace.Delegates.MulticastDelegate
import CppWorkspace.Delegates.Broadcast
import CppWorkspace.Delegates.EventTrace
import CppWorkspace.Delegates.CallableState
import CppWorkspace.Delegates.Reentrancy
import CppWorkspace.Delegates.Rebinding
import CppWorkspace.Delegates.Handles
import CppWorkspace.Delegates.Bookkeeping
import CppWorkspace.Delegates.Character
import CppWorkspace.Delegates.CharacterDeath
import CppWorkspace.Coro.Scheduler
import CppWorkspace.Coro.Machine
import CppWorkspace.Coro.QueueOrder
import CppWorkspace.Coro.TaskLinks
import CppWorkspace.Coro.TaskWakeups
import CppWorkspace.Coro.TaskLifetime
import CppWorkspace.Coro.RunOrder
import CppWorkspace.Coro.DirectStyle
import CppWorkspace.Coro.DirectCalls
import CppWorkspace.Coro.SyncWait
import CppWorkspace.Coro.RoundRobin
import CppWorkspace.Coro.RoundRobinOrder
import CppWorkspace.Coro.RoundRobinRuns
import CppWorkspace.Coro.FrameOwnership
import CppWorkspace.Coro.NestedFrames
import CppWorkspace.Coro.NestedOwnership
import CppWorkspace.Coro.NestedDestruction
import CppWorkspace.Coro.NestedRuns
import CppWorkspace.Coro.Generator
import CppWorkspace.Coro.GeneratorDelivery
import CppWorkspace.Actors.GameRoom
import CppWorkspace.Actors.RoomMembership
import CppWorkspace.Actors.GenServer
import CppWorkspace.Actors.CallHistory
import CppWorkspace.Actors.CallReplies
import CppWorkspace.Actors.Linearizable
import CppWorkspace.Actors.ChatRoom
import CppWorkspace.Actors.ChatSessions
import CppWorkspace.Actors.ChatDelivery
import CppWorkspace.Actors.ChatShutdown
import CppWorkspace.Actors.ChatLeave
import CppWorkspace.Csp.FanIn
import CppWorkspace.Csp.FanInAccounts
import CppWorkspace.Csp.FanInRuns
import CppWorkspace.Csp.Select
import CppWorkspace.Csp.SelectLoss
import CppWorkspace.Csp.Sieve
import CppWorkspace.Csp.SieveStreams
import CppWorkspace.Csp.SieveRuns
import CppWorkspace.Csp.Mpsc
import CppWorkspace.Csp.MpscRuns
import CppWorkspace.Csp.MpscDelivery
import CppWorkspace.Csp.MpscCheck
import CppWorkspace.Cobalt.Pipeline
import CppWorkspace.Cobalt.PipelineStreams
import CppWorkspace.Cobalt.PipelineRuns
import CppWorkspace.Tbb.ParallelSum
import CppWorkspace.Tbb.FlowPipeline
import CppWorkspace.Tokio.Bridge
import CppWorkspace.Tokio.Ownership
import CppWorkspace.Tokio.Initiation
import CppWorkspace.Lib.Commuting
import CppWorkspace.Lib.ProcessNetwork
import CppWorkspace.Lib.SignedInt
import CppWorkspace.Csp.Duo
import CppWorkspace.Csp.DuoDialogue
import CppWorkspace.Csp.DuoCredit
import CppWorkspace.Csp.DuoAlternation
import CppWorkspace.Lib.WorkerPool
import CppWorkspace.Cobalt.WorkerPool
import CppWorkspace.Cobalt.WorkerPoolRuns
import CppWorkspace.Lib.RaftHistory
import CppWorkspace.RaftRpc.OneHistory
import CppWorkspace.Lib.ByteStream
import CppWorkspace.Asio.EchoTcp
import CppWorkspace.Asio.EchoTcpRuns
import CppWorkspace.Actors.DelayedMessages
import CppWorkspace.Actors.DelayedMessagesRuns
import CppWorkspace.Actors.FanOut
import CppWorkspace.Actors.FanOutRuns
import CppWorkspace.Cobalt.EchoServer
import CppWorkspace.Cobalt.EchoServerRuns
import CppWorkspace.Cobalt.SelectDemo
import CppWorkspace.Cobalt.SelectDemoRuns
import CppWorkspace.Asio.ActorPool
import CppWorkspace.Asio.ActorPoolRuns
import CppWorkspace.Asio.ActorPipeline
import CppWorkspace.Asio.ActorPipelineRuns
import CppWorkspace.Coro.Fibonacci
import CppWorkspace.Lib.Feed
import CppWorkspace.Cobalt.ChannelStreams
import CppWorkspace.Asio.Strand
import CppWorkspace.Asio.StrandRuns
