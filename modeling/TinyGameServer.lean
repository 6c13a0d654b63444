import TinyGameServer.Buffer
import TinyGameServer.BufferQueue
import TinyGameServer.ReceiveBuffer
import TinyGameServer.DataServer
import TinyGameServer.GateServer
import TinyGameServer.HandlerBounds
import TinyGameServer.FrameConsumption
import TinyGameServer.CutIndependence
import TinyGameServer.Segmentation
import TinyGameServer.SubscriptMap
import TinyGameServer.Transitions
import TinyGameServer.TCPServer
import TinyGameServer.Registry
import TinyGameServer.LoginSystem
import TinyGameServer.LoginOutcome
import TinyGameServer.FdWatcher
import TinyGameServer.TCPConnection
import TinyGameServer.ConnectionLoop
import TinyGameServer.ConnectionOwnership
import TinyGameServer.ConnectionClosed
import TinyGameServer.OutgoingStream
import TinyGameServer.EventLoop
import TinyGameServer.Wakeup
import TinyGameServer.FunctorOrder
import TinyGameServer.LoopThreads
import TinyGameServer.ThreadConfinement
import TinyGameServer.StopRequest
import TinyGameServer.PGManager
import TinyGameServer.QuerySchedule
import TinyGameServer.DecimalText
import TinyGameServer.UID
import TinyGameServer.SerialIds
import TinyGameServer.CallbackOrder
import TinyGameServer.RegistryRace
import TinyGameServer.TCPClient
import TinyGameServer.SharedBuffer
import TinyGameServer.WriteInterest
import TinyGameServer.PeekHeader
import TinyGameServer.OverflowWindow
import TinyGameServer.TypedFields
import TinyGameServer.WireFormat
import TinyGameServer.RelayLength
import TinyGameServer.LoginQuery
import TinyGameServer.EvenSpread
import TinyGameServer.LoopSpread
import TinyGameServer.WatcherInterest
import TinyGameServer.TCPConnector
import TinyGameServer.HostPort
import TinyGameServer.SerialCapacity
import TinyGameServer.Watchers
import TinyGameServer.EventOwnership
import TinyGameServer.ReadProgram
import TinyGameServer.ReadEvents
import TinyGameServer.ReceiverGrowth
import TinyGameServer.StalledReceiver
import TinyGameServer.LoginPipeline
import TinyGameServer.ForgedReplies
import TinyGameServer.UserTable
import TinyGameServer.BoundedService
import TinyGameServer.FrameService
import TinyGameServer.FunctorFate
import TinyGameServer.ConnInfo
import TinyGameServer.Link
import TinyGameServer.Exchange
import TinyGameServer.LoginExchange
import TinyGameServer.ConnectionRelease
import TinyGameServer.SendBacklog
import TinyGameServer.EchoWindow
import TinyGameServer.TCPAcceptor
import TinyGameServer.LocalView
import TinyGameServer.ConnectionAlone
import TinyGameServer.RedisManager
import TinyGameServer.RedisStore
import TinyGameServer.QuerySchedule

