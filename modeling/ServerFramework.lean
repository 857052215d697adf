import ServerFramework.Library.Runs
import ServerFramework.Library.Framing
import ServerFramework.Network.Bytes
import ServerFramework.Network.Packet
import ServerFramework.Proof.Network.Packet
import ServerFramework.Network.Link
import ServerFramework.Proof.Network.Parsers
import ServerFramework.Proof.Network.Loops
import ServerFramework.Proof.Network.Link
import ServerFramework.Library.Crc
import ServerFramework.Library.CrcPeriod
import ServerFramework.Network.Codec
import ServerFramework.Proof.Network.Codec
import ServerFramework.Proof.Network.Checksum
import ServerFramework.Proof.Network.Crc32
import ServerFramework.Base.Timer
import ServerFramework.Proof.Base.Timer
import ServerFramework.Base.TimerRun
import ServerFramework.Proof.Base.TimerRun
import ServerFramework.Base.MemoryPool
import ServerFramework.Proof.Base.MemoryPool
import ServerFramework.Core.ThreadPool
import ServerFramework.Proof.Core.ThreadPool
import ServerFramework.Proof.Core.Shutdown
import ServerFramework.Base.Config
import ServerFramework.Proof.Base.ConfigTermination
import ServerFramework.Proof.Base.ConfigTree
import ServerFramework.Proof.Base.ConfigLoad
import ServerFramework.Proof.Network.Agreement
import ServerFramework.Proof.Network.Streaming
import ServerFramework.Proof.Network.ReadLoop
import ServerFramework.Network.TcpServer
import ServerFramework.Proof.Network.TcpServer
import ServerFramework.Proof.Network.WriteLoop
import ServerFramework.Proof.Network.ClientNotices
import ServerFramework.Proof.Network.TcpClient
import ServerFramework.Proof.Network.ClientThreads
import ServerFramework.Db.ConnectionPool
import ServerFramework.Proof.Db.ConnectionPool
import ServerFramework.Business.SessionMgr
import ServerFramework.Library.Table
import ServerFramework.Proof.Business.SessionMgr
import ServerFramework.Proof.Business.CleanupTimeout
import ServerFramework.Proof.Business.CleanupExact
import ServerFramework.Base.ObjectPool
import ServerFramework.Proof.Base.ObjectPool
import ServerFramework.Proof.Base.ObjectPoolGrowth
import ServerFramework.Base.ConfigFile
import ServerFramework.Proof.Base.ConfigIni
import ServerFramework.Proof.Base.ConfigReload
import ServerFramework.Base.TimerLoop
import ServerFramework.Proof.Base.TimerLoop
import ServerFramework.Base.EventFd
import ServerFramework.Proof.Base.EventFd
import ServerFramework.Library.Tickets
import ServerFramework.Proof.Base.TimerLoopCancel
import ServerFramework.Proof.Network.Corruption
import ServerFramework.Proof.Network.Recovery
import ServerFramework.Base.Logger
import ServerFramework.Proof.Base.Logger
import ServerFramework.Base.EventLoop
import ServerFramework.Proof.Base.EventLoop
import ServerFramework.Proof.Base.EventTasks
import ServerFramework.Proof.Base.EventTimers
import ServerFramework.Library.FrontFirst
import ServerFramework.Proof.Core.QueueOrder
import ServerFramework.Proof.Base.TimerSteps
import ServerFramework.Proof.Base.TimerNearest
import ServerFramework.Library.Batch
import ServerFramework.Proof.Base.TimerEarly
import ServerFramework.Proof.Base.TimerThrow
import ServerFramework.Proof.Base.EventThrow
import ServerFramework.Library.Trim
import ServerFramework.Proof.Base.IniRoundTrip
import ServerFramework.Base.MemoryPoolManager
import ServerFramework.Proof.Base.MemoryPoolManager
import ServerFramework.Proof.Base.PoolBounds
import ServerFramework.Library.Blocks
import ServerFramework.Base.SharedPools
import ServerFramework.Proof.Base.PoolBlocks
import ServerFramework.Proof.Base.SharedPools
import ServerFramework.Base.CmdLine
import ServerFramework.Proof.Base.CmdLine
import ServerFramework.Proof.Base.ConfigText
import ServerFramework.Proof.Base.ConfigWalk
import ServerFramework.Proof.Base.ConfigArrays
import ServerFramework.Proof.Base.ConfigEscapes
import ServerFramework.Proof.Base.ConfigToJson
import ServerFramework.Library.LockFreeMax
import ServerFramework.Core.Monitor
import ServerFramework.Proof.Core.MonitorPeaks
import ServerFramework.Proof.Core.ConnectionsPeak
import ServerFramework.Network.IdleTimeout
import ServerFramework.Proof.Network.IdleTimeout
import ServerFramework.Base.MessageQueue
import ServerFramework.Proof.Base.MessageQueue
import ServerFramework.Base.SubscribeHub
import ServerFramework.Proof.Base.SubscribeHub
import ServerFramework.Base.ObjectPoolCalls
import ServerFramework.Proof.Base.ObjectPoolCalls
import ServerFramework.Proof.Base.ObjectPoolAlone
import ServerFramework.Proof.Base.ObjectPoolWarmUp
import ServerFramework.Library.Draining
import ServerFramework.Proof.Core.Drains
import ServerFramework.Proof.Core.OneWorker
import ServerFramework.Business.Router
import ServerFramework.Proof.Business.Router
import ServerFramework.Network.Traffic
import ServerFramework.Proof.Network.Traffic
import ServerFramework.Proof.Network.Messages
import ServerFramework.Proof.Network.Ends
import ServerFramework.Example.Gateway
import ServerFramework.Proof.Example.Gateway
import ServerFramework.Proof.Example.GatewayAnswers
import ServerFramework.Proof.Example.GatewayDrains
import ServerFramework.Proof.Example.GatewayOrder
import ServerFramework.Example.Clients
import ServerFramework.Proof.Example.Clients
import ServerFramework.Library.Scanning
import ServerFramework.Proof.Network.AnyStream
import ServerFramework.Base.CvQueue
import ServerFramework.Proof.Base.CvQueue
import ServerFramework.Proof.Base.LoggerConsole
import ServerFramework.Proof.Base.ConfigOverflow
import ServerFramework.Proof.Base.JsonLayout
import ServerFramework.Core.MonitorJson
import ServerFramework.Proof.Core.MonitorJson
import ServerFramework.Library.Background
import ServerFramework.Base.TimerThread
import ServerFramework.Proof.Base.TimerThread
import ServerFramework.Core.MonitorThreads
import ServerFramework.Proof.Core.MonitorThreads
