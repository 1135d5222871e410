import MuduoStudy.Transition
import MuduoStudy.BatchQueue
import MuduoStudy.Region
import MuduoStudy.Search
import MuduoStudy.Pipeline
import MuduoStudy.Descriptors
import MuduoStudy.Rotation
import MuduoStudy.EventLoop
import MuduoStudy.FunctorQueue
import MuduoStudy.Quit
import MuduoStudy.EventLoopThread
import MuduoStudy.Handshake
import MuduoStudy.StartLoop
import MuduoStudy.StopLoop
import MuduoStudy.Acceptor
import MuduoStudy.Accepting
import MuduoStudy.TcpServer
import MuduoStudy.Buffer
import MuduoStudy.ByteQueue
import MuduoStudy.Space
import MuduoStudy.ReadFd
import MuduoStudy.Usage
import MuduoStudy.Growth
import MuduoStudy.Strings
import MuduoStudy.Epoller
import MuduoStudy.Poller
import MuduoStudy.Polling
import MuduoStudy.Fairness
import MuduoStudy.Wakeup
import MuduoStudy.TcpConnection
import MuduoStudy.SendBuffer
import MuduoStudy.SendLength
import MuduoStudy.Server
import MuduoStudy.ServerStep
import MuduoStudy.Placement
import MuduoStudy.Outbound
import MuduoStudy.SendOrder
import MuduoStudy.Backlog
import MuduoStudy.Handoff
import MuduoStudy.Lifecycle
import MuduoStudy.Beginning
import MuduoStudy.Course
import MuduoStudy.Closing
import MuduoStudy.Quiescence
import MuduoStudy.Registration
import MuduoStudy.Destroyed
import MuduoStudy.Stages
import MuduoStudy.WriteInterest
import MuduoStudy.Shutdown
import MuduoStudy.Draining
import MuduoStudy.Lifetime
import MuduoStudy.Dangling
import MuduoStudy.Prudence
import MuduoStudy.TestServer
import MuduoStudy.Inert
import MuduoStudy.Reading
import MuduoStudy.Custody
import MuduoStudy.Work
import MuduoStudy.Statement
import MuduoStudy.World
import MuduoStudy.WorldStep
import MuduoStudy.View
import MuduoStudy.Interleaving
import MuduoStudy.Upkeep
import MuduoStudy.CloseHandoff
import MuduoStudy.EventLoopThreadPool
