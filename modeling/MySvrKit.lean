import MySvrKit.Transition
import MySvrKit.Refinement
import MySvrKit.StepCounts
import MySvrKit.BoundedFifo
import MySvrKit.AtomicFifo
import MySvrKit.FixedWidth
import MySvrKit.LockFreeQueue
import MySvrKit.QueueSequential
import MySvrKit.QueueThreads
import MySvrKit.QueueIndexSafety
import MySvrKit.QueueDiscipline
import MySvrKit.QueueSpsc
import MySvrKit.QueueSize
import MySvrKit.QueueConservation
import MySvrKit.QueueLinearizability
import MySvrKit.QueueWaitFree
import MySvrKit.FileStore
import MySvrKit.FileSegments
import MySvrKit.BufferedStore
import MySvrKit.LogPaths
import MySvrKit.LogNames
import MySvrKit.LogFileMgr
import MySvrKit.LogRuns
import MySvrKit.LogRotation
import MySvrKit.LogStdio
import MySvrKit.LogReadback
import MySvrKit.LogSizeBound
import MySvrKit.LogDelivery
import MySvrKit.LogLatency
import MySvrKit.LogDayFiles
import MySvrKit.LogFailures
import MySvrKit.LogDirectories
import MySvrKit.LogFiling
import MySvrKit.LogHeader
import MySvrKit.EventLoop
import MySvrKit.EventLoopSteps
import MySvrKit.Connection
import MySvrKit.EchoIntegrity
import MySvrKit.ByteIsolation
import MySvrKit.EndOfStream
import MySvrKit.HandlerTable
import MySvrKit.HandlerOwnership
import MySvrKit.ServerMain
import MySvrKit.ConnectionFates
import MySvrKit.EdgeTriggered
import MySvrKit.EchoNetwork
import MySvrKit.ClientAddresses
import MySvrKit.RegistrationFailure
import MySvrKit.SendArithmetic
import MySvrKit.SendBackpressure
import MySvrKit.RecvTermination
import MySvrKit.SocketDriver
import MySvrKit.HandlingOutcome
import MySvrKit.EventOrder
import MySvrKit.TcpBenchmark
import MySvrKit.EchoBenchmark
