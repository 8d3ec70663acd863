import Rpcz.ShutdownWork
import Rpcz.DispatchRounds
import Rpcz.FreshEvents
import Rpcz.DeadlineArithmetic
import Rpcz.ServiceOwnership
import Rpcz.ManagerConstruction
import Rpcz.SyncCalls
import Rpcz.SendLimits
import Rpcz.ContextTeardown
import Rpcz.SingletonLife
import Rpcz.ResponseSource
import Rpcz.SocketUse
import Rpcz.BindAtomicity
import Rpcz.Registration
import Rpcz.RejectedEndpoint
import Rpcz.ServerBindings
import Rpcz.PeerFrames
import Rpcz.TeardownDeadlock
import Rpcz.OwnThreads
import Rpcz.SingletonServices
import Rpcz.CallOrder
import Rpcz.Quiescence
import Rpcz.EndToEnd
import Rpcz.SyncEvent
import Rpcz.ConstructionWait
import Rpcz.TypedCalls
import Rpcz.CallProtocol
import Rpcz.ClosureLifetimes
import Rpcz.BrokerReactor
import Rpcz.RequestTimers
