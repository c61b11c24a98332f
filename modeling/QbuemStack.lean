import QbuemStack.Http.ChunkGrammar
import QbuemStack.Http.HeaderScan
import QbuemStack.Codec.Http1Codec
import QbuemStack.Server.WireFraming
import QbuemStack.Server.UnixListener
import QbuemStack.Server.Pipelining
import QbuemStack.Http2.StreamBounds
import QbuemStack.Http2.StreamLifeCycle
import QbuemStack.Http2.Delivery
import QbuemStack.Ws.Outbound
import QbuemStack.Ws.Heartbeat
import QbuemStack.Ws.Inbound
import QbuemStack.Crypto.Poly1305Exact
import QbuemStack.Security.JwtSafety
import QbuemStack.Middleware.TokenVerifiers
import QbuemStack.Core.TimerTicks
import QbuemStack.Shm.ShmBus
import QbuemStack.Pipeline.EndOfStream
import QbuemStack.Pipeline.PriorityChannel
import QbuemStack.Pipeline.Saga
import QbuemStack.Pipeline.SpscWaiter
import QbuemStack.Pipeline.BusDelivery
import QbuemStack.Pipeline.BusClosing
import QbuemStack.Pipeline.GraphDelivery
import QbuemStack.Pipeline.DynamicFlow
import QbuemStack.Core.TickLoop
import QbuemStack.Buf.LockFreeHashMap
import QbuemStack.Core.ArenaBounds
import QbuemStack.Core.AllocatorOwnership
import QbuemStack.Http2.RecvWindows
import QbuemStack.Pipeline.Checkpoint
import QbuemStack.Pipeline.DeadLetters
import QbuemStack.Pipeline.WindowResults
import QbuemStack.Buf.TiledBitset
import QbuemStack.Middleware.Quota
import QbuemStack.Core.IoUringReactor
