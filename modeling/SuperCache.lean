import SuperCache.Store.Limit
import SuperCache.Store.Linearizable
import SuperCache.Replication.Convergence
import SuperCache.Peer.LossRestart
import SuperCache.Server.ServeSynced
import SuperCache.Peer.OutboundLoss
import SuperCache.Peer.WholeFrames
import SuperCache.Peer.BootstrapBuffer
import SuperCache.Peer.DialerTrust
import SuperCache.Peer.AcceptorAuth
import SuperCache.Peer.AnnounceRead
import SuperCache.Server.AuthGate
import SuperCache.Server.TxMachine
import SuperCache.Server.ExecWindow
import SuperCache.Client.PubSubLocks
import SuperCache.Commands.PubSubRegistry
import SuperCache.Store.MSetNXLocked
import SuperCache.Commands.Serial
import SuperCache.Commands.Bounds
import SuperCache.Resp.Pipeline
import SuperCache.Peer.DialCalls
import SuperCache.Peer.ForgetRaces
import SuperCache.Server.Lifecycle
import SuperCache.Store.LruSections
import SuperCache.Store.Victims
import SuperCache.Commands.InPlace
import SuperCache.Commands.Counters
import SuperCache.Commands.Expiry
import SuperCache.Commands.Visible
import SuperCache.Commands.Scans
import SuperCache.Peer.ProofBinding
import SuperCache.Server.MemoryLimit
import SuperCache.Peer.GapBooks
import SuperCache.Peer.NetId
import SuperCache.Store.SnapshotTrip
