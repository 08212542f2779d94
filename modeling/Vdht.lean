import Vdht.Lib.Bytes
import Vdht.Utils.Varray
import Vdht.Utils.VarrayRun
import Vdht.Core.Encode
import Vdht.Core.Decode
import Vdht.Core.RoundTrip
import Vdht.Core.Grammar
import Vdht.NodeId.Token
import Vdht.NodeId.Sockaddr
import Vdht.NodeId.AddrBlock
import Vdht.NodeId.NodeInfo
import Vdht.NodeId.SrvcInfo
import Vdht.Lib.Buckets
import Vdht.Route.NodeSpace
import Vdht.Route.Placement
import Vdht.Route.Closest
import Vdht.Route.Ranking
import Vdht.Dht.Decode
import Vdht.Dht.Message
import Vdht.Dht.RoundTrip
import Vdht.Lib.Action
import Vdht.Node.Reflex
import Vdht.Route.SrvcSpace
import Vdht.Route.Route
import Vdht.Lib.Ledger
import Vdht.Route.Known
import Vdht.Route.Accounting
import Vdht.Route.Records
import Vdht.Route.Payload
import Vdht.Lib.Mutex
import Vdht.Node.Locks
import Vdht.Route.Fields
import Vdht.Lib.Sweep
import Vdht.Route.TicketRun
import Vdht.Lib.OutBuf
import Vdht.Lsctl.Wire
import Vdht.Lsctl.Client
import Vdht.Lsctl.Pack
import Vdht.Lsctl.Daemon
import Vdht.Lsctl.Dispatch
import Vdht.Lsctl.Walk
import Vdht.Lsctl.Requests
import Vdht.Lsctl.Replies
import Vdht.Lsctl.ReplyBounds
import Vdht.Rpc.Msger
import Vdht.NodeId.SrvcAddrs
import Vdht.Node.Services
import Vdht.Node.Registry
import Vdht.Route.Announced
import Vdht.Route.Timeouts
import Vdht.Route.Capabilities
import Vdht.Lib.Fuel
import Vdht.Cfg.Parse
import Vdht.Cfg.Scan
import Vdht.Cfg.Writer
import Vdht.Cfg.RoundTrip
import Vdht.Lib.Turn
import Vdht.Cfg.Safety
import Vdht.Lib.Absorb
import Vdht.Hash.Fips
import Vdht.Hash.Sha1
import Vdht.Hash.Compare
import Vdht.Hash.Differs
import Vdht.Hash.Chunks
import Vdht.Hash.Reuse
import Vdht.Utils.Vmem
import Vdht.Utils.VmemRun
import Vdht.NodeId.Memory
import Vdht.NodeId.MemoryRun
import Vdht.Route.InfoRun
import Vdht.Route.Connected
import Vdht.Node.Lifecycle
import Vdht.Lib.Extremes
import Vdht.Route.Victim
import Vdht.Lib.StableSort
import Vdht.NodeId.Order
import Vdht.NodeId.Merge
import Vdht.Route.InfoOrder
import Vdht.Core.Overrun
import Vdht.Core.Taken
import Vdht.Core.Language
import Vdht.Lib.Heap
import Vdht.Core.Cleanup
import Vdht.Core.Holds
import Vdht.Core.CleanupRun
import Vdht.Core.FailedDecode
import Vdht.Route.Store
import Vdht.Route.StoreTexts
import Vdht.Route.StoreLoad
import Vdht.Lib.TopBit
import Vdht.NodeId.Distance
import Vdht.Route.TokenTexts
import Vdht.Route.VerTexts
import Vdht.Route.Peers
import Vdht.Route.Lookup
import Vdht.Node.Post
import Vdht.Route.Probes
import Vdht.Lib.Least
import Vdht.Route.Settling
import Vdht.Route.Eviction
import Vdht.Route.BestService
import Vdht.Lib.Words
import Vdht.Cfg.Words
import Vdht.Cfg.Room
import Vdht.Node.OwnAddrs
import Vdht.Node.NatCheck
import Vdht.Lib.CInt
import Vdht.Utils.Vsys
import Vdht.Node.Nice
import Vdht.Cfg.Lookup
import Vdht.Cfg.Timeouts
import Vdht.Lib.Ring
import Vdht.Utils.Vlist
import Vdht.Rpc.MsgQueue
import Vdht.Dht.Labels
import Vdht.Lib.Network
import Vdht.Route.Effects
import Vdht.Net.Host
import Vdht.Net.Matching
import Vdht.Net.Services
import Vdht.Route.Origins
import Vdht.Route.Faultless
import Vdht.Net.Faultless
import Vdht.Route.Answers
import Vdht.Net.Answers
import Vdht.Route.Learning
import Vdht.Net.Learning
import Vdht.Lib.Traffic
import Vdht.Net.Traffic
import Vdht.Route.Restart
import Vdht.Rpc.SendPath
import Vdht.Lsctl.Session
