import Dnss.Library.Word
import Dnss.Library.Cursor
import Dnss.Library.Separated
import Dnss.Library.Machine
import Dnss.Library.DirectMapped
import Dnss.Library.Assoc
import Dnss.Library.Slots
import Dnss.Library.Ring
import Dnss.Library.Double
import Dnss.Library.Occurrence
import Dnss.Library.LeastSquares
import Dnss.Library.Scan
import Dnss.Protocol.Message
import Dnss.Protocol.Name
import Dnss.Protocol.Codec
import Dnss.Protocol.NameWalk
import Dnss.Protocol.Walk
import Dnss.Protocol.NameEquals
import Dnss.Protocol.ParseGrammar
import Dnss.Protocol.ParseSafety
import Dnss.Protocol.PackGrammar
import Dnss.Protocol.RoundTrip
import Dnss.Protocol.Confinement
import Dnss.Protocol.Prefix
import Dnss.Wire.Grammar
import Dnss.Wire.Functional
import Dnss.Wire.Encode
import Dnss.Config.Args
import Dnss.Config.File
import Dnss.Cache.Turbo
import Dnss.Cache.Resolver
import Dnss.Cache.Disk
import Dnss.Cache.DiskLoad
import Dnss.Cache.Runs
import Dnss.Cache.Replies
import Dnss.Cache.Rcode
import Dnss.Cache.Collisions
import Dnss.Cache.Bounds
import Dnss.Cache.Lifetimes
import Dnss.Cache.Tiers
import Dnss.Cache.DiskRoundTrip
import Dnss.Cache.FastPath
import Dnss.Cache.Stores
import Dnss.Cache.Failures
import Dnss.Cache.Worker
import Dnss.Cache.Capacity
import Dnss.Cache.Eviction
import Dnss.Cache.Prewarm
import Dnss.Cache.Shelter
import Dnss.Cache.Statistics
import Dnss.Cache.Refresh
import Dnss.Upstream.SystemResolver
import Dnss.Upstream.HttpExchange
import Dnss.Upstream.HttpBody
import Dnss.Upstream.HttpResolver
import Dnss.Upstream.RoundRobin
import Dnss.Upstream.ConnectionController
import Dnss.Upstream.Reconnects
import Dnss.Upstream.KeepAlive
import Dnss.Upstream.Pools
import Dnss.Upstream.Probing
import Dnss.Upstream.Chained
import Dnss.Server.DomainMap
import Dnss.Server.MostSpecific
import Dnss.Server.Routing
import Dnss.Server.Udp
import Dnss.Server.ReplyIds
import Dnss.Server.Framing
import Dnss.Server.Accounting
import Dnss.Server.ThreadPool
import Dnss.Server.NameRoutes
import Dnss.Server.RateLimiter
import Dnss.Server.Shutdown
import Dnss.Server.Joining
import Dnss.Server.Overrides
import Dnss.Server.Https
import Dnss.Server.Monitor
import Dnss.Tuning.PerfMonitor
import Dnss.Tuning.AutoTuner
import Dnss.Tuning.Envelope
import Dnss.Tuning.Ttls
import Dnss.Tuning.Pacing
import Dnss.Tuning.LatencyManager
import Dnss.Tuning.Idle
import Dnss.Tuning.Recovery
import Dnss.Tuning.TuneLoop
