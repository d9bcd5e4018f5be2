import Hydracore.Bond.RoundTrip
import Hydracore.Bond.Settling
import Hydracore.Cachefile.DnsSaves
import Hydracore.Cachefile.Latest
import Hydracore.Call.Boundaries
import Hydracore.Call.Closing
import Hydracore.Call.Generations
import Hydracore.Call.Obfuscator
import Hydracore.Call.TurnCredentials
import Hydracore.Common.Version
import Hydracore.Daemon.Convergence
import Hydracore.Daemon.History
import Hydracore.Dns.Caching
import Hydracore.Dns.FakeIP
import Hydracore.Dns.Orders
import Hydracore.Failover.Integrity
import Hydracore.Failover.Locking
import Hydracore.Group.URLTest
import Hydracore.Kcp.Delivery
import Hydracore.Libbox.NativeKeys
import Hydracore.Libbox.VersionRange
import Hydracore.Limiters.Revocation
import Hydracore.Manager.Capacity
import Hydracore.Node.LostLock
import Hydracore.Parasite.Client.Admission
import Hydracore.Parasite.Client.HealthHistory
import Hydracore.Parasite.Datagram.Bounds
import Hydracore.Parasite.Datagram.RoundTrip
import Hydracore.Parasite.ObfsRoundTrip
import Hydracore.Parasite.Relay.Picking
import Hydracore.Parasite.Relay.Rebinding
import Hydracore.Parasite.Router.Registration
import Hydracore.Parasite.Server.AttachSafety
import Hydracore.Parasite.Server.Reaping
import Hydracore.Parasite.Server.Refusals
import Hydracore.Provider.Agreement
import Hydracore.Remote.Discipline
import Hydracore.Rules.PreMatch
import Hydracore.Rules.SourceShape
import Hydracore.Runtime.Isolation
import Hydracore.Ssmapi.Users
import Hydracore.Sudoku.Framing
import Hydracore.Sudoku.Freshness
import Hydracore.Sudoku.Integrity
import Hydracore.Sudoku.Shutdown
import Hydracore.Tlsfragment.Transparency
import Hydracore.Traffic.Conn
import Hydracore.Traffic.Conservation
import Hydracore.Traffic.Quota
import Hydracore.Vless.Lasting
import Hydracore.Xhttp.Sweep
