import Mm1.Pool.Trie
import Mm1.Pool.TrieCanon
import Mm1.Pool.TrieOps
import Mm1.Pool.Lease
import Mm1.Pool.Run
import Mm1.Lib.Transition
import Mm1.Runtime.Container
import Mm1.Runtime.System
import Mm1.Lib.Settle
import Mm1.Runtime.Focus
import Mm1.Runtime.Pair
import Mm1.Runtime.WatchPending
import Mm1.Runtime.Watch
import Mm1.Lib.Mirror
import Mm1.Runtime.LinkAgree
import Mm1.Lib.Pending
import Mm1.Runtime.LinkExit
import Mm1.Runtime.Reuse
import Mm1.Runtime.Fork
import Mm1.Common.Basic
import Mm1.Address.Range
import Mm1.Runtime.Registry
import Mm1.Lib.SearchTree
import Mm1.Runtime.Networks
import Mm1.Runtime.Exited
import Mm1.Lib.Roster
import Mm1.Lib.History
import Mm1.Runtime.TaskRegistry
import Mm1.Sup.Decider
import Mm1.Sup.ChildExit
import Mm1.Sup.Start
import Mm1.Sup.Lifecycle
import Mm1.Sup.Shutdown
import Mm1.Sup.Restart
import Mm1.Sup.MixedSup
import Mm1.Sup.GroupRestart
import Mm1.Sup.UniformChild
import Mm1.Lib.OrderedMap
import Mm1.Multinode.RouteRegistry
import Mm1.Multinode.RouteTable
import Mm1.Multinode.RouteRun
import Mm1.Multinode.RouteConflict
import Mm1.Multinode.RouteLookup
import Mm1.Multinode.Manager
import Mm1.Lib.Least
import Mm1.Multinode.Connection
import Mm1.Lib.Replay
import Mm1.Multinode.Withdraw
import Mm1.Multinode.Replica
import Mm1.Multinode.Hops
import Mm1.Lib.Codec
import Mm1.Multinode.Pdu
import Mm1.Multinode.Writer
import Mm1.Multinode.Ttl
import Mm1.Lib.Fallible
import Mm1.Multinode.ProtocolRegistry
import Mm1.Multinode.Waitlist
import Mm1.Lib.BiMap
import Mm1.Multinode.MultipleProtocols
import Mm1.Multinode.Announce
import Mm1.Multinode.LocalRoutes
import Mm1.Sup.UniformSup
import Mm1.Sup.RestartWindow
import Mm1.Lib.Lease
import Mm1.NameService.Server
import Mm1.NameService.Expiry
import Mm1.Timer.Oneshot
import Mm1.Runtime.Mailbox
import Mm1.Runtime.MailboxQueue
import Mm1.Runtime.MailboxRun
import Mm1.Runtime.Ping
import Mm1.Ask.Client
import Mm1.Ask.Bystanders
import Mm1.Ask.Replies
import Mm1.Lib.Exchange
import Mm1.Multinode.Handshake
import Mm1.Pool.TrieCalls
import Mm1.Pool.TrieUnique
import Mm1.Runtime.Extent
import Mm1.Runtime.WatchTable
import Mm1.Lib.Radix
import Mm1.Common.Binary
import Mm1.Address.Text
import Mm1.Lib.KeyedTree
import Mm1.Logger.FilterTrie
import Mm1.Config.ActorConfig
import Mm1.Config.Validation
import Mm1.ProcMacros.Dispatch
import Mm1.Multinode.Cluster
import Mm1.NameService.Client
