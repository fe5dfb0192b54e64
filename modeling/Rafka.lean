import Rafka.Trace
import Rafka.Mpsc
import Rafka.HashMap
import Rafka.Cascade
import Rafka.Expiry
import Rafka.Time
import Rafka.Wire
import Rafka.Wal
import Rafka.Partition
import Rafka.Retention
import Rafka.Crash
import Rafka.Lock
import Rafka.Storage
import Rafka.ConsumerOffsets
import Rafka.PolicyChange
import Rafka.Inventory
import Rafka.QueueTasks
import Rafka.Paging
import Rafka.Restart
import Rafka.Path
import Rafka.WalPath
import Rafka.Mesh
import Rafka.Removal
import Rafka.Flood
import Rafka.Heartbeat
import Rafka.Net
import Rafka.MeshSync
import Rafka.MeshRpc
import Rafka.MeshFaults
import Rafka.MeshNetwork
import Rafka.ZeroCopy
import Rafka.Framing
import Rafka.Utf8
import Rafka.Batching
import Rafka.Log
import Rafka.Broker
import Rafka.Publish
import Rafka.Drainage
import Rafka.Order
import Rafka.Serve
import Rafka.RwLock
import Rafka.Topics
import Rafka.Streams
import Rafka.Isolation
import Rafka.Delivery
import Rafka.Cluster
import Rafka.Ledger
import Rafka.Routing
import Rafka.Membership
import Rafka.Guard
import Rafka.TwoPhase
import Rafka.ForwardLocks
import Rafka.Replication
import Rafka.InSync
import Rafka.Election
import Rafka.Quorum
import Rafka.Coordinator
import Rafka.GroupLaws
import Rafka.GroupTasks
import Rafka.GroupClients
import Rafka.SimpleStream
import Rafka.Assignment
import Rafka.Transactions
import Rafka.TransactionHistory
import Rafka.TxnTasks
import Rafka.Compaction
import Rafka.Reclaim
import Rafka.CompactedTable
import Rafka.Histogram
import Rafka.Rounding
import Rafka.Average
import Rafka.RateCounter
import Rafka.RatePolls
import Rafka.Health
import Rafka.Liveness
import Rafka.Rank
import Rafka.MessagePool
