import DistributedCache.Cluster.Lookup
import DistributedCache.Library.Run
import DistributedCache.Library.Relocation
import DistributedCache.Cluster.KeyView
import DistributedCache.Cluster.Refinement
import DistributedCache.Cluster.Calls
import DistributedCache.Cluster.KeyValueMap
import DistributedCache.Cluster.Failover
import DistributedCache.Cluster.HealthyCalls
import DistributedCache.Cluster.Replication
import DistributedCache.Cluster.Topology
import DistributedCache.Cluster.Survival
import DistributedCache.Library.Overlap
import DistributedCache.Cluster.Overlapping
import DistributedCache.Cluster.ConcurrentUpdates
import DistributedCache.Cluster.History
import DistributedCache.Cluster.Rejoining
import DistributedCache.Cluster.RingHistory
import DistributedCache.Cache.Operations
import DistributedCache.Cache.Capacity
import DistributedCache.Cache.Retention
import DistributedCache.Cluster.Copies
import DistributedCache.Cluster.Deadline
import DistributedCache.Cluster.Readback
import DistributedCache.Cluster.Deletion
import DistributedCache.Cluster.Unreachable
import DistributedCache.Cluster.Growth
import DistributedCache.Cluster.ClockOffsets
import DistributedCache.Cluster.HttpTransport
import DistributedCache.Cluster.RingLookup
import DistributedCache.Cluster.Membership
import DistributedCache.Cache.Expiration
import DistributedCache.Cache.CleanupTiming
import DistributedCache.Cluster.NodeViews
import DistributedCache.Cluster.NecessaryMoves
import DistributedCache.Cluster.LinearizableCalls
import DistributedCache.Cluster.Provenance
import DistributedCache.Cluster.InProcessCalls
import DistributedCache.Cluster.BackgroundProgress
import DistributedCache.Cluster.CrashTolerance
import DistributedCache.Cluster.FailureDetection
import DistributedCache.Cluster.Forgetting
import DistributedCache.Cluster.HeartbeatLoop
import DistributedCache.Cluster.SameContents
import DistributedCache.Cluster.LimitedCalls
import DistributedCache.Cluster.EventLoop
import DistributedCache.Api.App
import DistributedCache.Api.Sessions
