import SyncSystem.Raft.TermTheorems
import SyncSystem.Raft.SendTheorems
import SyncSystem.Raft.ElectionSafety
import SyncSystem.Raft.ElectionRestriction
import SyncSystem.Raft.VoteResponses
import SyncSystem.Raft.StaleMessages
import SyncSystem.Raft.RoleTheorems
import SyncSystem.Raft.LeaderNames
import SyncSystem.Raft.RejectedMessages
import SyncSystem.Raft.Candidacy
import SyncSystem.Raft.LogShape
import SyncSystem.Raft.LogMatching
import SyncSystem.Raft.Availability
import SyncSystem.Communication.Heartbeats
import SyncSystem.Communication.Records
import SyncSystem.Communication.Quorum
import SyncSystem.Communication.MessagePassing
import SyncSystem.Communication.Replies
import SyncSystem.Locks.MutualExclusion
import SyncSystem.Locks.LiveWaiters
import SyncSystem.Locks.Leases
import SyncSystem.Locks.Readers
import SyncSystem.Locks.Holders
import SyncSystem.Locks.FailedAcquires
import SyncSystem.Locks.FirstCome
import SyncSystem.Locks.SharedHolders
import SyncSystem.Locks.BoundedWaiting
import SyncSystem.Locks.DeadlockDetection
import SyncSystem.Queue.Acknowledgement
import SyncSystem.Queue.Topics
import SyncSystem.Queue.Order
import SyncSystem.Queue.Routing
import SyncSystem.Queue.Polling
import SyncSystem.Queue.Redelivery
import SyncSystem.Cache.Replacement
import SyncSystem.Cache.Reads
import SyncSystem.Cache.Flushes
import SyncSystem.Cache.Versions
import SyncSystem.Cache.TouchOrder
import SyncSystem.Cache.Lines
import SyncSystem.Cache.Inclusion
import SyncSystem.Server.Coherence
import SyncSystem.Server.LockExpiry
import SyncSystem.Server.HeartbeatNames
import SyncSystem.Server.CacheRoundTrip
import SyncSystem.Server.StatusEndpoints
import SyncSystem.Server.Segments
import SyncSystem.Server.Elections
import SyncSystem.Server.Isolation
import SyncSystem.Server.Exchange
import SyncSystem.Server.LockStatus
import SyncSystem.Queue.Accounting
import SyncSystem.Server.FailureReports
