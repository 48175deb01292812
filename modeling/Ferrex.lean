import Ferrex.Lib.Transition
import Ferrex.Lib.Table
import Ferrex.Lib.IntentJournal
import Ferrex.Lib.Text
import Ferrex.Lib.Stamps
import Ferrex.Lib.Lru
import Ferrex.Lib.Mutex
import Ferrex.Lib.History
import Ferrex.Lib.Best
import Ferrex.Lib.Groups
import Ferrex.Lib.Cover
import Ferrex.Lib.Semaphore
import Ferrex.Lib.Window
import Ferrex.Lib.Paging
import Ferrex.Store.Metadata
import Ferrex.Store.Vector
import Ferrex.Store.Sidecar
import Ferrex.Store.SidecarFiles
import Ferrex.Store.SidecarShared
import Ferrex.Store.Restart
import Ferrex.Core.Predicate
import Ferrex.Core.Entity
import Ferrex.Core.Pipeline
import Ferrex.Core.Store
import Ferrex.Core.Effect
import Ferrex.Core.Calls
import Ferrex.Core.Service
import Ferrex.Core.Sound
import Ferrex.Core.Journal
import Ferrex.Core.Consistency
import Ferrex.Core.Recall
import Ferrex.Core.EntityFilter
import Ferrex.Core.Ranking
import Ferrex.Core.Staleness
import Ferrex.Core.Admin
import Ferrex.Core.Backfill
import Ferrex.Core.Audit
import Ferrex.Core.Stats
import Ferrex.Core.Reflect
import Ferrex.Core.Contradictions
import Ferrex.Core.Duplicate
import Ferrex.Core.Sequential
import Ferrex.Core.Registry
import Ferrex.Core.Rejected
import Ferrex.Core.Resolution
import Ferrex.Core.Isolation
import Ferrex.Core.Rows
import Ferrex.Core.Facts
import Ferrex.Core.Supersede
import Ferrex.Lib.Timeline
import Ferrex.Core.History
import Ferrex.Core.AccessTracker
import Ferrex.Core.Cache
import Ferrex.Core.Cached
import Ferrex.Core.Accesses
import Ferrex.Core.Validation
import Ferrex.Core.Invalidation
import Ferrex.Core.RecallKey
import Ferrex.Daemon.Idle
import Ferrex.Daemon.Serve
import Ferrex.Daemon.Spawn
import Ferrex.Daemon.Listener
import Ferrex.Daemon.Accounting
import Ferrex.Daemon.IdleExit
import Ferrex.Proxy.Track
import Ferrex.Proxy.Loop
import Ferrex.Proxy.Moves
import Ferrex.Proxy.Pump
import Ferrex.Proxy.Drain
import Ferrex.Proxy.Delivery
import Ferrex.Proxy.Survival
import Ferrex.Proxy.Initialized
import Ferrex.Proxy.Accepted
import Ferrex.Proxy.Readers
import Ferrex.Proxy.Attempts
import Ferrex.Proxy.Budget
import Ferrex.Proxy.Metering
import Ferrex.Proxy.Stall
import Ferrex.Proxy.Follow
import Ferrex.Core.NormalText
import Ferrex.Core.Config
import Ferrex.Core.Serialize
import Ferrex.Core.Synonyms
import Ferrex.Core.FactKeys
import Ferrex.Core.Drains
import Ferrex.Core.Timestamps
import Ferrex.Proxy.Kept
import Ferrex.Daemon.Key
import Ferrex.Daemon.Deadline
import Ferrex.Core.Cutoff
import Ferrex.Core.ExactScore
import Ferrex.Core.Aggregated
import Ferrex.Proxy.Waiting
import Ferrex.Daemon.PidFile
import Ferrex.Daemon.Guard
import Ferrex.Core.Durable
import Ferrex.Core.EntityTimeline
import Ferrex.Lib.Erasure
import Ferrex.Core.Pruning
import Ferrex.Core.Labels
import Ferrex.Core.Recalled
import Ferrex.Daemon.Handshake
import Ferrex.Lib.Utf8
import Ferrex.Lib.JsonReader
import Ferrex.Daemon.Exchange
import Ferrex.Daemon.Heard
import Ferrex.Daemon.Accepted
import Ferrex.Daemon.SameConfig
import Ferrex.Store.Ensure
import Ferrex.Store.Initializer
import Ferrex.Store.Memo
