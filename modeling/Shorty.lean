import Shorty.Lib.Keyed
import Shorty.Lib.Run
import Shorty.Lib.Proc
import Shorty.Lib.Pool
import Shorty.Lib.Pipe
import Shorty.Lib.Paging
import Shorty.Lib.Ring
import Shorty.Lib.TokenBucket
import Shorty.Lib.Token
import Shorty.Lib.Routing
import Shorty.Lib.Base64
import Shorty.Lib.Json
import Shorty.Lib.Rfc3339
import Shorty.Time
import Shorty.Domain
import Shorty.Stats
import Shorty.Stats.Window
import Shorty.Stats.Top
import Shorty.Stats.Overflow
import Shorty.RateLimit
import Shorty.RateLimit.Admission
import Shorty.RateLimit.Eviction
import Shorty.RateLimit.Denials
import Shorty.InMemory
import Shorty.InMemory.InStep
import Shorty.InMemory.Purge
import Shorty.InMemory.Locking
import Shorty.InMemory.Listing
import Shorty.InMemory.Enumeration
import Shorty.InMemory.Traversal
import Shorty.InMemory.History
import Shorty.Postgres
import Shorty.Repository
import Shorty.Repository.PurgeListing
import Shorty.Postgres.Statements
import Shorty.Postgres.NoLostUpdate
import Shorty.Postgres.Linearizable
import Shorty.Postgres.Expiry
import Shorty.Cache
import Shorty.Server
import Shorty.Auth
import Shorty.Auth.Acceptance
import Shorty.Api.Error
import Shorty.Api.Dto
import Shorty.Api.Handlers
import Shorty.Config
import Shorty.Api.Spec
import Shorty.Api.Ttl
import Shorty.Api.Calls
import Shorty.Api.StatsEndpoints
import Shorty.Grpc
import Shorty.Grpc.Server
import Shorty.Grpc.Walk
import Shorty.Postgres.Traversal
import Shorty.Service
import Shorty.Grpc.Stream
import Shorty.Service.Transparency
import Shorty.Service.Purging
import Shorty.Service.Hits
import Shorty.Service.Interleaved
import Shorty.Service.Progress
import Shorty.Service.Staleness
import Shorty.Service.Transports
import Shorty.Service.Validity
import Shorty.Service.Outages
import Shorty.Service.Optimistic
import Shorty.Service.Creates
import Shorty.Service.Credited
import Shorty.Router
import Shorty.Router.Cursors
import Shorty.Router.Following
import Shorty.Router.Anonymous
import Shorty.Api.RateLimit
import Shorty.Router.Limits
import Shorty.Router.Metrics
import Shorty.Timed.Counters
import Shorty.Timed.Dropped
import Shorty.Timed.Refinement
import Shorty.Backends
import Shorty.Timed.Expiries
import Shorty.Cleanup
import Shorty.Process
import Shorty.Process.Shutdown
import Shorty.Process.Skeleton
import Shorty.Process.Deadlines
import Shorty.Process.Residency
import Shorty.Router.Layers
import Shorty.Router.Serving
import Shorty.Router.Answers
