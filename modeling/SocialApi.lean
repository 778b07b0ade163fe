import SocialApi.Concurrent.Pool
import SocialApi.Services.LikeQueries
import SocialApi.Services.ContentBreaker
import SocialApi.Auth
import SocialApi.PubSub.FinishedBridges
import SocialApi.Services.MissingCounts
import SocialApi.Services.SharedFetch
import SocialApi.Repositories.WritePath
import SocialApi.Services.WaitsFor
import SocialApi.Clients.HalfOpenProbes
import SocialApi.Auth.RemoteFailures
import SocialApi.Streams
import SocialApi.Middleware.ErrorContext
import SocialApi.Middleware.Inflight
import SocialApi.Middleware.Metrics
import SocialApi.Middleware.OneProcess
import SocialApi.Middleware.Replicas
import SocialApi.Services.WriteResponses
import SocialApi.Services.WriterSources
import SocialApi.Services.SteadyCounts
import SocialApi.Services.CountAge
import SocialApi.Auth.Transports
import SocialApi.Repositories.LockOrder
import SocialApi.Leaderboard.Filtered
import SocialApi.Concurrent.Mending
import SocialApi.Services.Ledger
import SocialApi.Clients.RateRule
import SocialApi.Middleware.ReadAddress
import SocialApi.PubSub.Backoff
import SocialApi.Services.Sequential
import SocialApi.Services.Undecodable
import SocialApi.Cache.Entries
import SocialApi.Cache.Invalidation
import SocialApi.Concurrent.Tracked
import SocialApi.PubSub.Receivers
import SocialApi.PubSub.OneSender
import SocialApi.PubSub.Fed
import SocialApi.Grpc.LikesService
import SocialApi.Middleware.RetryAfter
import SocialApi.Services.Effects
import SocialApi.Services.Events
import SocialApi.Services.LastEvent
import SocialApi.Services.QuietCaches
import SocialApi.Services.Traversals
import SocialApi.Realtime.Conserved
import SocialApi.Clients.ContentClient
import SocialApi.Clients.TokenAge
import SocialApi.Clients.Outage
import SocialApi.Server.Quota
import SocialApi.Concurrent.Embedding
import SocialApi.Server.Refinement
import SocialApi.Concurrent.Effort
import SocialApi.Server.Effort
