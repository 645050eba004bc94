import GoRestApi.Lts.Run
import GoRestApi.Go.Time
import GoRestApi.Store.UserStore
import GoRestApi.Store.UserStoreTheorems
import GoRestApi.Events.Outbox
import GoRestApi.Events.Dispatch
import GoRestApi.Events.DispatchTheorems
import GoRestApi.Events.DeliveryTheorems
import GoRestApi.Jobs.Queue
import GoRestApi.Jobs.Registry
import GoRestApi.Retry.Ledger
import GoRestApi.Jobs.RegistryTheorems
import GoRestApi.Go.Strings
import GoRestApi.Jobs.Redis
import GoRestApi.Jobs.RedisTheorems
import GoRestApi.Retry.Life
import GoRestApi.Jobs.RegistryBudget
import GoRestApi.Jobs.RedisBudget
import GoRestApi.Idempotency.Memory
import GoRestApi.Lts.Gate
import GoRestApi.Idempotency.MemoryTheorems
import GoRestApi.Idempotency.Sequential
import GoRestApi.Idempotency.Isolation
import GoRestApi.Auth.Blacklist
import GoRestApi.Auth.Jwt
import GoRestApi.Handler.Auth
import GoRestApi.Handler.User
import GoRestApi.Handler.ResetTokens
import GoRestApi.Handler.UserTheorems
import GoRestApi.Handler.Accounts
import GoRestApi.Handler.AccountsTheorems
import GoRestApi.Handler.PasswordReset
import GoRestApi.Handler.PasswordResetTheorems
import GoRestApi.Handler.Refresh
import GoRestApi.Handler.RefreshTheorems
import GoRestApi.Server.Session
import GoRestApi.Server.SessionTheorems
import GoRestApi.Cache.UserCache
import GoRestApi.Store.CachedUserStore
import GoRestApi.Store.CachedUserStoreTheorems
import GoRestApi.Limit.TokenBucket
import GoRestApi.RateLimit.Limiter
import GoRestApi.RateLimit.LimiterTheorems
import GoRestApi.Server.RateLimit
import GoRestApi.Server.RateLimitTheorems
import GoRestApi.Server.Idempotency
import GoRestApi.Server.IdempotencyTheorems
import GoRestApi.Idempotency.Redis
import GoRestApi.Idempotency.RedisRefinement
import GoRestApi.Idempotency.RedisExpiry
import GoRestApi.Store.CachedSequential
import GoRestApi.Store.UserIdentity
import GoRestApi.Store.PostgresUserStore
import GoRestApi.Jobs.RedisPending
import GoRestApi.Events.Fifo
import GoRestApi.Events.FifoTheorems
import GoRestApi.Events.Blocked
import GoRestApi.Server.IdempotencyFallback
import GoRestApi.Server.Chain
import GoRestApi.Server.ChainTheorems
import GoRestApi.RateLimit.RetryAfter
import GoRestApi.Jobs.QueueWaiting
import GoRestApi.Jobs.Backoff
import GoRestApi.Jobs.RetrySpacing
import GoRestApi.Server.CorsTheorems
import GoRestApi.Handler.RefreshFailure
import GoRestApi.Server.BlacklistCleanup
import GoRestApi.Handler.ResetFailure
import GoRestApi.Store.CachedPayload
import GoRestApi.Server.IdempotencyReplay
import GoRestApi.Ieee.Rounding
import GoRestApi.Ieee.Binary64
import GoRestApi.Ieee.Countdown
import GoRestApi.RateLimit.FloatLimiter
import GoRestApi.Process.Config
import GoRestApi.Process.ConfigTheorems
import GoRestApi.Jobs.RedisCalls
import GoRestApi.Jobs.Shutdown
import GoRestApi.Server.Routes
import GoRestApi.Server.RoutesTheorems
import GoRestApi.Server.RoutesIdentity
import GoRestApi.Server.Replicas
import GoRestApi.Server.ReplicasTheorems
import GoRestApi.Process.Application
import GoRestApi.Process.WelcomeMail
import GoRestApi.Store.PostgresDatabase
import GoRestApi.Store.PostgresRefinement
import GoRestApi.Events.InOrder
import GoRestApi.Events.Pipeline
import GoRestApi.Cache.RedisCache
import GoRestApi.Process.UserEvents
import GoRestApi.Process.UserEventsTheorems
import GoRestApi.Server.SharedLimit
