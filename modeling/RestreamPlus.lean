import RestreamPlus.Lib.Machine
import RestreamPlus.Lib.Monitor
import RestreamPlus.Lib.WaitingLine
import RestreamPlus.Lib.Dict
import RestreamPlus.Lib.Holders
import RestreamPlus.Lib.SymbolicCrypto
import RestreamPlus.Lib.Replace
import RestreamPlus.Lib.Sequential
import RestreamPlus.Lib.Spacing
import RestreamPlus.Lib.SlidingWindow
import RestreamPlus.Lib.Coroutine
import RestreamPlus.Lib.TaskGroup
import RestreamPlus.Lib.Passage
import RestreamPlus.Lib.WriteLock
import RestreamPlus.Lib.Tickets
import RestreamPlus.Lib.Condition
import RestreamPlus.Lib.DropOldest
import RestreamPlus.LoggingSetup
import RestreamPlus.Domain.RunState
import RestreamPlus.Domain.Target
import RestreamPlus.Domain.WorkerState
import RestreamPlus.Domain.CircuitBreaker
import RestreamPlus.Domain.BreakerHistory
import RestreamPlus.Auth.KeyMaterial
import RestreamPlus.Auth.RateLimit
import RestreamPlus.Auth.BruteForce
import RestreamPlus.Auth.Passwords
import RestreamPlus.Auth.Sessions
import RestreamPlus.Auth.PasswordChange
import RestreamPlus.Auth.Rehash
import RestreamPlus.Auth.PasswordReset
import RestreamPlus.Repositories.Database
import RestreamPlus.Repositories.Accounts
import RestreamPlus.Repositories.Settings
import RestreamPlus.Db.SchemaInit
import RestreamPlus.Db.Bootstrap
import RestreamPlus.Fanout.EventBus
import RestreamPlus.Fanout.Urls
import RestreamPlus.Fanout.Backoff
import RestreamPlus.Fanout.FFmpegWorker
import RestreamPlus.Fanout.ProcessOwnership
import RestreamPlus.Fanout.DeadTarget
import RestreamPlus.Fanout.WorkerIndex
import RestreamPlus.Fanout.Supervisor
import RestreamPlus.Fanout.SupervisorInvariant
import RestreamPlus.Fanout.SupervisorFrame
import RestreamPlus.Fanout.RunExclusion
import RestreamPlus.Fanout.FFmpegArgs
import RestreamPlus.Fanout.IndexAgreement
import RestreamPlus.Fanout.Shutdown
import RestreamPlus.Fanout.SecretCoverage
import RestreamPlus.Fanout.Sequential
import RestreamPlus.Fanout.Teardown
import RestreamPlus.Fanout.Recovery
import RestreamPlus.Fanout.RunHistory
import RestreamPlus.Api.Targets
import RestreamPlus.Api.Agreement
import RestreamPlus.Api.InternalRtmp
import RestreamPlus.Api.Ingest
import RestreamPlus.Api.SessionCredentials
import RestreamPlus.Api.Rotation
import RestreamPlus.Api.Handlers
import RestreamPlus.Api.Backend
import RestreamPlus.Api.Discipline
import RestreamPlus.Api.RunRotation
import RestreamPlus.Api.KeyCoherence
import RestreamPlus.Api.LockOrder
import RestreamPlus.Api.RotationRecovery
import RestreamPlus.Fanout.Redaction
import RestreamPlus.Fanout.RedactionSafety
import RestreamPlus.Fanout.RedactionFraming
import RestreamPlus.Web.StatusStream
import RestreamPlus.Api.Admission
import RestreamPlus.Api.Unlock
import RestreamPlus.Domain.UiState
import RestreamPlus.Fanout.TargetView
import RestreamPlus.Fanout.Tracking
import RestreamPlus.Api.TargetTracking
import RestreamPlus.Lib.Feed
import RestreamPlus.Web.WsReducer
import RestreamPlus.Api.Ws
import RestreamPlus.Api.Projections
import RestreamPlus.Api.Broadcast
import RestreamPlus.Fanout.AttemptOverflow
import RestreamPlus.Fanout.BackoffHistory
import RestreamPlus.Fanout.StateEvents
import RestreamPlus.Fanout.ProgressShown
import RestreamPlus.Fanout.CleanStop
import RestreamPlus.Lib.Utf8
import RestreamPlus.Fanout.RedactionTermination
import RestreamPlus.Fanout.RedactionLength
import RestreamPlus.Fanout.RedactionTransparency
import RestreamPlus.Lib.IntText
import RestreamPlus.Lib.Json
import RestreamPlus.Fanout.ProgressParser
import RestreamPlus.Fanout.ProgressFraming
import RestreamPlus.Fanout.ProgressRendering
import RestreamPlus.Fanout.UrlParts
import RestreamPlus.Lib.Fencing
import RestreamPlus.LogRedaction
import RestreamPlus.Auth.RetryAfter
import RestreamPlus.Auth.ClientIp
import RestreamPlus.Auth.Reprompts
import RestreamPlus.Fanout.HostStats
import RestreamPlus.Lib.Paging
import RestreamPlus.Api.SessionsHistory
import RestreamPlus.Web.CacheFold
import RestreamPlus.Web.LiveMetrics
import RestreamPlus.Api.SensitiveActions
import RestreamPlus.Auth.CredentialHistory
import RestreamPlus.Fanout.DropAlerts
import RestreamPlus.Api.AuditTrail
import RestreamPlus.Web.RecentEvents
import RestreamPlus.Api.LockedMode
import RestreamPlus.Api.SaltHistory
