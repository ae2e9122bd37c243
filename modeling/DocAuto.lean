import DocAuto.Process.Run
import DocAuto.Process.Program
import DocAuto.Schema
import DocAuto.Database.Table
import DocAuto.Database.Statement
import DocAuto.Database.Transaction
import DocAuto.Database.Record
import DocAuto.Database.Outcome
import DocAuto.Database.Commit
import DocAuto.Pipeline.Command
import DocAuto.Pipeline.Service
import DocAuto.Pipeline.Worker
import DocAuto.Pipeline.System
import DocAuto.Database.Frame
import DocAuto.Pipeline.Conduct
import DocAuto.Pipeline.Footprint
import DocAuto.Pipeline.Point
import DocAuto.Pipeline.Follows
import DocAuto.Pipeline.Lifecycle
import DocAuto.Pipeline.Moves
import DocAuto.Pipeline.Order
import DocAuto.Pipeline.Known
import DocAuto.Pipeline.Standing
import DocAuto.Pipeline.Writes
import DocAuto.Pipeline.Decisions
import DocAuto.Pipeline.Enabled
import DocAuto.Pipeline.Fencing
import DocAuto.Pipeline.Stored
import DocAuto.Pipeline.Replay
import DocAuto.Pipeline.Evidence
import DocAuto.Pipeline.Stranding
import DocAuto.Pipeline.Secrets
import DocAuto.Pipeline.Completion
import DocAuto.Pipeline.Redelivery
import DocAuto.Database.Write
import DocAuto.Database.Columns
import DocAuto.ReadCommitted.System
import DocAuto.ReadCommitted.Bodies
import DocAuto.ReadCommitted.Invariant
import DocAuto.ReadCommitted.Reviews
import DocAuto.ReadCommitted.Edits
import DocAuto.Tenancy.View
import DocAuto.Tenancy.Transactions
import DocAuto.Tenancy.Operations
import DocAuto.Tenancy.Noninterference
import DocAuto.Auth.Tokens
import DocAuto.Auth.Rotation
import DocAuto.Json.Members
import DocAuto.Auth.Identity
import DocAuto.Auth.Registration
import DocAuto.Auth.Uniqueness
import DocAuto.RateLimit.SlidingWindow
import DocAuto.RateLimit.AuthEndpoints
import DocAuto.RateLimit.ExactWindow
import DocAuto.RateLimit.ClientWide
import DocAuto.RateLimit.Guesses
import DocAuto.Migrations.Watermark
import DocAuto.Migrations.Journal
import DocAuto.Database.Deliveries
import DocAuto.Webhook.Point
import DocAuto.Webhook.Served
import DocAuto.Webhook.Outbox
import DocAuto.Webhook.Numbering
import DocAuto.Webhook.Announcement
import DocAuto.Webhook.Budget
import DocAuto.Webhook.Finality
import DocAuto.Webhook.Sequence
import DocAuto.Decision.Routing
import DocAuto.Decision.Rounding
import DocAuto.Validators.Extraction
import DocAuto.Decision.Recheck
import DocAuto.Pipeline.Threshold
import DocAuto.Validators.Documents
import DocAuto.Pipeline.Storable
import DocAuto.Path.Posix
import DocAuto.Path.Url
import DocAuto.Storage.Drivers
import DocAuto.Storage.Separation
import DocAuto.Pipeline.StorageKey
import DocAuto.Database.Pool
import DocAuto.Paging.Pages
import DocAuto.Database.Listing
import DocAuto.Config.Env
import DocAuto.Config.Mocks
import DocAuto.Pipeline.Provenance
import DocAuto.Pipeline.Workers
import DocAuto.Process.Amortised
import DocAuto.Pipeline.Effort
import DocAuto.Http.Answered
import DocAuto.Http.Separation
