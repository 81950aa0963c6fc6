import InferenceLogger.Foundation.Places
import InferenceLogger.Foundation.PyText
import InferenceLogger.Foundation.Json
import InferenceLogger.Foundation.Task
import InferenceLogger.Foundation.RelyGuarantee
import InferenceLogger.Foundation.Table
import InferenceLogger.Foundation.Transition
import InferenceLogger.Api.Sse
import InferenceLogger.Streaming.Bridge
import InferenceLogger.Domain.Enums
import InferenceLogger.Domain.Events
import InferenceLogger.Core.Errors
import InferenceLogger.Providers.Base
import InferenceLogger.Providers.Registry
import InferenceLogger.Instrumentation.Previews
import InferenceLogger.Instrumentation.Redaction
import InferenceLogger.Instrumentation.Wrapper
import InferenceLogger.Observation.Calls
import InferenceLogger.Observation.OneEvent
import InferenceLogger.Observation.Transparency
import InferenceLogger.Db.Models
import InferenceLogger.Db.Session
import InferenceLogger.Services.Chat
import InferenceLogger.Services.Transactions
import InferenceLogger.Streaming.Turns
import InferenceLogger.Streaming.Responses
import InferenceLogger.Streaming.Partial
import InferenceLogger.Streaming.InBand
import InferenceLogger.Events.RedisStream
import InferenceLogger.Db.Cluster
import InferenceLogger.Worker.Consumer
import InferenceLogger.Worker.System
import InferenceLogger.Ingestion.Disposition
import InferenceLogger.Ingestion.Provenance
import InferenceLogger.Ingestion.Contract
import InferenceLogger.Ingestion.Rules
import InferenceLogger.Ingestion.Handling
import InferenceLogger.Ingestion.Batch
import InferenceLogger.Ingestion.Frames
import InferenceLogger.Ingestion.Blocking
import InferenceLogger.Ingestion.Quarantine
import InferenceLogger.Ingestion.Runs
import InferenceLogger.Ingestion.Durability
import InferenceLogger.Ingestion.ExactlyOnce
import InferenceLogger.Ingestion.Deletion
import InferenceLogger.Events.Cursor
import InferenceLogger.Ingestion.Redelivery
import InferenceLogger.Foundation.Typestate
import InferenceLogger.Ingestion.Phases
import InferenceLogger.Foundation.Alone
import InferenceLogger.Foundation.Backtracking
import InferenceLogger.Ingestion.Consistency
import InferenceLogger.Instrumentation.DefaultRules
import InferenceLogger.Api.LogPages
import InferenceLogger.Observation.Disclosure
import InferenceLogger.Services.Conversations
import InferenceLogger.Conversations.Server
import InferenceLogger.Conversations.Phases
import InferenceLogger.Conversations.Programs
import InferenceLogger.Conversations.Transcript
import InferenceLogger.Conversations.Sessions
import InferenceLogger.Conversations.Statements
import InferenceLogger.Conversations.Commits
import InferenceLogger.Conversations.Aggregate
import InferenceLogger.Conversations.Prompts
import InferenceLogger.Foundation.Framing
import InferenceLogger.Foundation.JsJson
import InferenceLogger.Api.Frames
import InferenceLogger.Api.FrameData
import InferenceLogger.Frontend.Stream
import InferenceLogger.Frontend.RoundTrip
import InferenceLogger.Frontend.ChatWindow
import InferenceLogger.Frontend.OwnStream
import InferenceLogger.Domain.EventJson
import InferenceLogger.Events.Bus
import InferenceLogger.Foundation.Scanning
import InferenceLogger.Foundation.Marks
import InferenceLogger.Foundation.Rewriting
import InferenceLogger.Instrumentation.Identifiers
import InferenceLogger.Foundation.Budget
import InferenceLogger.Conversations.Windows
import InferenceLogger.Conversations.Exchanges
import InferenceLogger.Conversations.Dialogue
import InferenceLogger.Frontend.Echo
import InferenceLogger.Foundation.Percent
import InferenceLogger.Core.Connections
import InferenceLogger.Conversations.Clock
import InferenceLogger.Conversations.Recency
import InferenceLogger.Conversations.Streams
import InferenceLogger.Foundation.Settling
import InferenceLogger.Instrumentation.Settled
import InferenceLogger.Db.Metrics
import InferenceLogger.Foundation.Reports
import InferenceLogger.Frontend.Composer
import InferenceLogger.Frontend.Dashboard
import InferenceLogger.Ingestion.Insertable
import InferenceLogger.Instrumentation.Shutdown
import InferenceLogger.Observation.Adapters
import InferenceLogger.Observation.Drains
import InferenceLogger.Streaming.Chain
import InferenceLogger.Streaming.Teardown
import InferenceLogger.Frontend.Truncation
import InferenceLogger.Streaming.Delivery
import InferenceLogger.Frontend.Delivered
import InferenceLogger.Ingestion.Accounts
import InferenceLogger.Ingestion.Health
import InferenceLogger.Foundation.Words
import InferenceLogger.Foundation.Receiving
import InferenceLogger.Providers.Mock
import InferenceLogger.Providers.Catalogue
import InferenceLogger.Observation.MockCalls
import InferenceLogger.Frontend.Picker
import InferenceLogger.Conversations.MockTurns
import InferenceLogger.Conversations.Records
import InferenceLogger.Conversations.Speaking
import InferenceLogger.Conversations.Authorship
