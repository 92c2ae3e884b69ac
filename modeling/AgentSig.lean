import AgentSig.Commons.Base64
import AgentSig.Commons.Binary64
import AgentSig.Commons.FormUrlencoded
import AgentSig.Commons.IpText
import AgentSig.Commons.Json
import AgentSig.Commons.JsonStrings
import AgentSig.Commons.JsonText
import AgentSig.Commons.Narrowing
import AgentSig.Commons.NumberText
import AgentSig.Commons.OrderedMap
import AgentSig.Commons.Outcome
import AgentSig.Commons.Pacing
import AgentSig.Commons.QuotedText
import AgentSig.Commons.Rounding
import AgentSig.Commons.Runs
import AgentSig.Commons.SpanTrees
import AgentSig.Commons.Text
import AgentSig.Commons.Unicode
import AgentSig.StructuredFields.BareItems
import AgentSig.StructuredFields.BareTexts
import AgentSig.StructuredFields.CanonicalText
import AgentSig.StructuredFields.Conformance
import AgentSig.StructuredFields.Decimal
import AgentSig.StructuredFields.Determinism
import AgentSig.StructuredFields.Limits
import AgentSig.StructuredFields.MemberLines
import AgentSig.StructuredFields.Narrowing
import AgentSig.StructuredFields.Parse
import AgentSig.StructuredFields.Parser
import AgentSig.StructuredFields.Positions
import AgentSig.StructuredFields.Retraction
import AgentSig.StructuredFields.Rfc9651
import AgentSig.StructuredFields.RoundTrip
import AgentSig.StructuredFields.Serializer
import AgentSig.StructuredFields.SpanTexts
import AgentSig.StructuredFields.Spans
import AgentSig.StructuredFields.Types
import AgentSig.Core.CoveredFields
import AgentSig.Core.Crypto
import AgentSig.Core.Folding
import AgentSig.Core.Headers
import AgentSig.Core.Injectivity
import AgentSig.Core.Limits
import AgentSig.Core.MessageRoundTrip
import AgentSig.Core.Narrowing
import AgentSig.Core.QueryParameters
import AgentSig.Core.SignatureBase
import AgentSig.Core.SignatureHeaders
import AgentSig.Core.SignatureInput
import AgentSig.Core.TargetIdentity
import AgentSig.Core.Targets
import AgentSig.Core.Transport
import AgentSig.Core.Uniqueness
import AgentSig.Core.Uri
import AgentSig.Core.Verification
import AgentSig.Profiles.Accounting
import AgentSig.Profiles.AgentBindings
import AgentSig.Profiles.AgentHeader
import AgentSig.Profiles.AgentOrigin
import AgentSig.Profiles.AtMostOnce
import AgentSig.Profiles.CandidateEvaluation
import AgentSig.Profiles.CandidateReplay
import AgentSig.Profiles.Candidates
import AgentSig.Profiles.CanonicalOrigins
import AgentSig.Profiles.ClockHealth
import AgentSig.Profiles.ClockTracker
import AgentSig.Profiles.Codes
import AgentSig.Profiles.Controller
import AgentSig.Profiles.ControllerEvents
import AgentSig.Profiles.ControllerHistory
import AgentSig.Profiles.ControllerRuns
import AgentSig.Profiles.Coverage
import AgentSig.Profiles.Duplicates
import AgentSig.Profiles.Engine
import AgentSig.Profiles.EngineOutcomes
import AgentSig.Profiles.EngineRuns
import AgentSig.Profiles.EngineSystem
import AgentSig.Profiles.EngineTurns
import AgentSig.Profiles.EpochRuns
import AgentSig.Profiles.JwkPolicy
import AgentSig.Profiles.Jwks
import AgentSig.Profiles.JwksAgreement
import AgentSig.Profiles.JwksInput
import AgentSig.Profiles.JwksTraversal
import AgentSig.Profiles.JwksTrees
import AgentSig.Profiles.KeyMaterial
import AgentSig.Profiles.KeySets
import AgentSig.Profiles.LoadJwks
import AgentSig.Profiles.MemoryReference
import AgentSig.Profiles.Metadata
import AgentSig.Profiles.OperationEpochs
import AgentSig.Profiles.OwnedMemory
import AgentSig.Profiles.ProfileLimits
import AgentSig.Profiles.PublicJwk
import AgentSig.Profiles.RecoveryHorizon
import AgentSig.Profiles.ReplayGrouping
import AgentSig.Profiles.ReplayRounds
import AgentSig.Profiles.ReplayStore
import AgentSig.Profiles.RequestRoundTrip
import AgentSig.Profiles.ResetAtomicity
import AgentSig.Profiles.ResetSafety
import AgentSig.Profiles.ResetTurns
import AgentSig.Profiles.SignedClaim
import AgentSig.Profiles.SignedRequests
import AgentSig.Profiles.Signer
import AgentSig.Profiles.SigningConfig
import AgentSig.Profiles.TimePolicy
import AgentSig.Redis.Agreement
import AgentSig.Redis.Configuration
import AgentSig.Redis.ConsumeInput
import AgentSig.Redis.Documents
import AgentSig.Redis.Encoding
import AgentSig.Redis.EndToEnd
import AgentSig.Redis.Executions
import AgentSig.Redis.Histories
import AgentSig.Redis.Script
import AgentSig.Redis.Stability
import AgentSig.Redis.Thumbprints
import AgentSig.Redis.Verifiers
import AgentSig.Discovery.Accounting
import AgentSig.Discovery.AddressAdmission
import AgentSig.Discovery.AddressPolicy
import AgentSig.Discovery.AddressTexts
import AgentSig.Discovery.Admission
import AgentSig.Discovery.Backoff
import AgentSig.Discovery.CacheControl
import AgentSig.Discovery.Conservative
import AgentSig.Discovery.DirectoryCache
import AgentSig.Discovery.DirectoryService
import AgentSig.Discovery.DirectoryTransport
import AgentSig.Discovery.DiscoverySystem
import AgentSig.Discovery.Distribution
import AgentSig.Discovery.FetchScheduler
import AgentSig.Discovery.Freshness
import AgentSig.Discovery.FreshnessRules
import AgentSig.Discovery.HeaderSummary
import AgentSig.Discovery.Promises
import AgentSig.Discovery.RefreshOwnership
import AgentSig.Discovery.RefreshProgress
import AgentSig.Discovery.Removal
import AgentSig.Discovery.SchedulerSlots
import AgentSig.Discovery.ServiceSteps
import AgentSig.Discovery.Settlement
import AgentSig.Discovery.SystemSteps
import AgentSig.Http.Assessment
import AgentSig.Http.Authority
import AgentSig.Http.Enforcement
import AgentSig.Http.ForwardedElements
import AgentSig.Http.Forwarding
import AgentSig.Http.Mapping
import AgentSig.Http.TargetAgreement
import AgentSig.Http.Types
import AgentSig.Profiles.Authenticity
