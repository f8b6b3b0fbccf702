import KirkForge.AgentCore.SchemaContract
import KirkForge.CoreEnterprise.QuotaCounters
import KirkForge.CoreEnterprise.QuotaPersistence
import KirkForge.CoreEnterprise.QuotaRestore
import KirkForge.CoreEnterprise.Quotas
import KirkForge.CoreEnterprise.RateLimiter
import KirkForge.CoreEnterprise.RecordedUsage
import KirkForge.CoreEvents.AuditEvent
import KirkForge.CoreEvents.BufferAccounting
import KirkForge.CoreEvents.CanonicalForm
import KirkForge.CoreEvents.CanonicalJson
import KirkForge.CoreEvents.EventBus
import KirkForge.CoreEvents.EventDelivery
import KirkForge.CoreEvents.FileAuditSink
import KirkForge.CoreEvents.FileIntegrity
import KirkForge.CoreEvents.GracefulShutdown
import KirkForge.CoreEvents.HttpAuditSink
import KirkForge.CoreEvents.SyslogAuditSink
import KirkForge.CoreEvents.SyslogDelivery
import KirkForge.CoreEvents.TamperEvidence
import KirkForge.CoreEvents.WormAuditSink
import KirkForge.CoreEvents.WormIntegrity
import KirkForge.CoreLogging.ConsoleTransport
import KirkForge.CorePolicy.Enforcement
import KirkForge.CorePolicy.LoadedPolicies
import KirkForge.CorePolicy.Policy
import KirkForge.CorePolicy.SignatureBinding
import KirkForge.CorePolicy.SignedPolicy
import KirkForge.CorePolicy.WellFormedPolicies
import KirkForge.CorePolicy.Workspace
import KirkForge.CoreRbac.ApiKeys
import KirkForge.CoreRbac.JwtVerify
import KirkForge.CoreRbac.Rbac
import KirkForge.CoreSandbox.ConstraintMerging
import KirkForge.CoreSandbox.Constraints
import KirkForge.CoreSandbox.EnvironmentIsolation
import KirkForge.CoreSandbox.OutputCollection
import KirkForge.CoreSandbox.PathContainment
import KirkForge.CoreSandbox.ProcessSupervision
import KirkForge.CoreSandbox.Runner
import KirkForge.CoreSecrets.KeyRotation
import KirkForge.CoreSecrets.Redaction
import KirkForge.CoreSecrets.TenantKeyProvider
import KirkForge.CoreTenancy.ContentHiding
import KirkForge.CoreTenancy.IndexFile
import KirkForge.CoreTenancy.ReadAfterWrite
import KirkForge.CoreTenancy.TenantEncryption
import KirkForge.CoreTenancy.TenantIsolation
import KirkForge.CoreTenancy.TenantRegistry
import KirkForge.CoreTypes.Access
import KirkForge.CoreTypes.Events
import KirkForge.CorrectionCore.CorrectionPrompt
import KirkForge.CorrectionCore.Types
import KirkForge.MemoryPalace.AdapterEquivalence
import KirkForge.MemoryPalace.AdapterQueries
import KirkForge.MemoryPalace.Decompositions
import KirkForge.MemoryPalace.EncryptedAdapter
import KirkForge.MemoryPalace.FileDurability
import KirkForge.MemoryPalace.ObjectAdapters
import KirkForge.MemoryPalace.Observations
import KirkForge.MemoryPalace.QueryableRuns
import KirkForge.MemoryPalace.Retention
import KirkForge.MemoryPalace.RoutingEngine
import KirkForge.MemoryPalace.SchemaMigration
import KirkForge.MemoryPalace.SharedFile
import KirkForge.MemoryPalace.SqliteAdapter
import KirkForge.MemoryPalace.Store
import KirkForge.MemoryPalace.StoredRuns
import KirkForge.MemoryPalace.Types
import KirkForge.ModelClient.CallBound
import KirkForge.ModelClient.Chat
import KirkForge.ModelClient.CircuitBreaker
import KirkForge.Orchestrator.AcceptedFiles
import KirkForge.Orchestrator.ArtifactMode
import KirkForge.Orchestrator.ArtifactProtocol
import KirkForge.Orchestrator.ArtifactRoundTrip
import KirkForge.Orchestrator.Baseline
import KirkForge.Orchestrator.BodyLimit
import KirkForge.Orchestrator.CheckCommand
import KirkForge.Orchestrator.ClassifierBound
import KirkForge.Orchestrator.ClassifierIsolation
import KirkForge.Orchestrator.ClassifierMemory
import KirkForge.Orchestrator.ClassifierNlp
import KirkForge.Orchestrator.CorrectionLoop
import KirkForge.Orchestrator.CorrectionLoopLemmas
import KirkForge.Orchestrator.DecideCorrection
import KirkForge.Orchestrator.DecompositionResponse
import KirkForge.Orchestrator.DecompositionRoundTrip
import KirkForge.Orchestrator.Delegate
import KirkForge.Orchestrator.DelegateRuns
import KirkForge.Orchestrator.DenyPaths
import KirkForge.Orchestrator.EmptyEmission
import KirkForge.Orchestrator.EndpointAuthorization
import KirkForge.Orchestrator.EventLog
import KirkForge.Orchestrator.EventLogIntegrity
import KirkForge.Orchestrator.ExecuteDecomposition
import KirkForge.Orchestrator.FailClosed
import KirkForge.Orchestrator.FencedDecomposition
import KirkForge.Orchestrator.Finalize
import KirkForge.Orchestrator.HardPrompt
import KirkForge.Orchestrator.HealthServer
import KirkForge.Orchestrator.LintVerdict
import KirkForge.Orchestrator.LoopConcurrency
import KirkForge.Orchestrator.LoopDirectories
import KirkForge.Orchestrator.MarkerTermination
import KirkForge.Orchestrator.OwnSignals
import KirkForge.Orchestrator.ParseDecomposition
import KirkForge.Orchestrator.PathAgreement
import KirkForge.Orchestrator.PathSafety
import KirkForge.Orchestrator.PromptCauses
import KirkForge.Orchestrator.RateLimit
import KirkForge.Orchestrator.Reducer
import KirkForge.Orchestrator.ReducerLemmas
import KirkForge.Orchestrator.ServerShutdown
import KirkForge.Orchestrator.SessionBudget
import KirkForge.Orchestrator.SubtaskOrder
import KirkForge.Orchestrator.SubtaskResults
import KirkForge.Orchestrator.SubtaskTiming
import KirkForge.Orchestrator.TaskProfile
import KirkForge.Orchestrator.TopologicalSort
import KirkForge.Orchestrator.TruthModel
import KirkForge.Orchestrator.Types
import KirkForge.Orchestrator.Verdict
import KirkForge.Orchestrator.Workspace
import KirkForge.Orchestrator.WriteContainment
import KirkForge.Plugin.AuthMiddleware
import KirkForge.Plugin.AuthMiddlewareRuns
import KirkForge.Plugin.GroupRoleMapping
import KirkForge.Plugin.Manifest
import KirkForge.Plugin.Verification
import KirkForge.Plugin.WorkspaceVerification
import KirkForge.PluginHost.Commands
import KirkForge.PluginHost.Lookups
import KirkForge.PluginHost.Registry
import KirkForge.PluginHost.TrustInvariant
import KirkForge.PromptCore.CompilePrompt
import KirkForge.Theory.ChunkedDecoding
import KirkForge.Theory.CommonEventFormat
import KirkForge.Theory.Delimited
import KirkForge.Theory.DelimitedEnd
import KirkForge.Theory.DepthFirst
import KirkForge.Theory.Doubles
import KirkForge.Theory.Encoding
import KirkForge.Theory.FencedBlock
import KirkForge.Theory.FileSystem
import KirkForge.Theory.FileTree
import KirkForge.Theory.HashChain
import KirkForge.Theory.JoinPath
import KirkForge.Theory.JsMembers
import KirkForge.Theory.JsNumber
import KirkForge.Theory.JsValue
import KirkForge.Theory.Json
import KirkForge.Theory.JsonCoercion
import KirkForge.Theory.JsonPattern
import KirkForge.Theory.JsonPretty
import KirkForge.Theory.JsonRead
import KirkForge.Theory.JsonStrings
import KirkForge.Theory.JsonText
import KirkForge.Theory.JsonWeight
import KirkForge.Theory.Kahn
import KirkForge.Theory.Lines
import KirkForge.Theory.Lists
import KirkForge.Theory.LiveSet
import KirkForge.Theory.NumberText
import KirkForge.Theory.Occurrence
import KirkForge.Theory.OrderedMap
import KirkForge.Theory.Outcome
import KirkForge.Theory.Path
import KirkForge.Theory.ProbeProtocol
import KirkForge.Theory.Regex
import KirkForge.Theory.RegexReplacement
import KirkForge.Theory.RelativePath
import KirkForge.Theory.Run
import KirkForge.Theory.Scanning
import KirkForge.Theory.Substitution
import KirkForge.Theory.Table
import KirkForge.Theory.Text
import KirkForge.Theory.TextUnits
import KirkForge.Theory.TokenBucket
import KirkForge.Theory.ToolProcess
import KirkForge.Theory.Transaction
import KirkForge.Theory.View
import KirkForge.ToolGitnexus.ChangeCollection
import KirkForge.ToolGraphify.BrokenEdges
import KirkForge.ToolGraphify.ImportCycles
import KirkForge.ToolGraphify.ImportResolution
import KirkForge.ToolLintCore.BlockSuppression
import KirkForge.ToolLintCore.LineSuppression
import KirkForge.ToolLintCore.LintReport
import KirkForge.ToolLintCore.RuleMatching
import KirkForge.ToolLintCore.Suppression
import KirkForge.ToolLintImports.ImportForms
import KirkForge.ToolLintImports.LinePatterns
import KirkForge.ToolLintImports.RenamedImports
import KirkForge.ToolLintImports.Rules
import KirkForge.ToolLintImports.ScriptLines
import KirkForge.ToolPyright.PyrightEmitter
import KirkForge.ToolTsc.TscEmitter
import KirkForge.ToolTsc.TypesReport
