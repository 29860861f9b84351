import Vellar.Lib.Checked
import Vellar.Lib.Machine
import Vellar.Lib.Processes
import Vellar.Lib.Tumbling
import Vellar.Lib.Stream
import Vellar.Lib.Table
import Vellar.Lib.Sha256
import Vellar.Lib.SlidingWindow
import Vellar.Lib.Hex
import Vellar.Lib.Effect
import Vellar.Soroban.Host
import Vellar.Contracts.SpendingLimit
import Vellar.Contracts.SpendingLimitRuns
import Vellar.Contracts.TokenSpendingLimit
import Vellar.Contracts.ThresholdAttestor
import Vellar.Contracts.AttestationRegistry
import Vellar.Contracts.VerifiedRecipient
import Vellar.Worker.WasmSections
import Vellar.Worker.WasmCompare
import Vellar.Worker.WasmMatch
import Vellar.Worker.Verify
import Vellar.Worker.Attestor
import Vellar.Worker.Types
import Vellar.Worker.JsText
import Vellar.Worker.Artifact
import Vellar.Worker.JobSignature
import Vellar.Worker.ErrorClassification
import Vellar.Worker.MemoryJobStore
import Vellar.Worker.MemoryJobRuns
import Vellar.Worker.ImportValidation
import Vellar.Worker.PgJobStore
import Vellar.Worker.PgInterleaving
import Vellar.Worker.JobStoreAgreement
import Vellar.Worker.AttestedArtifact
import Vellar.ServiceKit.SpendBudget
import Vellar.ServiceKit.CircuitBreaker
import Vellar.Worker.Loop
import Vellar.Worker.FirstParty
import Vellar.Lib.Json
import Vellar.Policy.Templates
import Vellar.Policy.Deployable
import Vellar.Policy.Deploy
import Vellar.Policy.DeployRoutes
import Vellar.Wallet.Replay
import Vellar.Wallet.SubmitRoute
import Vellar.Wallet.ReplayFree
import Vellar.Wallet.SubmissionWorker
import Vellar.Policy.VerifyAttach
import Vellar.Policy.Lifecycle
import Vellar.Verification.Intake
import Vellar.Cleanup.ClassicLedger
import Vellar.Lib.Decimal
import Vellar.Cleanup.Builder
import Vellar.Cleanup.Emptied
import Vellar.Extension.State
import Vellar.Extension.Router
import Vellar.Extension.TabManager
import Vellar.Extension.Background
import Vellar.Extension.Moves
import Vellar.Extension.Approvals
import Vellar.Extension.Answers
import Vellar.Contracts.SpendingLimitCriterion
import Vellar.Lib.Keyset
import Vellar.Wallet.AuditLog
import Vellar.Worker.RpcResolver
import Vellar.Worker.UpgradeSweep
import Vellar.Wallet.AuditLogAgreement
import Vellar.Wallet.SessionRuns
import Vellar.Wallet.Create
import Vellar.Worker.WorkerProcess
import Vellar.Soroban.Xdr
import Vellar.Worker.ThresholdSubmitter
import Vellar.Wallet.Sponsored
import Vellar.Lib.Inet
import Vellar.Worker.RepoUrlGuard
import Vellar.Lib.GitConfig
import Vellar.Worker.CargoLock
import Vellar.Worker.DependencyPlan
import Vellar.Wallet.AuditPages
import Vellar.Wallet.Bookkeeping
import Vellar.Cleanup.HorizonReader
import Vellar.Cleanup.Resume
import Vellar.Extension.TxSigner
import Vellar.Extension.TxSummary
import Vellar.Extension.NamedNetwork
import Vellar.Extension.SigningDomains
import Vellar.Cleanup.AccountCache
import Vellar.Policy.DeployWorker
import Vellar.Policy.EventQueue
import Vellar.Policy.RequeueDlq
import Vellar.ServiceKit.RpcPool
import Vellar.Lib.JsonText
import Vellar.Policy.CanonicalJson
import Vellar.Lib.JsNumber
import Vellar.Wallet.MergePlan
import Vellar.Extension.Sanitization
import Vellar.Lib.LongRuns
import Vellar.Lib.Reach
import Vellar.Extension.ErrorReporter
import Vellar.Lib.Rails
import Vellar.Web.HistoryParse
import Vellar.Web.History
import Vellar.Web.HistoryWindows
import Vellar.Web.HistoryPages
import Vellar.Lib.Tokens
import Vellar.Lib.Utf16
import Vellar.Cleanup.AuditRedaction
import Vellar.Cleanup.AuditSeal
import Vellar.Verification.BuildQueue
import Vellar.Lib.Lockstep
import Vellar.Verification.PgQueue
import Vellar.Lib.PercentCoding
import Vellar.Web.Sep7
import Vellar.Web.Sep7RoundTrip
import Vellar.Web.Sep7Accepts
import Vellar.Web.AgentMint
import Vellar.Web.PolicySigner
import Vellar.Lib.Refill
import Vellar.Gateway.TokenBucket
import Vellar.Web.TokenAmounts
import Vellar.Wallet.ReplayPurge
import Vellar.Lib.Wildcard
import Vellar.Gateway.Boundary
import Vellar.Wallet.Rotation
import Vellar.Wallet.RelayerRuns
import Vellar.ServiceKit.Tracing
import Vellar.Worker.CleanupRuns
import Vellar.Wallet.SignerRuns
import Vellar.Web.SignerModel
import Vellar.Web.MintRuns
import Vellar.Web.SwapClient
import Vellar.Lib.Leb128
import Vellar.Worker.WasmTiling
import Vellar.Lib.FileTree
import Vellar.Worker.ImportPath
import Vellar.Lib.UrlParser
import Vellar.Lib.UrlPaths
import Vellar.Worker.PublisherSpelling
import Vellar.ServiceKit.Migrations
import Vellar.Extension.Wire
import Vellar.Extension.PageCalls
import Vellar.Lib.Scripts
import Vellar.Worker.Prefetch
import Vellar.Worker.HermeticBuild
import Vellar.Contracts.TokenSpendingLimitRuns
import Vellar.Web.AgentGrants
import Vellar.Contracts.AgentSpending
