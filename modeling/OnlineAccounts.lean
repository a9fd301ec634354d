import OnlineAccounts.LibaccountsService
import OnlineAccounts.PendingWrites
import OnlineAccounts.ClickHooks
import OnlineAccounts.Acl
import OnlineAccounts.Wildcard
import OnlineAccounts.IdentityRemoval
import OnlineAccounts.BrowserRequest
import OnlineAccounts.RegExp
import OnlineAccounts.FinalUrl
import OnlineAccounts.DialogRequest
import OnlineAccounts.ProviderOutcome
import OnlineAccounts.HandlerBinding
import OnlineAccounts.IndicatorService
import OnlineAccounts.Ipc
import OnlineAccounts.ReadLoop
import OnlineAccounts.RequestManager
import OnlineAccounts.Actions
import OnlineAccounts.Refinement
import OnlineAccounts.Events
import OnlineAccounts.Effects
import OnlineAccounts.QueueDiscipline
import OnlineAccounts.Replies
import OnlineAccounts.Answers
import OnlineAccounts.Idle
import OnlineAccounts.IdleSignals
import OnlineAccounts.Stranded
import OnlineAccounts.Shutdown
import OnlineAccounts.Pairing
import OnlineAccounts.InFlight
import OnlineAccounts.Cancellation
import OnlineAccounts.Recovery
import OnlineAccounts.Reauthentication
import OnlineAccounts.ReplayData
import OnlineAccounts.Inactivity
import OnlineAccounts.LoopbackServer
import OnlineAccounts.ManifestFile
import OnlineAccounts.AccountsHook
import OnlineAccounts.DisabledService
import OnlineAccounts.HookRuns
import OnlineAccounts.HookRerun
import OnlineAccounts.HookHistory
import OnlineAccounts.AccessModel
import OnlineAccounts.Verdict
import OnlineAccounts.GVariantText
import OnlineAccounts.ManifestSettings
import OnlineAccounts.PortSearch
import OnlineAccounts.QmlLoopbackServer
import OnlineAccounts.OwnDocuments
import OnlineAccounts.HandlerRouting
import OnlineAccounts.ByteSystem
import OnlineAccounts.ProviderPage
import OnlineAccounts.ClickHookRuns
import OnlineAccounts.PromptSessions
import OnlineAccounts.Uninstall
import OnlineAccounts.SignOnRequests
import OnlineAccounts.ServiceSwitches
