import HaskellAgent.Loop.Reservation
import HaskellAgent.Loop.PendingInputs
import HaskellAgent.Loop.Delivery
import HaskellAgent.Tools.ResourceArbiter
import HaskellAgent.Transport.SSE
import HaskellAgent.Subagents.Registry.Waits
import HaskellAgent.Sessions.WaitGraph
import HaskellAgent.Runtime.ConversationStore
import HaskellAgent.Transport.WebSocket
import HaskellAgent.Server.EventStream
import HaskellAgent.Store.ServerTurnOwners
import HaskellAgent.Server.Supervisor.Bounds
import HaskellAgent.Server.Supervisor.Progress
import HaskellAgent.Server.Supervisor.Sessions
import HaskellAgent.TUI.HistoryPaging
import HaskellAgent.Runtime.TurnState
import HaskellAgent.Sessions.ObservationFrames
import HaskellAgent.Tools.FileConfinement
import HaskellAgent.Accounts.CredentialCrash
import HaskellAgent.Telegram.DeliveryWorkers
import HaskellAgent.Daemon.SchedulerFailures
import HaskellAgent.Daemon.Subscription
import HaskellAgent.Telegram.UpdatesOnce
import HaskellAgent.Loop.InputInbox
import HaskellAgent.Loop.DisplayJournal
import HaskellAgent.Responses.SummaryIndexes
import HaskellAgent.Loop.EventPumpAccounts
import HaskellAgent.Loop.ToolResults
import HaskellAgent.Subagents.Registry.FailedSpawns
import HaskellAgent.Dialect.PatchMoves
import HaskellAgent.Dialect.PatchPrinting
import HaskellAgent.Tools.ListDir
import HaskellAgent.Tools.GrepOutput
import HaskellAgent.Tools.ReadFile
import HaskellAgent.TUI.MarkdownWrap
import HaskellAgent.Render.MarkdownStream
import HaskellAgent.Tools.SchemaRefs
import HaskellAgent.Render.ProposedPlan
import HaskellAgent.Tools.CommandOutput
import HaskellAgent.Tools.Dangerous
import HaskellAgent.Server.Supervisor.Bypass
import HaskellAgent.Server.PendingBatches
import HaskellAgent.Telegram.DeadLetters
import HaskellAgent.Tools.TaskPlan
import HaskellAgent.TUI.MailboxAccounts
