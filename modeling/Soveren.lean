import Soveren.Relational.Table
import Soveren.Relational.Json
import Soveren.Relational.Run
import Soveren.Relational.Process
import Soveren.Queue.Durable
import Soveren.Queue.Fencing
import Soveren.Actions.Store
import Soveren.Reconciliation.Audit
import Soveren.Actions.AtMostOnce
import Soveren.Actions.Stranding
import Soveren.History.Store
import Soveren.Batching.Wakeup
import Soveren.Batching.Serial
import Soveren.Conversation.Schema
import Soveren.Outbound.Telegram
import Soveren.Reconciliation.Outbound
import Soveren.Conversation.Calls
import Soveren.Latency.Coverage
import Soveren.Migrations.Agreement
import Soveren.Migrations.Alone
import Soveren.Migrations.Migrators
import Soveren.Migrations.Runner
import Soveren.Outbound.Ordering
import Soveren.Outbound.Replay
import Soveren.Dialogue.Fencing
import Soveren.Outbound.Sending
import Soveren.Dialogue.Transcript
import Soveren.Dialogue.Search
import Soveren.Runs.Ownership
import Soveren.Decisions.OneDecision
import Soveren.Cron.Publication
import Soveren.Dialogue.Replay
import Soveren.Reconciliation.Audited
import Soveren.Broker.Isolation
import Soveren.Relational.Accounting
import Soveren.Broker.Admission
import Soveren.Broker.Limits
import Soveren.Broker.Budgets
import Soveren.Broker.Rate
import Soveren.Async.Flights
import Soveren.GitHub.Reads
import Soveren.Relational.Contract
import Soveren.Relational.Like
import Soveren.GitHub.Connector
import Soveren.GitHub.Pins
import Soveren.GitHub.Safety
import Soveren.GitHub.Invariant
import Soveren.GitHub.Steps
import Soveren.GitHub.Pinning
import Soveren.GitHub.History
import Soveren.Dialogue.Conservation
import Soveren.Dialogue.Noninterference
import Soveren.GitHub.Windows
import Soveren.Sessions.Closing
import Soveren.Relational.Quota
import Soveren.Cron.Claim
import Soveren.Time.Zone
import Soveren.Time.Sweep
import Soveren.Cron.Recurrence
import Soveren.Dialogue.Agreement
import Soveren.Dialogue.Paging
import Soveren.Relational.Shell
import Soveren.Firewall.Batch
import Soveren.Firewall.Plans
import Soveren.Firewall.Convergence
import Soveren.Batching.Backfill
