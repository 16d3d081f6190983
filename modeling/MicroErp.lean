import MicroErp.Concurrency.Program
import MicroErp.Concurrency.ReadCommitted
import MicroErp.Concurrency.RelyGuarantee
import MicroErp.Concurrency.TwoPhase
import MicroErp.Concurrency.Dataflow
import MicroErp.Concurrency.Outline
import MicroErp.Concurrency.Observations
import MicroErp.Storage.Table
import MicroErp.Storage.Sums
import MicroErp.Database.Entities
import MicroErp.Database.Sql
import MicroErp.Database.Writes
import MicroErp.Services.Dto
import MicroErp.Services.Runtime
import MicroErp.Services.TransactionsService
import MicroErp.Services.Rounding
import MicroErp.Services.CustomersService
import MicroErp.Services.CashRegisterService
import MicroErp.Services.OverdueCronService
import MicroErp.Services.TenantsService
import MicroErp.Services.Requests
import MicroErp.Services.Queries
import MicroErp.Commits.Effect
import MicroErp.Commits.Contract
import MicroErp.Commits.Compatible
import MicroErp.Commits.Answers
import MicroErp.Commits.Rules
import MicroErp.Commits.Transactions
import MicroErp.Commits.Reversals
import MicroErp.Commits.Inflation
import MicroErp.Commits.Bulk
import MicroErp.Commits.Merge
import MicroErp.Commits.Customers
import MicroErp.Commits.CashRegister
import MicroErp.Commits.Cron
import MicroErp.Commits.Runs
import MicroErp.Commits.Statements
import MicroErp.Commits.Desk
import MicroErp.Commits.Shifts
import MicroErp.Commits.Semaphore
import MicroErp.Guarantees.Reversals
import MicroErp.Guarantees.Ledger
import MicroErp.Guarantees.WriteOnce
import MicroErp.Guarantees.Edits
import MicroErp.Guarantees.Answers
import MicroErp.Guarantees.Serializability
import MicroErp.Guarantees.Idempotency
import MicroErp.Guarantees.Replay
import MicroErp.Guarantees.Merges
import MicroErp.Guarantees.Balances
import MicroErp.Guarantees.Shifts
import MicroErp.Guarantees.Closings
import MicroErp.Guarantees.Contacts
import MicroErp.Concurrency.History
import MicroErp.Concurrency.Single
import MicroErp.Commits.Alone
import MicroErp.Database.AuditLogs
import MicroErp.Services.AuditTrail
import MicroErp.Guarantees.OverdueRuns
import MicroErp.Guarantees.Suspensions
import MicroErp.Guarantees.Counting
import MicroErp.Concurrency.Pooled
import MicroErp.Database.Accounts
import MicroErp.Services.UsersService
import MicroErp.Guarantees.PasswordReset
import MicroErp.Commits.Accounts
import MicroErp.Guarantees.ResetLinks
import MicroErp.Guarantees.ResetAnswers
import MicroErp.Guarantees.Sessions
import MicroErp.Guarantees.Revocations
import MicroErp.Guarantees.Readings
import MicroErp.Guarantees.DailyJob
import MicroErp.Guarantees.OverlappingRuns
import MicroErp.Commits.Edits
import MicroErp.Guarantees.Overdue
import MicroErp.Guarantees.MergeEffects
import MicroErp.Services.ExactArithmetic
import MicroErp.Guarantees.MixedPayments
import MicroErp.Guarantees.InflationBatch
import MicroErp.Guarantees.Columns
import MicroErp.Guarantees.Overflow
import MicroErp.Services.DashboardService
import MicroErp.Guarantees.Totals
import MicroErp.Commits.Billing
import MicroErp.Concurrency.EachCommit
import MicroErp.Guarantees.PaidMonths
import MicroErp.Guarantees.StatusEdges
import MicroErp.Services.Json
import MicroErp.Services.Webhooks
import MicroErp.Guarantees.Webhooks
import MicroErp.Guarantees.Signatures
import MicroErp.Database.Registrations
import MicroErp.Services.Registration
import MicroErp.Guarantees.NonPayment
import MicroErp.Guarantees.Settings
import MicroErp.Guarantees.Metrics
import MicroErp.Services.SubscriptionGuard
import MicroErp.Guarantees.Subscriptions
import MicroErp.Storage.Paging
import MicroErp.Services.Histories
import MicroErp.Guarantees.Histories
import MicroErp.Guarantees.Passbook
import MicroErp.Storage.Csv
import MicroErp.Services.Exports
import MicroErp.Guarantees.Exports
import MicroErp.Concurrency.Partition
import MicroErp.Storage.Restrict
import MicroErp.Database.Ownership
import MicroErp.Database.OwnedWrites
import MicroErp.Services.NotificationsService
import MicroErp.Commits.Scopes
import MicroErp.Guarantees.Isolation
import MicroErp.Concurrency.Atomic
import MicroErp.Guarantees.Atomicity
import MicroErp.Concurrency.LockOrder
import MicroErp.Concurrency.Withheld
import MicroErp.Concurrency.Progress
import MicroErp.Commits.LockOrder
import MicroErp.Guarantees.Deadlocks
