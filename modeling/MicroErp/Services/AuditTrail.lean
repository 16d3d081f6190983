import MicroErp.Database.AuditLogs
import MicroErp.Services.OverdueCronService

/-!
# CustomerAuditSubscriber and the audit rows of the cron

The operations with the audit rows that they insert.  The subscriber hears of each `save` of a
customer that updates a row, before the transaction commits; a bulk update gives it no entity to
compare.
-/

namespace MicroErp.Services

open MicroErp.Concurrency MicroErp.Database

/-- What the audit rows of a request take from outside. -/
structure AuditEnv extends Env where
  /-- The identifier of the row about this entity and action. -/
  auditId : Uuid → AuditAction → Uuid
  /-- `toISOString` of a date. -/
  isoText : Date → String

abbrev AuditedScript := Prog AuditedSql AuditedSql.Ans ServiceError

abbrev auditedQuery (o : AuditedSql) : AuditedScript o.Ans := Prog.issue o

/-- The script with the audit rows that `afterUpdate` inserts after each of its statements. -/
def subscribed {α : Type} (afterUpdate : Sql → List AuditLog) : Script α → AuditedScript α
  | .ret a => .ret a
  | .fail e => .fail e
  | .stmt o k => .stmt (.on o) fun r ↦
      if afterUpdate o = [] then subscribed afterUpdate (k r)
      else .stmt (.insertAuditLogs (afterUpdate o)) fun _ ↦ subscribed afterUpdate (k r)
  | .commit k => .commit (subscribed afterUpdate k)

/-! ## The job that marks customers -/

variable (env : AuditEnv)

/-- The promise was read as a string, so it is not an instance of `Date`. -/
def markOverdueLog (customer : Customer) : AuditLog where
  id := env.auditId customer.id .MARK_OVERDUE
  tenant_id := customer.tenant_id
  user_id := none
  action := .MARK_OVERDUE
  entity_type := "Customer"
  entity_id := customer.id
  old_value := some [("is_overdue", .bool false)]
  new_value := some [("is_overdue", .bool true), ("balance_cents", .number customer.balance_cents),
    ("next_payment_promise", .null)]
  ip_address := none
  created_at := env.now

/-- A statement without entities. -/
abbrev bulkUpdate {α : Type} : Script α → AuditedScript α := subscribed fun _ ↦ []

/-- What a run does after its answer: a row of the audit log, or one of the blocking updates. -/
inductive OverdueTask where
  | report (row : AuditLog)
  | block (rule : BlockRule)

/-- The updates of the two phases; without the tenants, whose query has failed, that of the second. -/
def blockRules (today : Date) : Except QueryFailedError (List (Uuid × ℤ)) → List BlockRule
  | .ok tenants => phaseRules today tenants
  | .error _ => [.onLimit]

def runTasks : List OverdueTask → AuditedScript Unit
  | [] => pure ()
  | .report row :: tasks => do
    auditedQuery (.insertAuditLogs [row])
    Prog.commitTransaction
    runTasks tasks
  | .block rule :: tasks => do
    bulkUpdate (blockCustomers env.toEnv rule)
    runTasks tasks

/-- `processOverdueCustomers` with what it starts without waiting.  The audit rows and the two
phases run at the same time, so `schedule` is any order of their statements. -/
def overdueRun (schedule : List OverdueTask → List OverdueTask) (today : Date) : AuditedScript ℕ := do
  let overdueCustomers ← auditedQuery (.loadOverdueCustomers today)
  if overdueCustomers = [] then pure 0
  else
    bulkUpdate (markCustomers (env.scan (overdueCustomers.map (·.id))))
    Prog.commitTransaction
    let tenants ← auditedQuery .tryAutoBlockTenants
    runTasks env (schedule (overdueCustomers.map (fun c ↦ .report (markOverdueLog env c)) ++
      (blockRules today tenants).map .block))
    pure overdueCustomers.length

end MicroErp.Services
