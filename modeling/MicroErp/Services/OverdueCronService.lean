import MicroErp.Services.Runtime

/-!
# OverdueCronService

The daily job that marks overdue customers and blocks customers.  Each of its bulk updates commits
on its own, and the two that block customers run in the background.
-/

namespace MicroErp.Services

open MicroErp.Concurrency MicroErp.Database

variable (env : Env)

/-- Each row of the bulk `UPDATE ... SET is_overdue`. -/
def markCustomers : List Uuid → Script Unit
  | [] => pure ()
  | id :: ids => do
    query (.markOverdue id)
    markCustomers ids

/-- `today` is the day that starts at the midnight before the clock. -/
def processOverdueCustomers (today : Date) : Script ℕ := do
  let overdueIds ← query (.findOverdueCustomers today)
  if overdueIds = [] then pure 0
  else
    markCustomers (env.scan overdueIds)
    Prog.commitTransaction
    pure overdueIds.length

/-- Each row of a bulk `UPDATE ... SET is_active`. -/
def blockEach (rule : BlockRule) : List Uuid → Script Unit
  | [] => pure ()
  | id :: ids => do
    query (.blockCustomer rule id)
    blockEach rule ids

def blockCustomers (rule : BlockRule) : Script Unit := do
  let ids ← query (.selectBlocked rule)
  blockEach rule (env.scan ids)
  Prog.commitTransaction

/-- What the loop over the tenants does for one of them; `cutoffDate` lies as many days back as the
settings of the tenant say. -/
def processAutoBlocks (tenantId : Uuid) (cutoffDate : Date) : Script Unit :=
  blockCustomers env (.overdue tenantId cutoffDate)

def processAutoBlockOnLimit : Script Unit := blockCustomers env .onLimit

/-! ## The job and its background phases -/

/-- The updates that the two phases make, `today` being the day of the job. -/
def phaseRules (today : Date) (tenants : List (Uuid × ℤ)) : List BlockRule :=
  (tenants.map fun tenant ↦ .overdue tenant.1 (today - tenant.2)) ++ [.onLimit]

def blockAll : List BlockRule → Script Unit
  | [] => pure ()
  | rule :: rules => do
    blockCustomers env rule
    blockAll rules

/-- What a day's job does before its phases have ended; they run at the same time, so `schedule` is
any order of their updates.  A job that finds nobody to mark returns before it starts them. -/
def overdueJob (schedule : List BlockRule → List BlockRule) (today : Date) : Script ℕ := do
  let processed ← processOverdueCustomers env today
  if processed = 0 then pure 0
  else
    let tenants ← query .findAutoBlockTenants
    blockAll env (schedule (phaseRules today tenants))
    pure processed

end MicroErp.Services
