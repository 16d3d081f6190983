import MicroErp.Services.Queries

/-!
# DashboardService

The metrics of a tenant.  The sums are cast to `int` by the database; the counts are not.
-/

namespace MicroErp.Database.Db

open MicroErp.Database

variable (db : Db) (tenantId : Uuid)

def debtorsOf : List Customer := (db.customersOf tenantId).filter fun c ↦ 0 < c.balance_cents

def totalReceivable : ℤ := ((db.debtorsOf tenantId).map (·.balance_cents)).sum

/-- The sum of the rows of this type since a moment, without those that are reversed. -/
def movedSince (type : TransactionType) (since : Timestamp) : ℤ :=
  ((db.transactions.rows.filter fun t ↦ t.tenant_id = tenantId ∧ t.type = type ∧
    since ≤ t.created_at ∧ t.is_reversed = false).map (·.amount_cents)).sum

end MicroErp.Database.Db

namespace MicroErp.Services

open MicroErp.Database

/-- `setHours(0, 0, 0, 0)`; moments and days are counted from one local midnight. -/
def startOfDay (t : Timestamp) : Timestamp := t - t % 86400000

/-- Midnight at the start of a day, as a `date` is compared with `NOW()`. -/
def midnight (day : Date) : Timestamp := day * 86400000

structure DashboardMetrics where
  total_receivable_cents : ℤ
  total_customers : ℕ
  active_debtors : ℕ
  blocked_customers : ℕ
  overdue_promises : ℕ
  today_collections_cents : ℤ
  today_debts_cents : ℤ
  week_collections_cents : ℤ
  week_debts_cents : ℤ
  mora_ratio : ℚ
  top_debtors : List Customer
  deriving DecidableEq

/-- `Math.round((overdue / debtors) * 10000) / 100`. -/
def moraRatio (overdueCount activeDebtors : ℕ) : ℚ :=
  if 0 < activeDebtors then
    toDouble (mathRound (toDouble (toDouble (overdueCount / activeDebtors) * 10000)) / 100)
  else 0

def getMetrics (env : Env) (tenantId : Uuid) (db : Db) : Except ServiceError DashboardMetrics := do
  let todayStart := startOfDay env.clock
  let weekStart := startOfDay (addDays env.clock (-7))
  let customers := db.customersOf tenantId
  let debtors := db.debtorsOf tenantId
  let receivables ← castInt4 (db.totalReceivable tenantId)
  let todayCollections ← castInt4 (db.movedSince tenantId .PAYMENT todayStart)
  let todayDebts ← castInt4 (db.movedSince tenantId .DEBT todayStart)
  let weekCollections ← castInt4 (db.movedSince tenantId .PAYMENT weekStart)
  let weekDebts ← castInt4 (db.movedSince tenantId .DEBT weekStart)
  let activeDebtors := (debtors.filter fun c ↦ c.is_active = true).length
  let overdueCount := (debtors.filter fun c ↦ ∃ day ∈ c.next_payment_promise,
    midnight day < env.now).length
  pure {
    total_receivable_cents := receivables
    total_customers := customers.length
    active_debtors := activeDebtors
    blocked_customers := (customers.filter fun c ↦ c.is_active = false).length
    overdue_promises := overdueCount
    today_collections_cents := todayCollections
    today_debts_cents := todayDebts
    week_collections_cents := weekCollections
    week_debts_cents := weekDebts
    mora_ratio := moraRatio overdueCount activeDebtors
    top_debtors := ((env.ordered (·.id) debtors).mergeSort
      fun c c' ↦ c'.balance_cents ≤ c.balance_cents).take 10 }

end MicroErp.Services
