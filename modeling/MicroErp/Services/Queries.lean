import MicroErp.Services.Runtime

/-!
# Reading operations

The operations that answer from the database and write nothing.  Each one is a function of the
database it reads.
-/

namespace MicroErp.Database.Db

/-- The number of unfrozen payments since `openedAt` that count as cash. -/
def paymentCount (db : Db) (tenantId : Uuid) (openedAt : Timestamp) : ℤ :=
  (db.transactions.rows.filter fun t ↦ t.unfrozenSince tenantId openedAt ∧
    (t.payment_method = some .CASH ∨ t.payment_method = none)).length

/-- The sum of the unfrozen transfers since `openedAt`. -/
def transfersSince (db : Db) (tenantId : Uuid) (openedAt : Timestamp) : ℤ :=
  ((db.transactions.rows.filter fun t ↦ t.unfrozenSince tenantId openedAt ∧
    t.payment_method = some .TRANSFER).map (·.amount_cents)).sum

end MicroErp.Database.Db

namespace MicroErp.Services

open MicroErp.Database

variable (env : Env)

/-- The cast `::int` of an aggregate. -/
def castInt4 (n : ℤ) : Except ServiceError ℤ :=
  if Int4 n then .ok n else .error (.queryFailed .numericValueOutOfRange)

/-! ## CashRegisterService -/

structure CashSummary where
  shift_id : Option Uuid
  expected_cash_cents : ℤ
  opening_cash_cents : ℤ
  opened_at : Option Timestamp
  payment_count : ℤ
  transfer_total_cents : ℤ
  deriving DecidableEq

/-- The shift is looked up by its status; the semaphore of the tenant is not read. -/
def getActiveSummary (tenantId : Uuid) (db : Db) : Except ServiceError CashSummary :=
  let openShifts := db.shifts.rows.filter fun s ↦ s.tenant_id = tenantId ∧ s.status = .OPEN
  match (env.ordered (·.id) openShifts).head? with
  | none => .ok ⟨none, 0, 0, none, 0, 0⟩
  | some activeShift => do
    let total ← castInt4 (db.cashSince tenantId activeShift.opened_at)
    let count ← castInt4 (db.paymentCount tenantId activeShift.opened_at)
    let transferTotal ← castInt4 (db.transfersSince tenantId activeShift.opened_at)
    pure {
      shift_id := some activeShift.id
      expected_cash_cents := activeShift.opening_cash_cents + total
      opening_cash_cents := activeShift.opening_cash_cents
      opened_at := some activeShift.opened_at
      payment_count := count
      transfer_total_cents := transferTotal }

end MicroErp.Services
