import MicroErp.Database.Sql
import MicroErp.Storage.Paging

/-!
# Histories

The transactions of a customer and the shifts of a tenant, read page by page, and the side of the
passbook on which the frontend shows a transaction.
-/

namespace MicroErp.Services

open MicroErp.Database MicroErp.Storage

/-! ## Pages -/

/-- How `findAndCount` reads a page with a joined relation: one query picks the rows by `LIMIT` and
`OFFSET`, and another one reads them.  Both are ordered by the moment `key`. -/
structure PagedFind {α : Type} (key : α → Timestamp) where
  pick : OrderByDesc key
  read : OrderByDesc key

namespace PagedFind

variable {α : Type} {key : α → Timestamp}

/-- The query that picks the rows orders those of the same moment by their primary key, as TypeORM
does when a relation is joined. -/
def EndsInPrimaryKey [Keyed α Uuid] (find : PagedFind key) : Prop :=
  find.pick.EndsIn (Keyed.key : α → Uuid)

def page (find : PagedFind key) (limit offset : ℕ) (rows : List α) : List α :=
  find.read.sort (find.pick.page limit offset rows)

/-- The page in the order of the moment and then of the primary key. -/
def byPrimaryKey [Keyed α Uuid] (key : α → Timestamp) : PagedFind key where
  pick := OrderByDesc.endingIn key (Keyed.key : α → Uuid)
  read := OrderByDesc.stable key

theorem endsInPrimaryKey_byPrimaryKey [Keyed α Uuid] (key : α → Timestamp) :
    (byPrimaryKey key).EndsInPrimaryKey :=
  OrderByDesc.endsIn_endingIn key _

theorem perm_page (find : PagedFind key) (limit offset : ℕ) (rows : List α) :
    (find.page limit offset rows).Perm (find.pick.page limit offset rows) :=
  find.read.perm _

end PagedFind

/-! ## TransactionsService -/

structure PaginationQueryDto where
  limit : ℕ := 20
  offset : ℕ := 0
  limit_valid : 1 ≤ limit ∧ limit ≤ 100 := by decide

structure TransactionPage where
  data : List Transaction
  total : ℕ
  limit : ℕ
  offset : ℕ
  deriving DecidableEq

/-- How a query orders the transactions of the same moment. -/
abbrev TransactionOrder := OrderByDesc fun t : Transaction ↦ t.created_at

abbrev TransactionFind := PagedFind fun t : Transaction ↦ t.created_at

/-- The rows come without the relation `user`. -/
def findByCustomer (find : TransactionFind) (tenantId customerId : Uuid)
    (pagination : PaginationQueryDto) (db : Db) : TransactionPage where
  data := find.page pagination.limit pagination.offset (db.transactionsOf tenantId customerId)
  total := (db.transactionsOf tenantId customerId).length
  limit := pagination.limit
  offset := pagination.offset

/-! ## CashRegisterService -/

structure ShiftPage where
  data : List CashRegisterLog
  total : ℕ
  deriving DecidableEq

abbrev ShiftFind := PagedFind fun s : CashRegisterLog ↦ s.created_at

/-- The pages are counted from 1. -/
def getHistory (find : ShiftFind) (tenantId : Uuid) (page limit : ℕ) (db : Db) : ShiftPage where
  data := find.page limit ((page - 1) * limit)
    (db.shifts.rows.filter fun s ↦ s.tenant_id = tenantId)
  total := (db.shifts.rows.filter fun s ↦ s.tenant_id = tenantId).length

structure ShiftDetail where
  shift : CashRegisterLog
  transactions : List Transaction
  deriving DecidableEq

/-- A shift with the payments that closing it froze. -/
def getShiftById (order : TransactionOrder) (tenantId shiftId : Uuid) (db : Db) :
    Except ServiceError ShiftDetail :=
  match (db.shifts.find shiftId).filter fun s ↦ s.tenant_id = tenantId with
  | none => .error (.notFound "Turno de caja no encontrado")
  | some shift =>
      .ok ⟨shift, order.sort (db.transactions.rows.filter fun t ↦
        t.tenant_id = tenantId ∧ t.cash_register_log_id = some shiftId)⟩

/-! ## The passbook of the frontend -/

inductive TxDirection where
  | debe
  | haber
  deriving DecidableEq, Repr

/-- The types that raise what a customer owes. -/
def increasesDebt : List TransactionType := [.DEBT, .INFLATION_ADJUSTMENT]

def getTxDirection (tx : Transaction) (allTx : List Transaction) : TxDirection :=
  if tx.type = .REVERSAL then
    match allTx.find? fun t ↦ some t.id = tx.reversed_transaction_id with
    | none => .debe
    | some original => if original.type ∈ increasesDebt then .haber else .debe
  else if tx.type ∈ increasesDebt then .debe else .haber

end MicroErp.Services
