import MicroErp.Concurrency.ReadCommitted
import MicroErp.Database.Entities

/-!
# The statements the services issue

`Sql` lists the statements, `Sql.locks` the row locks each one takes and `Sql.exec` what it answers
and writes.  A statement that locks or updates many rows is a snapshot of their ids followed by one
statement for each row, which waits for the row, reads its latest version and checks the condition
again.  An insert takes the slot of each unique index, so it waits for an uncommitted row in the
way and fails if that row is committed.
-/

namespace MicroErp.Database

open MicroErp.Concurrency MicroErp.Storage

inductive QueryFailedError where
  | uniqueViolation
  | numericValueOutOfRange
  | notNullViolation
  | invalidTextRepresentation
  | stringDataRightTruncation
  /-- Lock timeout, deadlock victim or lost connection. -/
  | statementAborted
  deriving DecidableEq, Repr

inductive ServiceError where
  | notFound (message : String)
  | forbidden (message : String)
  | unprocessableEntity (message : String)
  | conflict (message : String)
  | queryFailed (error : QueryFailedError)
  /-- `save` met no row to update; nothing deletes rows, so this does not arise. -/
  | entityNotFound
  deriving DecidableEq, Repr

/-- The status code that the global exception filter answers with. -/
def ServiceError.status : ServiceError → ℕ
  | notFound _ => 404
  | forbidden _ => 403
  | unprocessableEntity _ => 422
  | conflict _ => 409
  | queryFailed _ => 500
  | entityNotFound => 500

/-- The range of an `integer` column. -/
def Int4 (n : ℤ) : Prop := -2147483648 ≤ n ∧ n ≤ 2147483647

instance (n : ℤ) : Decidable (Int4 n) := inferInstanceAs (Decidable (_ ∧ _))

/-! ## The database -/

structure Db where
  tenants : Table Tenant
  customers : Table Customer
  transactions : Table Transaction
  batches : Table IdempotentBatchOperation
  shifts : Table CashRegisterLog
  billingEvents : Table BillingEvent
  deriving DecidableEq

namespace Db

def transactionByKey (db : Db) (tenantId key : Uuid) : Option Transaction :=
  db.transactions.rows.find? fun t ↦ t.tenant_id = tenantId ∧ t.idempotency_key = key

def transaction (db : Db) (tenantId id : Uuid) : Option Transaction :=
  (db.transactions.find id).filter fun t ↦ t.tenant_id = tenantId

def transactionsOfGroup (db : Db) (groupId : Uuid) : List Transaction :=
  db.transactions.rows.filter fun t ↦ t.reference_group_id = some groupId

def transactionsOf (db : Db) (tenantId customerId : Uuid) : List Transaction :=
  db.transactions.rows.filter fun t ↦ t.customer_id = customerId ∧ t.tenant_id = tenantId

def customer (db : Db) (tenantId id : Uuid) : Option Customer :=
  (db.customers.find id).filter fun c ↦ c.tenant_id = tenantId

def customersOf (db : Db) (tenantId : Uuid) : List Customer :=
  db.customers.rows.filter fun c ↦ c.tenant_id = tenantId

def customerByKey (db : Db) (tenantId key : Uuid) : Option Customer :=
  db.customers.rows.find? fun c ↦ c.tenant_id = tenantId ∧ c.idempotency_key = some key

/-- Another customer of the tenant for which `p` holds; `except` is the customer being edited. -/
def otherCustomer (db : Db) (tenantId : Uuid) (except : Option Uuid) (p : Customer → Bool) :
    Option Customer :=
  (db.customersOf tenantId).find? fun c ↦ p c ∧ some c.id ≠ except

def batchByKey (db : Db) (tenantId key : Uuid) : Option IdempotentBatchOperation :=
  db.batches.rows.find? fun b ↦ b.tenant_id = tenantId ∧ b.idempotency_key = key

def tenantBySubscription (db : Db) (mpSubscriptionId : String) : Option Tenant :=
  db.tenants.rows.find? fun t ↦ t.mp_subscription_id = some mpSubscriptionId

def billingEventByExternalId (db : Db) (externalPaymentId : String) : Option BillingEvent :=
  db.billingEvents.rows.find? fun b ↦ b.external_payment_id = externalPaymentId

def openShift (db : Db) (tenantId id : Uuid) : Option CashRegisterLog :=
  (db.shifts.find id).filter fun s ↦ s.tenant_id = tenantId ∧ s.status = .OPEN

end Db

/-- A payment that closing a shift opened at `openedAt` freezes. -/
def Transaction.unfrozenSince (t : Transaction) (tenantId : Uuid) (openedAt : Timestamp) : Prop :=
  t.tenant_id = tenantId ∧ t.type = .PAYMENT ∧ openedAt < t.created_at ∧ t.is_reversed = false ∧
    t.cash_register_log_id = none

instance (t : Transaction) (tenantId : Uuid) (openedAt : Timestamp) :
    Decidable (t.unfrozenSince tenantId openedAt) :=
  inferInstanceAs (Decidable (_ ∧ _ ∧ _ ∧ _ ∧ _))

/-- The sum of the unfrozen payments since `openedAt` that count as cash. -/
def Db.cashSince (db : Db) (tenantId : Uuid) (openedAt : Timestamp) : ℤ :=
  ((db.transactions.rows.filter fun t ↦ t.unfrozenSince tenantId openedAt ∧
    (t.payment_method = some .CASH ∨ t.payment_method = none)).map (·.amount_cents)).sum

/-- The customers that one of the `UPDATE ... SET is_active = false` of the cron blocks. -/
inductive BlockRule where
  /-- `processAutoBlocks`, for one tenant. -/
  | overdue (tenantId : Uuid) (cutoff : Date)
  /-- `processAutoBlockOnLimit`. -/
  | onLimit
  deriving DecidableEq

def BlockRule.Applies : BlockRule → Customer → Prop
  | overdue tenantId cutoff, c => c.tenant_id = tenantId ∧ c.is_overdue = true ∧
      c.is_active = true ∧ 0 < c.balance_cents ∧ ∃ day ∈ c.next_payment_promise, day < cutoff
  | onLimit, c => c.auto_block_on_limit = true ∧ c.is_active = true ∧
      0 < c.credit_limit_cents ∧ c.credit_limit_cents ≤ c.balance_cents

instance (rule : BlockRule) (c : Customer) : Decidable (rule.Applies c) :=
  match rule with
  | .overdue _ _ => inferInstanceAs (Decidable (_ ∧ _ ∧ _ ∧ _ ∧ _))
  | .onLimit => inferInstanceAs (Decidable (_ ∧ _ ∧ _ ∧ _))

/-- The cast of a text to `int`: blanks around it, a sign and decimal digits. -/
def castInt (text : String) : Except QueryFailedError ℤ :=
  let chars := (text.toList.dropWhile Char.isWhitespace).reverse.dropWhile Char.isWhitespace
  let signed : ℤ × List Char := match chars.reverse with
    | '-' :: digits => (-1, digits)
    | '+' :: digits => (1, digits)
    | digits => (1, digits)
  if signed.2 ≠ [] ∧ signed.2.all Char.isDigit then
    let n := signed.1 * signed.2.foldl (fun n c ↦ 10 * n + (c.toNat - 48 : ℕ)) 0
    if Int4 n then .ok n else .error .numericValueOutOfRange
  else .error .invalidTextRepresentation

/-- `(settings->>'auto_block_overdue_days')::int`. -/
def Tenant.autoBlockDays (t : Tenant) : Except QueryFailedError (Option ℤ) :=
  match t.settings.lookup "auto_block_overdue_days" with
  | none | some .null => .ok none
  | some (.number q) =>
      if q.den ≠ 1 then .error .invalidTextRepresentation
      else if Int4 q.num then .ok (some q.num) else .error .numericValueOutOfRange
  | some (.string text) => (castInt text).map some
  | some (.bool _) | some (.other _) => .error .invalidTextRepresentation

/-- The tenants whose setting is a positive number, and that number. -/
def Db.autoBlockTenants (db : Db) : Except QueryFailedError (List (Uuid × ℤ)) := do
  let settings ← db.tenants.rows.mapM fun t ↦ do pure (t.id, ← t.autoBlockDays)
  pure (settings.filterMap fun x ↦ (x.2.filter fun days ↦ 0 < days).map fun days ↦ (x.1, days))

/-! ## Writes -/

/-- `UPDATE` sets the columns in which the entity in memory differs from the row `save` read
again; the others keep the value of the latest row. -/
def savedColumn {α : Type} [DecidableEq α] (mem reread latest : α) : α :=
  if mem = reread then latest else mem

def Tenant.saved (mem reread latest : Tenant) : Tenant where
  id := latest.id
  tenant_name := savedColumn mem.tenant_name reread.tenant_name latest.tenant_name
  subscription_plan :=
    savedColumn mem.subscription_plan reread.subscription_plan latest.subscription_plan
  subscription_expires_at := savedColumn mem.subscription_expires_at
    reread.subscription_expires_at latest.subscription_expires_at
  status := savedColumn mem.status reread.status latest.status
  mp_subscription_id :=
    savedColumn mem.mp_subscription_id reread.mp_subscription_id latest.mp_subscription_id
  settings := savedColumn mem.settings reread.settings latest.settings
  active_cash_shift_id :=
    savedColumn mem.active_cash_shift_id reread.active_cash_shift_id latest.active_cash_shift_id
  created_at := savedColumn mem.created_at reread.created_at latest.created_at

def Customer.saved (mem reread latest : Customer) : Customer where
  id := latest.id
  tenant_id := savedColumn mem.tenant_id reread.tenant_id latest.tenant_id
  full_name := savedColumn mem.full_name reread.full_name latest.full_name
  phone := savedColumn mem.phone reread.phone latest.phone
  dni := savedColumn mem.dni reread.dni latest.dni
  credit_limit_cents :=
    savedColumn mem.credit_limit_cents reread.credit_limit_cents latest.credit_limit_cents
  balance_cents := savedColumn mem.balance_cents reread.balance_cents latest.balance_cents
  is_active := savedColumn mem.is_active reread.is_active latest.is_active
  next_payment_promise :=
    savedColumn mem.next_payment_promise reread.next_payment_promise latest.next_payment_promise
  is_overdue := savedColumn mem.is_overdue reread.is_overdue latest.is_overdue
  auto_block_on_limit :=
    savedColumn mem.auto_block_on_limit reread.auto_block_on_limit latest.auto_block_on_limit
  address := savedColumn mem.address reread.address latest.address
  email := savedColumn mem.email reread.email latest.email
  notes := savedColumn mem.notes reread.notes latest.notes
  tags := savedColumn mem.tags reread.tags latest.tags
  idempotency_key :=
    savedColumn mem.idempotency_key reread.idempotency_key latest.idempotency_key
  created_at := savedColumn mem.created_at reread.created_at latest.created_at

def Transaction.saved (mem reread latest : Transaction) : Transaction where
  id := latest.id
  tenant_id := savedColumn mem.tenant_id reread.tenant_id latest.tenant_id
  customer_id := savedColumn mem.customer_id reread.customer_id latest.customer_id
  user_id := savedColumn mem.user_id reread.user_id latest.user_id
  type := savedColumn mem.type reread.type latest.type
  amount_cents := savedColumn mem.amount_cents reread.amount_cents latest.amount_cents
  description := savedColumn mem.description reread.description latest.description
  payment_method := savedColumn mem.payment_method reread.payment_method latest.payment_method
  reference_group_id :=
    savedColumn mem.reference_group_id reread.reference_group_id latest.reference_group_id
  idempotency_key :=
    savedColumn mem.idempotency_key reread.idempotency_key latest.idempotency_key
  reversed_transaction_id := savedColumn mem.reversed_transaction_id
    reread.reversed_transaction_id latest.reversed_transaction_id
  is_reversed := savedColumn mem.is_reversed reread.is_reversed latest.is_reversed
  cash_register_log_id :=
    savedColumn mem.cash_register_log_id reread.cash_register_log_id latest.cash_register_log_id
  created_at := savedColumn mem.created_at reread.created_at latest.created_at

def CashRegisterLog.saved (mem reread latest : CashRegisterLog) : CashRegisterLog where
  id := latest.id
  tenant_id := savedColumn mem.tenant_id reread.tenant_id latest.tenant_id
  user_id := savedColumn mem.user_id reread.user_id latest.user_id
  opened_at := savedColumn mem.opened_at reread.opened_at latest.opened_at
  closed_at := savedColumn mem.closed_at reread.closed_at latest.closed_at
  opening_cash_cents :=
    savedColumn mem.opening_cash_cents reread.opening_cash_cents latest.opening_cash_cents
  expected_cash_cents :=
    savedColumn mem.expected_cash_cents reread.expected_cash_cents latest.expected_cash_cents
  actual_cash_cents :=
    savedColumn mem.actual_cash_cents reread.actual_cash_cents latest.actual_cash_cents
  discrepancy_cents :=
    savedColumn mem.discrepancy_cents reread.discrepancy_cents latest.discrepancy_cents
  note := savedColumn mem.note reread.note latest.note
  status := savedColumn mem.status reread.status latest.status
  created_at := savedColumn mem.created_at reread.created_at latest.created_at

inductive Write where
  | insertTransaction (row : Transaction)
  | insertCustomer (row : Customer)
  | insertBatch (row : IdempotentBatchOperation)
  | insertShift (row : CashRegisterLog)
  | insertBillingEvent (row : BillingEvent)
  | updateTransaction (mem reread : Transaction)
  | updateCustomer (mem reread : Customer)
  | updateTenant (mem reread : Tenant)
  | updateShift (mem reread : CashRegisterLog)
  | moveTransaction (id customerId : Uuid)
  | freezeTransaction (id shiftId : Uuid)
  | markOverdue (id : Uuid)
  | blockCustomer (id : Uuid)

def Write.apply : Write → Db → Db
  | insertTransaction row, db => { db with transactions := db.transactions.insert row }
  | insertCustomer row, db => { db with customers := db.customers.insert row }
  | insertBatch row, db => { db with batches := db.batches.insert row }
  | insertShift row, db => { db with shifts := db.shifts.insert row }
  | insertBillingEvent row, db => { db with billingEvents := db.billingEvents.insert row }
  | updateTransaction mem reread, db =>
      { db with transactions := db.transactions.modify mem.id (Transaction.saved mem reread) }
  | updateCustomer mem reread, db =>
      { db with customers := db.customers.modify mem.id (Customer.saved mem reread) }
  | updateTenant mem reread, db =>
      { db with tenants := db.tenants.modify mem.id (Tenant.saved mem reread) }
  | updateShift mem reread, db =>
      { db with shifts := db.shifts.modify mem.id (CashRegisterLog.saved mem reread) }
  | moveTransaction id customerId, db =>
      { db with transactions :=
          db.transactions.modify id fun t ↦ { t with customer_id := customerId } }
  | freezeTransaction id shiftId, db =>
      { db with transactions :=
          db.transactions.modify id fun t ↦ { t with cash_register_log_id := some shiftId } }
  | markOverdue id, db =>
      { db with customers := db.customers.modify id fun c ↦ { c with is_overdue := true } }
  | blockCustomer id, db =>
      { db with customers := db.customers.modify id fun c ↦ { c with is_active := false } }

/-! ## Statements -/

/-- A row lock, or the slot of a row in a unique index. -/
inductive LockName where
  | tenant (id : Uuid)
  | user (id : Uuid)
  | customer (id : Uuid)
  | transaction (id : Uuid)
  | batch (id : Uuid)
  | shift (id : Uuid)
  | transactionKey (tenantId key : Uuid)
  | customerKey (tenantId key : Uuid)
  | batchKey (tenantId key : Uuid)
  | billingEvent (id : Uuid)
  | externalPayment (externalPaymentId : String)
  deriving DecidableEq, Repr

inductive Sql where
  | findTransactionByKey (tenantId key : Uuid)
  | findTransaction (tenantId id : Uuid)
  | findTransactionsByGroup (groupId : Uuid)
  | insertTransaction (row : Transaction)
  | rereadTransaction (mem : Transaction)
  | updateTransaction (mem reread : Transaction)
  /-- The snapshot of `UPDATE transactions SET customer_id`. -/
  | selectTransactionsOf (tenantId customerId : Uuid)
  | moveTransaction (tenantId secondaryId primaryId id : Uuid)
  | sumCash (tenantId : Uuid) (openedAt : Timestamp)
  /-- The snapshot of `UPDATE transactions SET cash_register_log_id`. -/
  | selectUnfrozen (tenantId : Uuid) (openedAt : Timestamp)
  | freezeTransaction (tenantId : Uuid) (openedAt : Timestamp) (shiftId id : Uuid)
  /-- `SELECT ... FOR UPDATE` of one customer. -/
  | lockCustomer (tenantId id : Uuid)
  | findCustomer (tenantId id : Uuid)
  | findCustomerByKey (tenantId key : Uuid)
  | findCustomerByPhone (tenantId : Uuid) (except : Option Uuid) (phone : String)
  | findCustomerByDni (tenantId : Uuid) (except : Option Uuid) (dni : String)
  | findCustomerByEmail (tenantId : Uuid) (except : Option Uuid) (email : String)
  /-- The snapshot of `SELECT ... FOR UPDATE` of all customers. -/
  | selectCustomers (tenantId : Uuid)
  | insertCustomer (row : Customer)
  | rereadCustomer (mem : Customer)
  | updateCustomer (mem reread : Customer)
  | findBatch (tenantId key : Uuid)
  | insertBatch (row : IdempotentBatchOperation)
  | lockTenant (id : Uuid)
  | rereadTenant (mem : Tenant)
  | updateTenant (mem reread : Tenant)
  | findOpenShift (tenantId id : Uuid)
  | insertShift (row : CashRegisterLog)
  | rereadShift (mem : CashRegisterLog)
  | updateShift (mem reread : CashRegisterLog)
  | findOverdueCustomers (today : Date)
  /-- One row of `UPDATE customers SET is_overdue = true WHERE id IN (...)`. -/
  | markOverdue (id : Uuid)
  /-- The snapshot of `UPDATE customers SET is_active = false`. -/
  | selectBlocked (rule : BlockRule)
  | blockCustomer (rule : BlockRule) (id : Uuid)
  /-- The tenants that block overdue customers on their own. -/
  | findAutoBlockTenants
  | findExpiredTenants (cutoffDate : Timestamp)
  /-- `SELECT ... FOR UPDATE` of a tenant by its subscription. -/
  | lockSubscription (mpSubscriptionId : String)
  | findBillingEvent (externalPaymentId : String)
  | insertBillingEvent (row : BillingEvent)
  /-- The foreign-key checks of an insert. -/
  | keyShare (rows : List LockName)

namespace Sql

/-- What a statement answers. -/
@[reducible] def Ans : Sql → Type
  | findTransactionByKey _ _ => Option Transaction
  | findTransaction _ _ => Option Transaction
  | findTransactionsByGroup _ => List Transaction
  | insertTransaction _ => Unit
  | rereadTransaction _ => Option Transaction
  | updateTransaction _ _ => Unit
  | selectTransactionsOf _ _ => List Uuid
  | moveTransaction _ _ _ _ => Unit
  | sumCash _ _ => ℤ
  | selectUnfrozen _ _ => List Uuid
  | freezeTransaction _ _ _ _ => Unit
  | lockCustomer _ _ => Option Customer
  | findCustomer _ _ => Option Customer
  | findCustomerByKey _ _ => Option Customer
  | findCustomerByPhone _ _ _ => Option Customer
  | findCustomerByDni _ _ _ => Option Customer
  | findCustomerByEmail _ _ _ => Option Customer
  | selectCustomers _ => List Uuid
  | insertCustomer _ => Unit
  | rereadCustomer _ => Option Customer
  | updateCustomer _ _ => Unit
  | findBatch _ _ => Option IdempotentBatchOperation
  | insertBatch _ => Unit
  | lockTenant _ => Option Tenant
  | rereadTenant _ => Option Tenant
  | updateTenant _ _ => Unit
  | findOpenShift _ _ => Option CashRegisterLog
  | insertShift _ => Unit
  | rereadShift _ => Option CashRegisterLog
  | updateShift _ _ => Unit
  | findOverdueCustomers _ => List Uuid
  | markOverdue _ => Unit
  | selectBlocked _ => List Uuid
  | blockCustomer _ _ => Unit
  | findAutoBlockTenants => List (Uuid × ℤ)
  | findExpiredTenants _ => List Tenant
  | lockSubscription _ => Option Tenant
  | findBillingEvent _ => Option BillingEvent
  | insertBillingEvent _ => Unit
  | keyShare _ => Unit

/-- Rows of a locking read that is not answered are not locked. -/
def lockFound {α : Type} (found : Option α) (name : LockName) (mode : LockMode) :
    List (LockName × LockMode) :=
  if found.isSome then [(name, mode)] else []

def locks : Sql → Db → List (LockName × LockMode)
  | insertTransaction row, _ =>
      [(.transaction row.id, .update), (.transactionKey row.tenant_id row.idempotency_key, .update)]
  | updateTransaction mem _, _ => [(.transaction mem.id, .noKeyUpdate)]
  | moveTransaction tenantId secondaryId primaryId id, db =>
      if ((db.transaction tenantId id).filter fun t ↦ t.customer_id = secondaryId).isSome then
        [(.transaction id, .noKeyUpdate), (.customer primaryId, .keyShare)]
      else []
  | freezeTransaction tenantId openedAt _ id, db =>
      lockFound ((db.transactions.find id).filter fun t ↦ t.unfrozenSince tenantId openedAt)
        (.transaction id) .noKeyUpdate
  | lockCustomer tenantId id, db => lockFound (db.customer tenantId id) (.customer id) .update
  | insertCustomer row, _ =>
      (.customer row.id, .update) ::
        (row.idempotency_key.map fun key ↦ (.customerKey row.tenant_id key, .update)).toList
  | updateCustomer mem _, _ => [(.customer mem.id, .noKeyUpdate)]
  | insertBatch row, _ =>
      [(.batch row.id, .update), (.batchKey row.tenant_id row.idempotency_key, .update)]
  | lockTenant id, db => lockFound (db.tenants.find id) (.tenant id) .update
  | updateTenant mem _, _ => [(.tenant mem.id, .noKeyUpdate)]
  | insertShift row, _ => [(.shift row.id, .update)]
  | updateShift mem _, _ => [(.shift mem.id, .noKeyUpdate)]
  | markOverdue id, db => lockFound (db.customers.find id) (.customer id) .noKeyUpdate
  | blockCustomer rule id, db =>
      lockFound ((db.customers.find id).filter fun c ↦ rule.Applies c) (.customer id) .noKeyUpdate
  | lockSubscription mpSubscriptionId, db =>
      ((db.tenantBySubscription mpSubscriptionId).map fun t ↦ (.tenant t.id, .update)).toList
  | insertBillingEvent row, _ =>
      [(.billingEvent row.id, .update), (.externalPayment row.external_payment_id, .update)]
  | keyShare rows, _ => rows.map fun row ↦ (row, .keyShare)
  | _, _ => []

/-- A statement that writes `w` when `ok` holds and fails with `error` otherwise. -/
def writing (ok : Prop) [Decidable ok] (error : QueryFailedError) (w : Write) :
    Except ServiceError (Unit × List Write) :=
  if ok then .ok ((), [w]) else .error (.queryFailed error)

/-- The answer of a statement on the view of its session, and what it writes. -/
def exec : (o : Sql) → Db → Except ServiceError (o.Ans × List Write)
  | findTransactionByKey tenantId key, db => .ok (db.transactionByKey tenantId key, [])
  | findTransaction tenantId id, db => .ok (db.transaction tenantId id, [])
  | findTransactionsByGroup groupId, db => .ok (db.transactionsOfGroup groupId, [])
  | insertTransaction row, db =>
      if (db.transactions.find row.id).isSome ∨
          (db.transactionByKey row.tenant_id row.idempotency_key).isSome then
        .error (.queryFailed .uniqueViolation)
      else writing (Int4 row.amount_cents) .numericValueOutOfRange (.insertTransaction row)
  | rereadTransaction mem, db => .ok (db.transactions.find mem.id, [])
  | updateTransaction mem reread, _ =>
      writing (Int4 mem.amount_cents) .numericValueOutOfRange (.updateTransaction mem reread)
  | selectTransactionsOf tenantId customerId, db =>
      .ok ((db.transactionsOf tenantId customerId).map (·.id), [])
  | moveTransaction tenantId secondaryId primaryId id, db =>
      if ((db.transaction tenantId id).filter fun t ↦ t.customer_id = secondaryId).isSome then
        .ok ((), [.moveTransaction id primaryId])
      else .ok ((), [])
  | sumCash tenantId openedAt, db =>
      if Int4 (db.cashSince tenantId openedAt) then .ok (db.cashSince tenantId openedAt, [])
      else .error (.queryFailed .numericValueOutOfRange)
  | selectUnfrozen tenantId openedAt, db =>
      .ok ((db.transactions.rows.filter fun t ↦ t.unfrozenSince tenantId openedAt).map (·.id), [])
  | freezeTransaction tenantId openedAt shiftId id, db =>
      if ((db.transactions.find id).filter fun t ↦ t.unfrozenSince tenantId openedAt).isSome then
        .ok ((), [.freezeTransaction id shiftId])
      else .ok ((), [])
  | lockCustomer tenantId id, db => .ok (db.customer tenantId id, [])
  | findCustomer tenantId id, db => .ok (db.customer tenantId id, [])
  | findCustomerByKey tenantId key, db => .ok (db.customerByKey tenantId key, [])
  | findCustomerByPhone tenantId except phone, db =>
      .ok (db.otherCustomer tenantId except fun c ↦ c.phone = some phone, [])
  | findCustomerByDni tenantId except dni, db =>
      .ok (db.otherCustomer tenantId except fun c ↦ c.dni = some dni, [])
  | findCustomerByEmail tenantId except email, db =>
      .ok (db.otherCustomer tenantId except fun c ↦ c.email = some email, [])
  | selectCustomers tenantId, db => .ok ((db.customersOf tenantId).map (·.id), [])
  | insertCustomer row, db =>
      if (db.customers.find row.id).isSome ∨
          ((row.idempotency_key.bind (db.customerByKey row.tenant_id)).isSome) then
        .error (.queryFailed .uniqueViolation)
      else writing (Int4 row.credit_limit_cents) .numericValueOutOfRange (.insertCustomer row)
  | rereadCustomer mem, db => .ok (db.customers.find mem.id, [])
  | updateCustomer mem reread, _ =>
      writing (Int4 mem.balance_cents ∧ Int4 mem.credit_limit_cents) .numericValueOutOfRange
        (.updateCustomer mem reread)
  | findBatch tenantId key, db => .ok (db.batchByKey tenantId key, [])
  | insertBatch row, db =>
      if (db.batches.find row.id).isSome ∨
          (db.batchByKey row.tenant_id row.idempotency_key).isSome then
        .error (.queryFailed .uniqueViolation)
      else writing (Int4 row.affected_customers) .numericValueOutOfRange (.insertBatch row)
  | lockTenant id, db => .ok (db.tenants.find id, [])
  | rereadTenant mem, db => .ok (db.tenants.find mem.id, [])
  | updateTenant mem reread, _ => .ok ((), [.updateTenant mem reread])
  | findOpenShift tenantId id, db => .ok (db.openShift tenantId id, [])
  | insertShift row, db =>
      if (db.shifts.find row.id).isSome then .error (.queryFailed .uniqueViolation)
      else writing (Int4 row.opening_cash_cents) .numericValueOutOfRange (.insertShift row)
  | rereadShift mem, db => .ok (db.shifts.find mem.id, [])
  | updateShift mem reread, _ =>
      writing (∀ n ∈ [mem.expected_cash_cents, mem.actual_cash_cents, mem.discrepancy_cents],
        ∀ m ∈ n, Int4 m) .numericValueOutOfRange (.updateShift mem reread)
  | findOverdueCustomers today, db =>
      .ok ((db.customers.rows.filter fun c ↦ (∃ day ∈ c.next_payment_promise, day < today) ∧
        0 < c.balance_cents ∧ c.is_overdue = false).map (·.id), [])
  | markOverdue id, db =>
      .ok ((), if (db.customers.find id).isSome then [.markOverdue id] else [])
  | selectBlocked rule, db =>
      .ok ((db.customers.rows.filter fun c ↦ rule.Applies c).map (·.id), [])
  | blockCustomer rule id, db =>
      .ok ((), if ((db.customers.find id).filter fun c ↦ rule.Applies c).isSome
        then [.blockCustomer id] else [])
  | findAutoBlockTenants, db =>
      match db.autoBlockTenants with
      | .error error => .error (.queryFailed error)
      | .ok tenants => .ok (tenants, [])
  | findExpiredTenants cutoffDate, db =>
      .ok (db.tenants.rows.filter fun t ↦ t.status = .PAST_DUE ∧
        ∃ expires ∈ t.subscription_expires_at, expires < cutoffDate, [])
  | lockSubscription mpSubscriptionId, db => .ok (db.tenantBySubscription mpSubscriptionId, [])
  | findBillingEvent externalPaymentId, db =>
      .ok (db.billingEventByExternalId externalPaymentId, [])
  | insertBillingEvent row, db =>
      if (db.billingEvents.find row.id).isSome ∨
          (db.billingEventByExternalId row.external_payment_id).isSome then
        .error (.queryFailed .uniqueViolation)
      else writing (row.external_payment_id.length ≤ 100) .stringDataRightTruncation
        (.insertBillingEvent row)
  | keyShare _, _ => .ok ((), [])

end Sql

/-- PostgreSQL under READ COMMITTED, for the statements above. -/
def postgres : Engine Sql Sql.Ans Db Write LockName ServiceError where
  needs := Sql.locks
  exec := Sql.exec
  write := Write.apply
  aborted := .queryFailed .statementAborted

@[simp] theorem postgres_needs (o : Sql) (v : Db) : postgres.needs o v = o.locks v := rfl

@[simp] theorem postgres_exec (o : Sql) (v : Db) : postgres.exec o v = o.exec v := rfl

@[simp] theorem postgres_write (w : Write) (d : Db) : postgres.write w d = w.apply d := rfl

end MicroErp.Database
