import MicroErp.Database.Writes
import MicroErp.Services.Requests

/-!
# What the commits change

The effect of a commit on the tables: which rows it appends and how it rewrites the present ones.
`Changes` lists the effects each request can have, under which locks and conditions.  This is all
that the invariants of the ledger need to know of the programs.
-/

namespace MicroErp.Commits

open MicroErp.Concurrency MicroErp.Database MicroErp.Services

/-! ## Settings -/

/-- What is assumed of the sessions of a run, beyond the isolation level. -/
structure Setting where
  /-- Nobody else commits. -/
  exclusive : Prop
  /-- The generated identifiers are new. -/
  fresh : Prop
  /-- A reversal locks its customer while the row is unreversed and carries that customer. -/
  checked : Prop
  /-- The `save` of a reversal reads again the customer and the shift that it loaded. -/
  savesFresh : Prop
  /-- The `save` of an edit reads again the balance and the limit that it loaded. -/
  editsFresh : Prop
  /-- The look-up of the key finds nothing in the sessions with this environment. -/
  keyUnused : Env → Prop
  /-- Only the operations that lock customers run, and each has to stay in step with a run alone. -/
  quiet : Prop
  /-- All sessions are copies of one request, which locks this customer, and a copy that found
  its key unused reads on only while the key is unused. -/
  copiesOn : Option Uuid

/-- Nothing is assumed but that generated identifiers are new. -/
def Setting.plain : Setting where
  exclusive := False
  fresh := True
  checked := False
  savesFresh := False
  editsFresh := False
  keyUnused _ := False
  quiet := False
  copiesOn := none

end MicroErp.Commits

namespace MicroErp.Services.Request

open MicroErp.Database

/-- No committed transaction or batch has the key of the request. -/
def KeyUnused (req : Request) (d : Db) : Prop :=
  (∀ slot ∈ req.transactionKey, d.transactionByKey slot.1 slot.2 = none) ∧
    ∀ slot ∈ req.batchKey, d.batchByKey slot.1 slot.2 = none

/-- A reversal that locks customer `id` now finds its transaction unreversed and carried by it. -/
def Checked (req : Request) (id : Uuid) (d : Db) : Prop :=
  match req with
  | reverseTransaction tenantId _ transactionId _ =>
      ∃ t, d.transaction tenantId transactionId = some t ∧ t.is_reversed = false ∧
        t.customer_id = id
  | _ => True

instance (req : Request) (id : Uuid) (d : Db) : Decidable (req.Checked id d) :=
  match req with
  | reverseTransaction tenantId _ transactionId _ =>
      inferInstanceAs (Decidable (∃ t ∈ d.transaction tenantId transactionId,
        t.is_reversed = false ∧ t.customer_id = id))
  | registerDebt .. | registerPayment .. | registerMixedPayment .. | forgiveDebt ..
  | applyInflationAdjustment .. | createCustomer .. | updateCustomer .. | updateCreditLimit ..
  | toggleBlock .. | updatePromise .. | mergeCustomers .. | openTurn .. | closeTurn ..
  | updateSettings .. | processPayment .. | processSaaSExpirations | processOverdueCustomers ..
  | processAutoBlocks .. | processAutoBlockOnLimit => isTrue trivial

/-- The requests that edit a customer without a lock. -/
def IsEdit : Request → Prop
  | updateCustomer _ _ _ => True
  | toggleBlock _ _ => True
  | updatePromise _ _ _ => True
  | _ => False

instance : DecidablePred IsEdit := fun req ↦ by
  cases req <;> unfold IsEdit <;> infer_instance

/-- The tenant and the customer of an edit. -/
def editedId : Request → Option (Uuid × Uuid)
  | updateCustomer tenantId customerId _ => some (tenantId, customerId)
  | toggleBlock tenantId customerId => some (tenantId, customerId)
  | updatePromise tenantId customerId _ => some (tenantId, customerId)
  | _ => none

theorem isEdit_of_editedId {req : Request} {who : Uuid × Uuid} (h : req.editedId = some who) :
    req.IsEdit := by
  cases req <;> trivial

theorem transactionKey_of_isEdit {req : Request} (h : req.IsEdit) : req.transactionKey = none := by
  cases req <;> first | rfl | exact h.elim

/-- The requests that touch neither a customer nor the ledger. -/
def IsAside : Request → Prop
  | openTurn _ _ _ => True
  | updateSettings _ _ => True
  | processPayment _ _ _ => True
  | processSaaSExpirations => True
  | _ => False

/-- The requests that flag many customers at once. -/
def IsFlagging : Request → Prop
  | processOverdueCustomers _ => True
  | processAutoBlocks _ _ => True
  | processAutoBlockOnLimit => True
  | _ => False

/-- The requests that lock the customers they touch. -/
def IsQuiet : Request → Prop
  | createCustomer _ _ => False
  | updateCustomer _ _ _ => False
  | toggleBlock _ _ => False
  | updatePromise _ _ _ => False
  | openTurn _ _ _ => False
  | closeTurn _ _ => False
  | updateSettings _ _ => False
  | processPayment _ _ _ => False
  | processSaaSExpirations => False
  | processOverdueCustomers _ => False
  | processAutoBlocks _ _ => False
  | processAutoBlockOnLimit => False
  | _ => True

/-- The requests that may commit without having written anything: a key that was found is answered
from its row, and an edit may change nothing. -/
def MayIdle (req : Request) : Prop :=
  req.transactionKey.isSome ∨ req.batchKey.isSome ∨ req.IsEdit

/-- The request locks customer `who`, if any, as long as `d` is the database. -/
def LocksOnly (req : Request) (who : Uuid) (d : Db) : Prop :=
  match req with
  | registerDebt _ _ dto => dto.customer_id = who
  | registerPayment _ _ dto => dto.customer_id = who
  | registerMixedPayment _ _ dto => dto.customer_id = who
  | reverseTransaction tenantId _ transactionId _ =>
      ∀ t, d.transaction tenantId transactionId = some t → t.customer_id = who
  | forgiveDebt _ _ dto => dto.customer_id = who
  | _ => False

end MicroErp.Services.Request

namespace MicroErp.Commits

open MicroErp.Concurrency MicroErp.Database MicroErp.Services

/-- What a setting assumes of the view of a statement. -/
def Setting.allow (S : Setting) (req : Request) (env : Env) : Sql → Db → Prop
  | .findTransactionByKey tenantId key, v => S.keyUnused env → v.transactionByKey tenantId key = none
  | .findTransaction _ _, v => S.copiesOn.isSome → req.KeyUnused v
  | .lockCustomer _ id, v =>
      (S.checked → req.Checked id v) ∧ (S.copiesOn.isSome → req.KeyUnused v)
  | .rereadTransaction mem, v => S.savesFresh → ∀ t ∈ v.transactions.find mem.id,
      t.customer_id = mem.customer_id ∧ t.cash_register_log_id = mem.cash_register_log_id
  | .rereadCustomer mem, v => S.editsFresh → req.IsEdit → ∀ c ∈ v.customers.find mem.id,
      c.balance_cents = mem.balance_cents ∧ c.credit_limit_cents = mem.credit_limit_cents
  | _, _ => True

/-! ## Effects -/

structure Effect where
  /-- The transactions appended. -/
  rows : List Transaction
  /-- What becomes of the present transactions. -/
  tweak : Transaction → Transaction
  /-- What becomes of the present customers. -/
  customer : Customer → Customer
  customers : List Customer
  batches : List IdempotentBatchOperation

structure Effect.Yields (e : Effect) (d d' : Db) : Prop where
  transactions : d'.transactions.rows = d.transactions.rows.map e.tweak ++ e.rows
  customers : d'.customers.rows = d.customers.rows.map e.customer ++ e.customers
  batches : d'.batches.rows = d.batches.rows ++ e.batches

def Effect.none : Effect := ⟨[], id, id, [], []⟩

/-- The table with `c` in place of the customer with its id. -/
def setCustomer (c : Customer) (x : Customer) : Customer := if x.id = c.id then c else x

/-- Rows for customer `c`, whose balance becomes `balance`. -/
def posting (c : Customer) (rows : List Transaction) (balance : ℤ) : Effect :=
  { Effect.none with rows := rows, customer := setCustomer { c with balance_cents := balance } }

theorem posting_self (c : Customer) (rows : List Transaction) (balance : ℤ) :
    (posting c rows balance).customer c = { c with balance_cents := balance } := if_pos rfl

/-- The session holds customer `c` as it is committed. -/
def Holds (d : Db) (lk : List (LockName × LockMode)) (tenantId : Uuid) (c : Customer) : Prop :=
  d.customers.find c.id = some c ∧ c.tenant_id = tenantId ∧ (.customer c.id, .update) ∈ lk

/-- The rows and the balance that a posting request gives customer `c`. -/
inductive Posts (env : Env) (c : Customer) : Request → List Transaction → ℤ → Prop
  | debt {tenantId userId : Uuid} {dto : CreateTransactionDto} (hid : c.id = dto.customer_id)
      (hactive : c.is_active = true)
      (hlimit : c.balance_cents + dto.amount_cents ≤ c.credit_limit_cents) :
      Posts env c (.registerDebt tenantId userId dto) [debtRow env tenantId userId dto]
        (c.balance_cents + dto.amount_cents)
  | payment {tenantId userId : Uuid} {dto : CreatePaymentDto} (hid : c.id = dto.customer_id)
      (hpos : 0 < min dto.amount_cents c.balance_cents) :
      Posts env c (.registerPayment tenantId userId dto)
        [paymentRow env tenantId userId dto (min dto.amount_cents c.balance_cents)]
        (c.balance_cents - min dto.amount_cents c.balance_cents)
  | mixed {tenantId userId : Uuid} {dto : CreateMixedPaymentDto} (hid : c.id = dto.customer_id)
      (htotal : dto.cash_amount_cents + dto.transfer_amount_cents = dto.total_amount_cents)
      (hpos : 0 < c.balance_cents) :
      Posts env c (.registerMixedPayment tenantId userId dto)
        [cashRow env tenantId userId dto (effectiveShares dto c.balance_cents).1,
          transferRow env tenantId userId dto (effectiveShares dto c.balance_cents).2]
        (max 0 (c.balance_cents - ((effectiveShares dto c.balance_cents).1 +
          (effectiveShares dto c.balance_cents).2)))
  | forgiveness {tenantId userId : Uuid} {dto : ForgiveDebtDto} (hid : c.id = dto.customer_id)
      (hpos : 0 < c.balance_cents) :
      Posts env c (.forgiveDebt tenantId userId dto)
        [forgivenessRow env tenantId userId dto c.balance_cents] 0

/-- The debtors a batch adjusts, each with its row; `index` is the place of the first one among
the debtors. -/
inductive Adjusts (env : Env) (tenantId userId : Uuid) (dto : InflationAdjustmentDto) :
    ℕ → List (Customer × Transaction) → Prop
  | nil (index : ℕ) : Adjusts env tenantId userId dto index []
  | skip {index : ℕ} {adjusted : List (Customer × Transaction)}
      (h : Adjusts env tenantId userId dto (index + 1) adjusted) :
      Adjusts env tenantId userId dto index adjusted
  | adjust {index : ℕ} {c : Customer} {adjusted : List (Customer × Transaction)}
      (hpos : 0 < adjustmentOf dto c.balance_cents)
      (h : Adjusts env tenantId userId dto (index + 1) adjusted) :
      Adjusts env tenantId userId dto index
        ((c, adjustmentRow env tenantId userId dto index c) :: adjusted)

def adjustCustomer (dto : InflationAdjustmentDto) (adjusted : List Customer) (x : Customer) :
    Customer :=
  if x ∈ adjusted then
    { x with balance_cents := x.balance_cents + adjustmentOf dto x.balance_cents }
  else x

/-- The primary customer of a merge takes the balance and the higher limit. -/
def mergedPrimary (primary secondary : Customer) : Customer :=
  { primary with
    balance_cents := primary.balance_cents + secondary.balance_cents
    credit_limit_cents := max primary.credit_limit_cents secondary.credit_limit_cents }

/-- The secondary customer of a merge is left without balance and inactive. -/
def absorbed (secondary : Customer) : Customer :=
  { secondary with is_active := false, balance_cents := 0 }

/-- What the cron jobs set. -/
inductive Flag where
  | overdue
  | blocked

def Flag.set : Flag → Customer → Customer
  | overdue, c => { c with is_overdue := true }
  | blocked, c => { c with is_active := false }

/-- The customers `flagged` get the flag. -/
def flagging (flag : Flag) (flagged : List Uuid) : Effect :=
  { Effect.none with customer := fun x ↦ if x.id ∈ flagged then flag.set x else x }

/-- The effects that a request can have when it commits writes in `d` under the locks `lk`. -/
inductive Changes (S : Setting) (env : Env) (lk : List (LockName × LockMode)) (d : Db) :
    Request → Effect → Prop
  | post {req : Request} {tenantId key : Uuid} {c : Customer} {rows : List Transaction}
      {balance : ℤ} (hkey : req.transactionKey = some (tenantId, key))
      (hc : Holds d lk tenantId c) (hposts : Posts env c req rows balance) :
      Changes S env lk d req (posting c rows balance)
  | reverse {tenantId userId transactionId : Uuid} {dto : ReverseTransactionDto}
      {original reread : Transaction} {c : Customer}
      (hid : original.id = transactionId) (htenant : original.tenant_id = tenantId)
      (hunreversed : original.is_reversed = false) (hc : Holds d lk tenantId c)
      (hcustomer : c.id = original.customer_id)
      (hpresent : ∃ t ∈ d.transactions.rows, t.toCore = original.toCore)
      (hreread : reread.toCore = original.toCore)
      (hchecked : S.checked →
        (reread.customer_id = original.customer_id ∧ reread.is_reversed = false) ∧
          ∀ t ∈ d.transactions.rows, t.id = transactionId →
            t.customer_id = original.customer_id ∧ t.is_reversed = false)
      (hsaves : S.savesFresh → reread.customer_id = original.customer_id ∧
        reread.cash_register_log_id = original.cash_register_log_id)
      (hexact : S.exclusive ∨ S.quiet → original ∈ d.transactions.rows ∧ reread = original)
      (hmarks : reread.is_reversed = true → ∀ t ∈ d.transactions.rows, t.id = transactionId →
        t.is_reversed = true) :
      Changes S env lk d (.reverseTransaction tenantId userId transactionId dto)
        { posting c [reversalRow env tenantId userId dto original]
            (balanceAfterReversal original.type original.amount_cents c.balance_cents) with
          tweak := fun t ↦ if t.id = transactionId then
            Transaction.saved { original with is_reversed := true } reread t else t }
  | inflate {tenantId userId : Uuid} {dto : InflationAdjustmentDto}
      {adjusted : List (Customer × Transaction)} {debtors : ℕ} {total : ℤ}
      (hadjusts : Adjusts env tenantId userId dto 0 adjusted)
      (hdistinct : (adjusted.map fun x ↦ x.1.id).Nodup)
      (hholds : ∀ x ∈ adjusted, Holds d lk tenantId x.1) :
      Changes S env lk d (.applyInflationAdjustment tenantId userId dto)
        { Effect.none with
          rows := adjusted.map Prod.snd
          customer := adjustCustomer dto (adjusted.map Prod.fst)
          batches := [batchRow env tenantId dto debtors total] }
  | merge {tenantId : Uuid} {dto : MergeCustomersDto} {primary secondary : Customer}
      {moved : List Uuid} (hprimary : Holds d lk tenantId primary)
      (hsecondary : Holds d lk tenantId secondary)
      (hprimaryId : primary.id = dto.primary_id.value)
      (hsecondaryId : secondary.id = dto.secondary_id.value)
      (hmoved : ∀ t ∈ d.transactions.rows, t.id ∈ moved →
        t.customer_id = secondary.id ∧ t.tenant_id = tenantId)
      (hall : S.exclusive ∨ S.quiet → ∀ t ∈ d.transactions.rows, t.customer_id = secondary.id →
        t.tenant_id = tenantId → t.id ∈ moved) :
      Changes S env lk d (.mergeCustomers tenantId dto)
        { Effect.none with
          tweak := fun t ↦ if t.id ∈ moved then { t with customer_id := primary.id } else t
          customer :=
            setCustomer (absorbed secondary) ∘ setCustomer (mergedPrimary primary secondary) }
  | limit {tenantId customerId : Uuid} {dto : UpdateCreditLimitDto} {c : Customer}
      (hc : Holds d lk tenantId c) (hid : c.id = customerId) :
      Changes S env lk d (.updateCreditLimit tenantId customerId dto)
        { Effect.none with
          customer := setCustomer { c with credit_limit_cents := dto.credit_limit_cents } }
  | edit {req : Request} {mem reread : Customer} (hedit : req.IsEdit)
      (hid : mem.id = reread.id) (htenant : mem.tenant_id = reread.tenant_id)
      (hkey : mem.idempotency_key = reread.idempotency_key)
      (hmoney : S.exclusive ∨ S.editsFresh → mem.balance_cents = reread.balance_cents ∧
        mem.credit_limit_cents = reread.credit_limit_cents)
      (hwho : req.editedId = some (mem.tenant_id, mem.id))
      (hpresent : ∃ c ∈ d.customers.rows, c.id = mem.id ∧ c.tenant_id = mem.tenant_id) :
      Changes S env lk d req
        { Effect.none with
          customer := fun x ↦ if x.id = mem.id then Customer.saved mem reread x else x }
  | create {tenantId : Uuid} {dto : CreateCustomerDto} :
      Changes S env lk d (.createCustomer tenantId dto)
        { Effect.none with customers := [newCustomer env tenantId dto] }
  | aside {req : Request} (haside : req.IsAside) : Changes S env lk d req Effect.none
  | flag {req : Request} {flag : Flag} {flagged : List Uuid} (hflag : req.IsFlagging) :
      Changes S env lk d req (flagging flag flagged)
  | close {tenantId : Uuid} {dto : CloseTurnDto} {openedAt : Timestamp} {shiftId : Uuid}
      {frozen : List Uuid}
      (hfrozen : ∀ t ∈ d.transactions.rows, t.id ∈ frozen → t.unfrozenSince tenantId openedAt) :
      Changes S env lk d (.closeTurn tenantId dto)
        { Effect.none with
          tweak := fun t ↦
            if t.id ∈ frozen then { t with cash_register_log_id := some shiftId } else t }

end MicroErp.Commits
