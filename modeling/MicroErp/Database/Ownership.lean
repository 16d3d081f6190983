import MicroErp.Concurrency.Partition
import MicroErp.Database.Writes
import MicroErp.Storage.Restrict

/-!
# The rows of one tenant

`Db.only` is the part of the database that belongs to a tenant.  A statement that is `Scoped` to the
tenant does on the whole database what it does on that part, and the writes of other tenants do not
show there (`MicroErp.Database.OwnedWrites`).  The identifiers decide who owns a row: `own` gives
each one its tenant, if it has one.
-/

namespace MicroErp.Database

open MicroErp.Concurrency MicroErp.Storage

/-- The rows of the tenant. -/
def Db.only (db : Db) (tenantId : Uuid) : Db where
  tenants := db.tenants.restrict fun t ↦ t.id = tenantId
  customers := db.customers.restrict fun c ↦ c.tenant_id = tenantId
  transactions := db.transactions.restrict fun t ↦ t.tenant_id = tenantId
  batches := db.batches.restrict fun b ↦ b.tenant_id = tenantId
  shifts := db.shifts.restrict fun s ↦ s.tenant_id = tenantId
  billingEvents := db.billingEvents.restrict fun b ↦ b.tenant_id = tenantId

/-- The identifiers in the row belong to its tenant. -/
structure Transaction.Owned (own : Uuid → Option Uuid) (t : Transaction) : Prop where
  id : own t.id = some t.tenant_id
  customer : own t.customer_id = some t.tenant_id
  group : ∀ g ∈ t.reference_group_id, own g = some t.tenant_id

/-- Every row belongs to the tenant of its identifier. -/
structure Db.Owned (own : Uuid → Option Uuid) (db : Db) : Prop where
  customers : ∀ c ∈ db.customers.rows, own c.id = some c.tenant_id
  transactions : ∀ t ∈ db.transactions.rows, t.Owned own
  batches : ∀ b ∈ db.batches.rows, own b.id = some b.tenant_id
  shifts : ∀ s ∈ db.shifts.rows, own s.id = some s.tenant_id

/-- The locks that the requests of a tenant take.  The users are not told apart: an insert only
checks that its user exists. -/
def LockName.HeldFor (own : Uuid → Option Uuid) (tenantId : Uuid) : LockName × LockMode → Prop
  | (.tenant id, _) => id = tenantId
  | (.user _, mode) => mode = .keyShare
  | (.customer id, _) => own id = some tenantId
  | (.transaction id, _) => own id = some tenantId
  | (.batch id, _) => own id = some tenantId
  | (.shift id, _) => own id = some tenantId
  | (.transactionKey tenantId' _, _) => tenantId' = tenantId
  | (.customerKey tenantId' _, _) => tenantId' = tenantId
  | (.batchKey tenantId' _, _) => tenantId' = tenantId
  | (.billingEvent _, _) => False
  | (.externalPayment _, _) => False

/-- Statements that name the tenant or rows of the tenant. -/
def Sql.Scoped (own : Uuid → Option Uuid) (tenantId : Uuid) : Sql → Prop
  | .findTransactionByKey tenantId' _ => tenantId' = tenantId
  | .findTransaction tenantId' _ => tenantId' = tenantId
  | .findTransactionsByGroup groupId => own groupId = some tenantId
  | .insertTransaction row => row.Owned own ∧ row.tenant_id = tenantId
  | .rereadTransaction mem => own mem.id = some tenantId
  | .updateTransaction mem _ => mem.Owned own ∧ mem.tenant_id = tenantId
  | .selectTransactionsOf tenantId' _ => tenantId' = tenantId
  | .moveTransaction tenantId' _ primaryId _ => tenantId' = tenantId ∧ own primaryId = some tenantId
  | .sumCash tenantId' _ => tenantId' = tenantId
  | .selectUnfrozen tenantId' _ => tenantId' = tenantId
  | .freezeTransaction tenantId' _ _ _ => tenantId' = tenantId
  | .lockCustomer tenantId' _ => tenantId' = tenantId
  | .findCustomer tenantId' _ => tenantId' = tenantId
  | .findCustomerByKey tenantId' _ => tenantId' = tenantId
  | .findCustomerByPhone tenantId' _ _ => tenantId' = tenantId
  | .findCustomerByDni tenantId' _ _ => tenantId' = tenantId
  | .findCustomerByEmail tenantId' _ _ => tenantId' = tenantId
  | .selectCustomers tenantId' => tenantId' = tenantId
  | .insertCustomer row => own row.id = some tenantId ∧ row.tenant_id = tenantId
  | .rereadCustomer mem => own mem.id = some tenantId
  | .updateCustomer mem _ => own mem.id = some tenantId ∧ mem.tenant_id = tenantId
  | .findBatch tenantId' _ => tenantId' = tenantId
  | .insertBatch row => own row.id = some tenantId ∧ row.tenant_id = tenantId
  | .lockTenant id => id = tenantId
  | .rereadTenant mem => mem.id = tenantId
  | .updateTenant mem _ => mem.id = tenantId
  | .findOpenShift tenantId' _ => tenantId' = tenantId
  | .insertShift row => own row.id = some tenantId ∧ row.tenant_id = tenantId
  | .rereadShift mem => own mem.id = some tenantId
  | .updateShift mem _ => own mem.id = some tenantId ∧ mem.tenant_id = tenantId
  | .selectBlocked rule => ∃ cutoff, rule = .overdue tenantId cutoff
  | .blockCustomer rule _ => ∃ cutoff, rule = .overdue tenantId cutoff
  | .keyShare rows => ∀ row ∈ rows, LockName.HeldFor own tenantId (row, .keyShare)
  | _ => False

/-- Statements that give no row to another tenant, whatever rows they meet. -/
def Sql.Clerical : Sql → Prop
  | .insertTransaction _ => False
  | .updateTransaction _ _ => False
  | .moveTransaction _ _ _ _ => False
  | .insertCustomer _ => False
  | .updateCustomer _ _ => False
  | .insertBatch _ => False
  | .insertShift _ => False
  | .updateShift _ _ => False
  | .freezeTransaction _ _ _ _ => False
  | .keyShare rows => ∀ row ∈ rows, ∃ id, row = .tenant id
  | _ => True

/-- What the statements of a tenant say about the rows they answer. -/
def Sql.Brings (own : Uuid → Option Uuid) : (o : Sql) → o.Ans → Prop
  | .findTransactionByKey tenantId _, r => ∀ t ∈ r, t.Owned own ∧ t.tenant_id = tenantId
  | .findTransaction tenantId _, r => ∀ t ∈ r, t.Owned own ∧ t.tenant_id = tenantId
  | .lockCustomer tenantId id, r => ∀ c ∈ r, c.id = id ∧ own c.id = some tenantId ∧ c.tenant_id = tenantId
  | .findCustomer tenantId _, r => ∀ c ∈ r, own c.id = some tenantId ∧ c.tenant_id = tenantId
  | .lockTenant id, r => ∀ t ∈ r, t.id = id
  | .findOpenShift tenantId _, r => ∀ s ∈ r, own s.id = some tenantId ∧ s.tenant_id = tenantId
  | _, _ => True

/-- Writes to rows of the tenant, which leave them with the tenant. -/
def Write.Scoped (own : Uuid → Option Uuid) (tenantId : Uuid) : Write → Prop
  | .insertTransaction row => row.Owned own ∧ row.tenant_id = tenantId
  | .insertCustomer row => own row.id = some tenantId ∧ row.tenant_id = tenantId
  | .insertBatch row => own row.id = some tenantId ∧ row.tenant_id = tenantId
  | .insertShift row => own row.id = some tenantId ∧ row.tenant_id = tenantId
  | .insertBillingEvent _ => False
  | .updateTransaction mem _ => mem.Owned own ∧ mem.tenant_id = tenantId
  | .updateCustomer mem _ => own mem.id = some tenantId ∧ mem.tenant_id = tenantId
  | .updateTenant mem _ => mem.id = tenantId
  | .updateShift mem _ => own mem.id = some tenantId ∧ mem.tenant_id = tenantId
  | .moveTransaction id customerId => own id = some tenantId ∧ own customerId = some tenantId
  | .freezeTransaction id _ => own id = some tenantId
  | .markOverdue _ => False
  | .blockCustomer id => own id = some tenantId

def Write.Clerical : Write → Prop
  | .insertBillingEvent _ => True
  | .updateTenant _ _ => True
  | .markOverdue _ => True
  | .blockCustomer _ => True
  | _ => False

variable {own : Uuid → Option Uuid} {tenantId : Uuid} {db : Db}

/-- An identifier has one tenant. -/
theorem eq_of_own {id tenantId' : Uuid} (h : own id = some tenantId) (h' : own id = some tenantId') :
    tenantId = tenantId' :=
  Option.some.inj (h.symm.trans h')

namespace Db.Owned

variable (h : db.Owned own) {id : Uuid} (hid : own id = some tenantId)
include h hid

theorem transaction_tenant {t : Transaction} (ht : t ∈ db.transactions.rows) (hkey : t.id = id) :
    t.tenant_id = tenantId :=
  eq_of_own (h.transactions t ht).id (hkey ▸ hid)

theorem customer_tenant {c : Customer} (hc : c ∈ db.customers.rows) (hkey : c.id = id) :
    c.tenant_id = tenantId :=
  eq_of_own (h.customers c hc) (hkey ▸ hid)

theorem batch_tenant {b : IdempotentBatchOperation} (hb : b ∈ db.batches.rows) (hkey : b.id = id) :
    b.tenant_id = tenantId :=
  eq_of_own (h.batches b hb) (hkey ▸ hid)

theorem shift_tenant {s : CashRegisterLog} (hs : s ∈ db.shifts.rows) (hkey : s.id = id) :
    s.tenant_id = tenantId :=
  eq_of_own (h.shifts s hs) (hkey ▸ hid)

end Db.Owned

/-! ## What is read -/

namespace Db

theorem transactionByKey_only (key : Uuid) :
    (db.only tenantId).transactionByKey tenantId key = db.transactionByKey tenantId key := by
  unfold transactionByKey only
  rw [Table.rows_restrict, List.find?_filter]
  congr 1
  funext t
  simp

theorem transaction_only (id : Uuid) :
    (db.only tenantId).transaction tenantId id = db.transaction tenantId id := by
  unfold transaction only
  rw [Table.find_restrict, Option.filter_filter]
  simp

theorem transactionsOfGroup_only (h : db.Owned own) {groupId : Uuid} (hg : own groupId = some tenantId) :
    (db.only tenantId).transactionsOfGroup groupId = db.transactionsOfGroup groupId := by
  unfold transactionsOfGroup only
  rw [Table.rows_restrict, List.filter_filter]
  refine List.filter_congr fun t ht ↦ ?_
  by_cases hgroup : t.reference_group_id = some groupId
  · have htenant : t.tenant_id = tenantId :=
      eq_of_own ((h.transactions t ht).group groupId hgroup) hg
    simp [hgroup, htenant]
  · simp [hgroup]

theorem transactionsOf_only (customerId : Uuid) :
    (db.only tenantId).transactionsOf tenantId customerId = db.transactionsOf tenantId customerId := by
  unfold transactionsOf only
  rw [Table.rows_restrict, List.filter_filter]
  refine List.filter_congr fun t _ ↦ ?_
  by_cases ht : t.tenant_id = tenantId <;> simp [ht]

theorem customer_only (id : Uuid) :
    (db.only tenantId).customer tenantId id = db.customer tenantId id := by
  unfold customer only
  rw [Table.find_restrict, Option.filter_filter]
  simp

theorem customersOf_only :
    (db.only tenantId).customersOf tenantId = db.customersOf tenantId := by
  unfold customersOf only
  rw [Table.rows_restrict, List.filter_filter]
  simp

theorem customerByKey_only (key : Uuid) :
    (db.only tenantId).customerByKey tenantId key = db.customerByKey tenantId key := by
  unfold customerByKey only
  rw [Table.rows_restrict, List.find?_filter]
  congr 1
  funext c
  simp

theorem otherCustomer_only (except : Option Uuid) (p : Customer → Bool) :
    (db.only tenantId).otherCustomer tenantId except p = db.otherCustomer tenantId except p := by
  unfold otherCustomer
  rw [customersOf_only]

theorem batchByKey_only (key : Uuid) :
    (db.only tenantId).batchByKey tenantId key = db.batchByKey tenantId key := by
  unfold batchByKey only
  rw [Table.rows_restrict, List.find?_filter]
  congr 1
  funext b
  simp

theorem openShift_only (id : Uuid) :
    (db.only tenantId).openShift tenantId id = db.openShift tenantId id := by
  unfold openShift only
  rw [Table.find_restrict, Option.filter_filter]
  congr 1
  funext s
  simp

theorem filter_unfrozen_only (openedAt : Timestamp) :
    ((db.only tenantId).transactions.rows.filter fun t ↦ t.unfrozenSince tenantId openedAt) =
      db.transactions.rows.filter fun t ↦ t.unfrozenSince tenantId openedAt := by
  unfold only
  rw [Table.rows_restrict, List.filter_filter]
  refine List.filter_congr fun t _ ↦ ?_
  by_cases ht : t.unfrozenSince tenantId openedAt
  · simp [ht, ht.1]
  · simp [ht]

theorem cashSince_only (openedAt : Timestamp) :
    (db.only tenantId).cashSince tenantId openedAt = db.cashSince tenantId openedAt := by
  unfold cashSince
  have hrows : ∀ d : Db, (d.transactions.rows.filter fun t ↦ t.unfrozenSince tenantId openedAt ∧
      (t.payment_method = some .CASH ∨ t.payment_method = none)) =
      (d.transactions.rows.filter fun t ↦ t.unfrozenSince tenantId openedAt).filter
        fun t ↦ t.payment_method = some .CASH ∨ t.payment_method = none := by
    intro d
    rw [List.filter_filter]
    refine List.filter_congr fun t _ ↦ ?_
    simp [and_comm]
  rw [hrows, hrows, filter_unfrozen_only]

theorem find_transaction_only (h : db.Owned own) {id : Uuid} (hid : own id = some tenantId) :
    (db.only tenantId).transactions.find id = db.transactions.find id := by
  refine Table.find_restrict_eq fun t ht hkey ↦ ?_
  simpa using h.transaction_tenant hid ht hkey

theorem find_customer_only (h : db.Owned own) {id : Uuid} (hid : own id = some tenantId) :
    (db.only tenantId).customers.find id = db.customers.find id := by
  refine Table.find_restrict_eq fun c hc hkey ↦ ?_
  simpa using h.customer_tenant hid hc hkey

theorem find_batch_only (h : db.Owned own) {id : Uuid} (hid : own id = some tenantId) :
    (db.only tenantId).batches.find id = db.batches.find id := by
  refine Table.find_restrict_eq fun b hb hkey ↦ ?_
  simpa using h.batch_tenant hid hb hkey

theorem find_shift_only (h : db.Owned own) {id : Uuid} (hid : own id = some tenantId) :
    (db.only tenantId).shifts.find id = db.shifts.find id := by
  refine Table.find_restrict_eq fun s hs hkey ↦ ?_
  simpa using h.shift_tenant hid hs hkey

theorem find_tenant_only :
    (db.only tenantId).tenants.find tenantId = db.tenants.find tenantId := by
  refine Table.find_restrict_eq fun t _ hkey ↦ ?_
  rw [Tenant.key_eq] at hkey
  simp [hkey]

theorem find_unfrozen_only (openedAt : Timestamp) (id : Uuid) :
    (((db.only tenantId).transactions.find id).filter fun t ↦ t.unfrozenSince tenantId openedAt) =
      (db.transactions.find id).filter fun t ↦ t.unfrozenSince tenantId openedAt := by
  unfold only
  rw [Table.find_restrict, Option.filter_filter]
  congr 1
  funext t
  by_cases ht : t.unfrozenSince tenantId openedAt
  · simp [ht, ht.1]
  · simp [ht]

theorem filter_blocked_only (cutoff : Date) :
    ((db.only tenantId).customers.rows.filter fun c ↦
        (BlockRule.overdue tenantId cutoff).Applies c) =
      db.customers.rows.filter fun c ↦ (BlockRule.overdue tenantId cutoff).Applies c := by
  unfold only
  rw [Table.rows_restrict, List.filter_filter]
  refine List.filter_congr fun c _ ↦ ?_
  by_cases hc : (BlockRule.overdue tenantId cutoff).Applies c
  · simp [hc, hc.1]
  · simp [hc]

theorem find_blocked_only (cutoff : Date) (id : Uuid) :
    (((db.only tenantId).customers.find id).filter fun c ↦
        (BlockRule.overdue tenantId cutoff).Applies c) =
      (db.customers.find id).filter fun c ↦ (BlockRule.overdue tenantId cutoff).Applies c := by
  unfold only
  rw [Table.find_restrict, Option.filter_filter]
  congr 1
  funext c
  by_cases hc : (BlockRule.overdue tenantId cutoff).Applies c
  · simp [hc, hc.1]
  · simp [hc]

end Db

/-! ## Statements -/

namespace Sql

theorem exec_only {o : Sql} (h : o.Scoped own tenantId) (hd : db.Owned own) :
    o.exec (db.only tenantId) = o.exec db := by
  cases o with
  | findTransactionByKey tenantId' key =>
    obtain rfl : tenantId' = tenantId := h
    simp only [exec, Db.transactionByKey_only]
  | findTransaction tenantId' id =>
    obtain rfl : tenantId' = tenantId := h
    simp only [exec, Db.transaction_only]
  | findTransactionsByGroup groupId => simp only [exec, Db.transactionsOfGroup_only hd h]
  | insertTransaction row =>
    obtain ⟨howned, rfl⟩ := h
    simp only [exec, Db.find_transaction_only hd howned.id, Db.transactionByKey_only]
  | rereadTransaction mem => simp only [exec, Db.find_transaction_only hd h]
  | updateTransaction mem reread => rfl
  | selectTransactionsOf tenantId' customerId =>
    obtain rfl : tenantId' = tenantId := h
    simp only [exec, Db.transactionsOf_only]
  | moveTransaction tenantId' secondaryId primaryId id =>
    obtain ⟨rfl, -⟩ : tenantId' = tenantId ∧ own primaryId = some tenantId := h
    simp only [exec, Db.transaction_only]
  | sumCash tenantId' openedAt =>
    obtain rfl : tenantId' = tenantId := h
    simp only [exec, Db.cashSince_only]
  | selectUnfrozen tenantId' openedAt =>
    obtain rfl : tenantId' = tenantId := h
    simp only [exec, Db.filter_unfrozen_only]
  | freezeTransaction tenantId' openedAt shiftId id =>
    obtain rfl : tenantId' = tenantId := h
    simp only [exec, Db.find_unfrozen_only]
  | lockCustomer tenantId' id =>
    obtain rfl : tenantId' = tenantId := h
    simp only [exec, Db.customer_only]
  | findCustomer tenantId' id =>
    obtain rfl : tenantId' = tenantId := h
    simp only [exec, Db.customer_only]
  | findCustomerByKey tenantId' key =>
    obtain rfl : tenantId' = tenantId := h
    simp only [exec, Db.customerByKey_only]
  | findCustomerByPhone tenantId' except phone =>
    obtain rfl : tenantId' = tenantId := h
    simp only [exec, Db.otherCustomer_only]
  | findCustomerByDni tenantId' except dni =>
    obtain rfl : tenantId' = tenantId := h
    simp only [exec, Db.otherCustomer_only]
  | findCustomerByEmail tenantId' except email =>
    obtain rfl : tenantId' = tenantId := h
    simp only [exec, Db.otherCustomer_only]
  | selectCustomers tenantId' =>
    obtain rfl : tenantId' = tenantId := h
    simp only [exec, Db.customersOf_only]
  | insertCustomer row =>
    obtain ⟨hid, rfl⟩ := h
    have hkey : (db.only row.tenant_id).customerByKey row.tenant_id =
        db.customerByKey row.tenant_id := funext Db.customerByKey_only
    simp only [exec, Db.find_customer_only hd hid, hkey]
  | rereadCustomer mem => simp only [exec, Db.find_customer_only hd h]
  | updateCustomer mem reread => rfl
  | findBatch tenantId' key =>
    obtain rfl : tenantId' = tenantId := h
    simp only [exec, Db.batchByKey_only]
  | insertBatch row =>
    obtain ⟨hid, rfl⟩ := h
    simp only [exec, Db.find_batch_only hd hid, Db.batchByKey_only]
  | lockTenant id =>
    obtain rfl : id = tenantId := h
    simp only [exec, Db.find_tenant_only]
  | rereadTenant mem =>
    obtain rfl : mem.id = tenantId := h
    simp only [exec, Db.find_tenant_only]
  | updateTenant mem reread => rfl
  | findOpenShift tenantId' id =>
    obtain rfl : tenantId' = tenantId := h
    simp only [exec, Db.openShift_only]
  | insertShift row => simp only [exec, Db.find_shift_only hd h.1]
  | rereadShift mem => simp only [exec, Db.find_shift_only hd h]
  | updateShift mem reread => rfl
  | selectBlocked rule =>
    obtain ⟨cutoff, rfl⟩ := h
    simp only [exec, Db.filter_blocked_only]
  | blockCustomer rule id =>
    obtain ⟨cutoff, rfl⟩ := h
    simp only [exec, Db.find_blocked_only]
  | keyShare rows => rfl
  | _ => exact h.elim

theorem locks_only {o : Sql} (h : o.Scoped own tenantId) :
    o.locks (db.only tenantId) = o.locks db := by
  cases o with
  | moveTransaction tenantId' secondaryId primaryId id =>
    obtain ⟨rfl, -⟩ : tenantId' = tenantId ∧ own primaryId = some tenantId := h
    simp only [locks, Db.transaction_only]
  | freezeTransaction tenantId' openedAt shiftId id =>
    obtain rfl : tenantId' = tenantId := h
    simp only [locks, Db.find_unfrozen_only]
  | lockCustomer tenantId' id =>
    obtain rfl : tenantId' = tenantId := h
    simp only [locks, Db.customer_only]
  | lockTenant id =>
    obtain rfl : id = tenantId := h
    simp only [locks, Db.find_tenant_only]
  | blockCustomer rule id =>
    obtain ⟨cutoff, rfl⟩ := h
    simp only [locks, Db.find_blocked_only]
  | markOverdue | lockSubscription => exact h.elim
  | _ => rfl

theorem mem_lockFound {α : Type} {found : Option α} {name : LockName} {mode : LockMode}
    {l : LockName × LockMode} (h : l ∈ lockFound found name mode) :
    found.isSome ∧ l = (name, mode) := by
  unfold lockFound at h
  split at h
  · rename_i hsome
    exact ⟨hsome, List.mem_singleton.1 h⟩
  · cases h

/-- A statement of a tenant takes locks of the tenant. -/
theorem locks_heldFor {o : Sql} (h : o.Scoped own tenantId) (hd : db.Owned own) :
    ∀ l ∈ o.locks db, LockName.HeldFor own tenantId l := by
  intro l hl
  cases o with
  | insertTransaction row =>
    rcases List.mem_cons.1 hl with rfl | hl
    · exact h.1.id.trans (congrArg some h.2)
    · obtain rfl := List.mem_singleton.1 hl
      exact h.2
  | updateTransaction mem reread =>
    obtain rfl := List.mem_singleton.1 hl
    exact h.1.id.trans (congrArg some h.2)
  | moveTransaction tenantId' secondaryId primaryId id =>
    obtain ⟨rfl, hprimary⟩ : tenantId' = tenantId ∧ own primaryId = some tenantId := h
    simp only [locks] at hl
    split at hl
    · rename_i hsome
      rcases List.mem_cons.1 hl with rfl | hl
      · obtain ⟨t, ht⟩ := Option.isSome_iff_exists.1 hsome
        obtain ⟨hfind, -⟩ := Option.filter_eq_some_iff.1 ht
        obtain ⟨hfind, htenant⟩ := Option.filter_eq_some_iff.1 hfind
        obtain ⟨hmem, hkey⟩ := Table.find_eq_some.1 hfind
        have howned := (hd.transactions t hmem).id
        rw [show t.id = id from hkey, of_decide_eq_true htenant] at howned
        exact howned
      · obtain rfl := List.mem_singleton.1 hl
        exact hprimary
    · cases hl
  | freezeTransaction tenantId' openedAt shiftId id =>
    obtain rfl : tenantId' = tenantId := h
    obtain ⟨hsome, rfl⟩ := mem_lockFound hl
    obtain ⟨t, ht⟩ := Option.isSome_iff_exists.1 hsome
    obtain ⟨hfind, hunfrozen⟩ := Option.filter_eq_some_iff.1 ht
    obtain ⟨hmem, hkey⟩ := Table.find_eq_some.1 hfind
    have howned := (hd.transactions t hmem).id
    rw [show t.id = id from hkey, (of_decide_eq_true hunfrozen).1] at howned
    exact howned
  | lockCustomer tenantId' id =>
    obtain rfl : tenantId' = tenantId := h
    obtain ⟨hsome, rfl⟩ := mem_lockFound hl
    obtain ⟨c, hc⟩ := Option.isSome_iff_exists.1 hsome
    obtain ⟨hfind, htenant⟩ := Option.filter_eq_some_iff.1 hc
    obtain ⟨hmem, hkey⟩ := Table.find_eq_some.1 hfind
    have howned := hd.customers c hmem
    rw [show c.id = id from hkey, of_decide_eq_true htenant] at howned
    exact howned
  | insertCustomer row =>
    rcases List.mem_cons.1 hl with rfl | hl
    · exact h.1
    · obtain ⟨key, -, rfl⟩ := Option.map_eq_some_iff.1 (Option.mem_toList.1 hl)
      exact h.2
  | updateCustomer mem reread =>
    obtain rfl := List.mem_singleton.1 hl
    exact h.1
  | insertBatch row =>
    rcases List.mem_cons.1 hl with rfl | hl
    · exact h.1
    · obtain rfl := List.mem_singleton.1 hl
      exact h.2
  | lockTenant id =>
    obtain ⟨-, rfl⟩ := mem_lockFound hl
    exact h
  | updateTenant mem reread =>
    obtain rfl := List.mem_singleton.1 hl
    exact h
  | insertShift row =>
    obtain rfl := List.mem_singleton.1 hl
    exact h.1
  | updateShift mem reread =>
    obtain rfl := List.mem_singleton.1 hl
    exact h.1
  | blockCustomer rule id =>
    obtain ⟨cutoff, rfl⟩ := h
    obtain ⟨hsome, rfl⟩ := mem_lockFound hl
    obtain ⟨c, hc⟩ := Option.isSome_iff_exists.1 hsome
    obtain ⟨hfind, happlies⟩ := Option.filter_eq_some_iff.1 hc
    obtain ⟨hmem, hkey⟩ := Table.find_eq_some.1 hfind
    have howned := hd.customers c hmem
    rw [show c.id = id from hkey, (of_decide_eq_true happlies).1] at howned
    exact howned
  | keyShare rows =>
    obtain ⟨row, hrow, rfl⟩ := List.mem_map.1 hl
    exact h row hrow
  | markOverdue | lockSubscription | insertBillingEvent => exact h.elim
  | _ => cases hl

end Sql

/-- Locks of two tenants do not conflict. -/
theorem LockName.conflicts_of_heldFor {t t' : Uuid} {l : LockName} {m m' : LockMode} (ht : t ≠ t')
    (h : LockName.HeldFor own t (l, m)) (h' : LockName.HeldFor own t' (l, m')) :
    m.conflicts m' = false := by
  cases l with
  | user id =>
    obtain rfl : m = .keyShare := h
    obtain rfl : m' = .keyShare := h'
    rfl
  | billingEvent | externalPayment => exact h.elim
  | customer | transaction | batch | shift => exact (ht (eq_of_own h h')).elim
  | _ => exact (ht (h.symm.trans h')).elim

end MicroErp.Database
