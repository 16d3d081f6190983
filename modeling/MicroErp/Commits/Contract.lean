import MicroErp.Commits.Effect

/-!
# The contract of a request

What a session may rely on while the others commit, and what it guarantees of its own commits.
-/

namespace MicroErp.Database

open MicroErp.Storage

/-- The columns of a customer that no operation changes. -/
def Customer.fixed (c : Customer) : Uuid × Uuid × Option Uuid :=
  (c.id, c.tenant_id, c.idempotency_key)

namespace Db

/-- The immutable columns of the transactions, in the order of their commits. -/
def cores (d : Db) : List Transaction.Core := d.transactions.rows.map (·.toCore)

def groupCores (d : Db) (groupId : Uuid) : List Transaction.Core :=
  d.cores.filter fun r ↦ r.reference_group_id = some groupId

/-- The transactions that carry a customer. -/
def carrying (d : Db) (customerId : Uuid) : List Transaction :=
  d.transactions.rows.filter fun t ↦ t.customer_id = customerId

/-- Keys are unique, and the rows of a group are one in cash and one by transfer. -/
structure WellFormed (d : Db) : Prop where
  keys : (d.cores.map fun r ↦ (r.tenant_id, r.idempotency_key)).Nodup
  batchKeys : (d.batches.rows.map fun b ↦ (b.tenant_id, b.idempotency_key)).Nodup
  groups : ∀ r ∈ d.cores, ∀ g, r.reference_group_id = some g →
    ∃ cash transfer, d.groupCores g = [cash, transfer] ∧
      cash.payment_method = some .CASH ∧ transfer.payment_method = some .TRANSFER

end Db

end MicroErp.Database

namespace MicroErp.Commits

open MicroErp.Concurrency MicroErp.Database MicroErp.Services

variable (S : Setting) (req : Request) (env : Env)

/-! ## Rely -/

/-- What the operations that lock customers leave to each other. -/
structure Quiet (lk : List (LockName × LockMode)) (d d' : Db) : Prop where
  customers : d'.customers.rows.map Customer.fixed = d.customers.rows.map Customer.fixed
  carried : ∀ id, (.customer id, .update) ∈ lk → d'.carrying id = d.carrying id
  shifts : ∀ t ∈ d.transactions.rows, ∃ t' ∈ d'.transactions.rows,
    t'.toCore = t.toCore ∧ t'.cash_register_log_id = t.cash_register_log_id
  keyUnused : (∀ who, S.copiesOn = some who → (.customer who, .update) ∈ lk) →
    req.KeyUnused d → req.KeyUnused d'
  copies : S.copiesOn.isSome → req.KeyUnused d' → d' = d

structure Rely (lk : List (LockName × LockMode)) (d d' : Db) : Prop where
  cores : d.cores <+: d'.cores
  customers : d.customers.rows.map Customer.fixed <+: d'.customers.rows.map Customer.fixed
  batches : d.batches.rows <+: d'.batches.rows
  transaction : ∀ id m, (.transaction id, m) ∈ lk → m ≠ .keyShare →
    d'.transactions.find id = d.transactions.find id
  customer : ∀ id m, (.customer id, m) ∈ lk → m ≠ .keyShare →
    d'.customers.find id = d.customers.find id
  batch : ∀ id m, (.batch id, m) ∈ lk → m ≠ .keyShare → d'.batches.find id = d.batches.find id
  transactionKey : ∀ tenantId key, (.transactionKey tenantId key, .update) ∈ lk →
    d.transactionByKey tenantId key = none → d'.transactionByKey tenantId key = none
  batchKey : ∀ tenantId key, (.batchKey tenantId key, .update) ∈ lk →
    d.batchByKey tenantId key = none → d'.batchByKey tenantId key = none
  customerKey : ∀ tenantId key, (.customerKey tenantId key, .update) ∈ lk →
    d.customerByKey tenantId key = none → d'.customerByKey tenantId key = none
  groups : S.fresh → ∀ g, d.groupCores g ≠ [] → d'.groupCores g = d.groupCores g
  unused : S.fresh → env.Unused d → env.Unused d'
  wellFormed : S.fresh → d.WellFormed → d'.WellFormed
  exclusive : S.exclusive → d' = d
  reversed : ∀ t ∈ d.transactions.rows, t.is_reversed = true →
    ∃ t' ∈ d'.transactions.rows, t'.toCore = t.toCore ∧ t'.is_reversed = true
  checked : S.checked → ∀ t ∈ d.transactions.rows, (.customer t.customer_id, .update) ∈ lk →
    ∃ t' ∈ d'.transactions.rows, t'.toCore = t.toCore ∧ t'.customer_id = t.customer_id ∧
      t'.is_reversed = t.is_reversed
  quiet : S.quiet → Quiet S req lk d d'

/-! ## Guarantee -/

/-- Rows that can be appended without meeting a row in a unique index. -/
structure Vacant (d : Db) (rows : List Transaction) : Prop where
  ids : (rows.map (·.id)).Nodup
  id_free : ∀ r ∈ rows, d.transactions.find r.id = none
  keys : (rows.map fun r ↦ (r.tenant_id, r.idempotency_key)).Nodup
  key_free : ∀ r ∈ rows, d.transactionByKey r.tenant_id r.idempotency_key = none

/-- The slots of the rows are held. -/
def Slots (lk : List (LockName × LockMode)) (rows : List Transaction) : Prop :=
  ∀ r ∈ rows, (.transaction r.id, .update) ∈ lk ∧
    (.transactionKey r.tenant_id r.idempotency_key, .update) ∈ lk

structure Commit (lk : List (LockName × LockMode)) (d d' : Db) (e : Effect) : Prop where
  yields : e.Yields d d'
  vacant : Vacant d e.rows
  slots : Slots lk e.rows
  batchKey : ∀ b ∈ e.batches, (.batchKey b.tenant_id b.idempotency_key, .update) ∈ lk ∧
    d.batchByKey b.tenant_id b.idempotency_key = none
  customerKey : ∀ c ∈ e.customers, ∀ key ∈ c.idempotency_key,
    (.customerKey c.tenant_id key, .update) ∈ lk ∧ d.customerByKey c.tenant_id key = none
  pinned : S.quiet → ∀ who, S.copiesOn = some who → (.customer who, .update) ∈ lk
  unused : S.fresh → env.Unused d
  changes : Changes S env lk d req e

/-! ## Answers -/

/-- The row is in the ledger under the key of the request. -/
def Recorded (t : Transaction) (d : Db) : Prop :=
  t.toCore ∈ d.cores ∧ req.transactionKey = some (t.tenant_id, t.idempotency_key)

/-- `legOf` on the immutable columns. -/
def legCore (group : List Transaction.Core) (method : PaymentMethod)
    (existing : Transaction.Core) : Transaction.Core :=
  (group.find? fun r ↦ r.payment_method = some method).getD existing

/-- The immutable columns of the two rows that a mixed payment with this key answers. -/
def mixedCores (d : Db) (tenantId key : Uuid) : Option (Transaction.Core × Transaction.Core) :=
  (d.cores.find? fun r ↦ r.tenant_id = tenantId ∧ r.idempotency_key = key).map fun existing ↦
    let group := match existing.reference_group_id with
      | some groupId => d.groupCores groupId
      | none => [existing]
    (legCore group .CASH existing, legCore group .TRANSFER existing)

/-- The row is what the endpoint promises. -/
def Fulfils (t : Transaction) : Request → Prop
  | .registerDebt _ _ dto => t.type = .DEBT ∧ t.customer_id = dto.customer_id
  | .registerPayment _ _ dto => t.type = .PAYMENT ∧ t.customer_id = dto.customer_id
  | .reverseTransaction _ _ transactionId _ =>
      t.type = .REVERSAL ∧ t.reversed_transaction_id = some transactionId
  | .forgiveDebt _ _ dto => t.type = .FORGIVENESS ∧ t.customer_id = dto.customer_id
  | _ => False

/-- The two rows are what the mixed payment promises. -/
def FulfilsMixed (rows : MixedPayment) : Request → Prop
  | .registerMixedPayment _ _ dto =>
      rows.cash.id ≠ rows.transfer.id ∧
        (rows.cash.type = .PAYMENT ∧ rows.transfer.type = .PAYMENT) ∧
        (rows.cash.customer_id = dto.customer_id ∧ rows.transfer.customer_id = dto.customer_id) ∧
        (rows.cash.payment_method = some .CASH ∧
          rows.transfer.payment_method = some .TRANSFER) ∧
        ∃ g, rows.cash.reference_group_id = some g ∧ rows.transfer.reference_group_id = some g
  | _ => False

/-- What the answer of the request says about the database. -/
def Answered : Answer → Db → Prop
  | .transaction t, d => Recorded req t d ∧ (S.keyUnused env → Fulfils t req)
  | .mixed rows, d => S.fresh → (∃ slot ∈ req.transactionKey,
      mixedCores d slot.1 slot.2 = some (rows.cash.toCore, rows.transfer.toCore)) ∧
      (S.keyUnused env → FulfilsMixed rows req)
  | .inflation result, d => ∃ b ∈ d.batches.rows,
      req.batchKey = some (b.tenant_id, b.idempotency_key) ∧
        result = ⟨b.affected_customers, b.total_adjustment_cents⟩
  | _, _ => req.transactionKey = none

def contract : Contract Sql Db Write LockName Answer where
  rely := Rely S req env
  allow := S.allow req env
  guar lk ws d := (ws = [] ∧ req.MayIdle) ∨ ∃ e, Commit S req env lk d (postgres.view ws d) e
  post := Answered S req env
  tracked := S.quiet

/-! ## The rely is a preorder that more locks strengthen -/

variable {S req env} {lk lk' : List (LockName × LockMode)} {d d' d'' : Db}

theorem Rely.refl : Rely S req env lk d d where
  cores := List.prefix_rfl
  customers := List.prefix_rfl
  batches := List.prefix_rfl
  transaction _ _ _ _ := rfl
  customer _ _ _ _ := rfl
  batch _ _ _ _ := rfl
  transactionKey _ _ _ h := h
  batchKey _ _ _ h := h
  customerKey _ _ _ h := h
  groups _ _ _ := rfl
  unused _ h := h
  wellFormed _ h := h
  exclusive _ := rfl
  reversed t ht hreversed := ⟨t, ht, rfl, hreversed⟩
  checked _ t ht _ := ⟨t, ht, rfl, rfl, rfl⟩
  quiet _ := ⟨rfl, fun _ _ ↦ rfl, fun t ht ↦ ⟨t, ht, rfl, rfl⟩, fun _ h ↦ h, fun _ _ ↦ rfl⟩

theorem Quiet.trans (h : Quiet S req lk d d') (h' : Quiet S req lk d' d'') :
    Quiet S req lk d d'' where
  customers := h'.customers.trans h.customers
  carried id hid := (h'.carried id hid).trans (h.carried id hid)
  shifts t ht := by
    obtain ⟨t', ht', hcore, hshift⟩ := h.shifts t ht
    obtain ⟨t'', ht'', hcore', hshift'⟩ := h'.shifts t' ht'
    exact ⟨t'', ht'', hcore'.trans hcore, hshift'.trans hshift⟩
  keyUnused hpinned hd := h'.keyUnused hpinned (h.keyUnused hpinned hd)
  copies hS hd := by
    obtain rfl := h'.copies hS hd
    exact h.copies hS hd

theorem Rely.trans (h : Rely S req env lk d d') (h' : Rely S req env lk d' d'') :
    Rely S req env lk d d'' where
  cores := h.cores.trans h'.cores
  customers := h.customers.trans h'.customers
  batches := h.batches.trans h'.batches
  transaction id m hl hm := (h'.transaction id m hl hm).trans (h.transaction id m hl hm)
  customer id m hl hm := (h'.customer id m hl hm).trans (h.customer id m hl hm)
  batch id m hl hm := (h'.batch id m hl hm).trans (h.batch id m hl hm)
  transactionKey tenantId key hl hd :=
    h'.transactionKey tenantId key hl (h.transactionKey tenantId key hl hd)
  batchKey tenantId key hl hd := h'.batchKey tenantId key hl (h.batchKey tenantId key hl hd)
  customerKey tenantId key hl hd :=
    h'.customerKey tenantId key hl (h.customerKey tenantId key hl hd)
  groups hS g hg := by
    have hd' := h.groups hS g hg
    rw [h'.groups hS g (hd' ▸ hg), hd']
  unused hS hd := h'.unused hS (h.unused hS hd)
  wellFormed hS hd := h'.wellFormed hS (h.wellFormed hS hd)
  exclusive hS := (h'.exclusive hS).trans (h.exclusive hS)
  reversed t ht hreversed := by
    obtain ⟨t', ht', hcore, hreversed'⟩ := h.reversed t ht hreversed
    obtain ⟨t'', ht'', hcore', hreversed''⟩ := h'.reversed t' ht' hreversed'
    exact ⟨t'', ht'', hcore'.trans hcore, hreversed''⟩
  checked hS t ht hl := by
    obtain ⟨t', ht', hcore, hcustomer, hreversed⟩ := h.checked hS t ht hl
    obtain ⟨t'', ht'', hcore', hcustomer', hreversed'⟩ := h'.checked hS t' ht' (hcustomer ▸ hl)
    exact ⟨t'', ht'', hcore'.trans hcore, hcustomer'.trans hcustomer, hreversed'.trans hreversed⟩
  quiet hS := (h.quiet hS).trans (h'.quiet hS)

theorem Rely.mono (hlk : lk ⊆ lk') (h : Rely S req env lk' d d') : Rely S req env lk d d' where
  cores := h.cores
  customers := h.customers
  batches := h.batches
  transaction id m hl := h.transaction id m (hlk hl)
  customer id m hl := h.customer id m (hlk hl)
  batch id m hl := h.batch id m (hlk hl)
  transactionKey tenantId key hl := h.transactionKey tenantId key (hlk hl)
  batchKey tenantId key hl := h.batchKey tenantId key (hlk hl)
  customerKey tenantId key hl := h.customerKey tenantId key (hlk hl)
  groups := h.groups
  unused := h.unused
  wellFormed := h.wellFormed
  exclusive := h.exclusive
  reversed := h.reversed
  checked hS t ht hl := h.checked hS t ht (hlk hl)
  quiet hS :=
    { (h.quiet hS) with
      carried := fun id hid ↦ (h.quiet hS).carried id (hlk hid)
      keyUnused := fun hpinned ↦ (h.quiet hS).keyUnused fun who hwho ↦ hlk (hpinned who hwho) }

end MicroErp.Commits
