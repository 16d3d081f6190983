import MicroErp.Commits.Desk
import MicroErp.Commits.Merge
import MicroErp.Concurrency.Single

/-!
# Steps of a request that runs alone

What the steps of the services do to a database of their own.
-/

namespace MicroErp.Commits

open MicroErp.Concurrency MicroErp.Database MicroErp.Services MicroErp.Storage

/-- The columns of a money operation are in range, or it fails. -/
def outOfRange : ServiceError := .queryFailed .numericValueOutOfRange

variable {v : Db}

/-- The row of a customer replaced. -/
def putCustomer (c : Customer) (v : Db) : Db :=
  { v with customers := v.customers.modify c.id fun _ ↦ c }

/-- The row of a tenant replaced. -/
def putTenant (mem : Tenant) (v : Db) : Db :=
  { v with tenants := v.tenants.modify mem.id fun _ ↦ mem }

/-- The row of a transaction replaced. -/
def setTransaction (mem : Transaction) (v : Db) : Db :=
  { v with transactions := v.transactions.modify mem.id fun _ ↦ mem }

/-- A transaction recorded. -/
def putTransaction (row : Transaction) (v : Db) : Db :=
  { v with transactions := v.transactions.insert row }

@[simp] theorem transactions_putCustomer (c : Customer) (v : Db) :
    (putCustomer c v).transactions = v.transactions := rfl

@[simp] theorem customers_putTransaction (row : Transaction) (v : Db) :
    (putTransaction row v).customers = v.customers := rfl

theorem find_putCustomer {c₀ : Customer} (c : Customer) (h : v.customers.find c.id = some c₀) :
    (putCustomer c v).customers.find c.id = some c := by
  have hkey : Keyed.key c = Keyed.key c₀ := (Table.find_key h).symm
  rw [putCustomer, Table.find_modify, h, Option.map_some, if_pos rfl, Table.amend, if_pos hkey]

theorem find_putCustomer_of_ne {id : Uuid} (c : Customer) (v : Db) (h : id ≠ c.id) :
    (putCustomer c v).customers.find id = v.customers.find id := Table.find_modify_of_ne h

theorem find_of_customer {tenantId id : Uuid} {c : Customer} (hc : v.customer tenantId id = some c) :
    v.customers.find c.id = some c ∧ c.id = id ∧ c.tenant_id = tenantId := by
  obtain ⟨hfind, htenant⟩ := Option.filter_eq_some_iff.1 hc
  have hid : c.id = id := Table.find_key hfind
  exact ⟨by rwa [hid], hid, of_decide_eq_true htenant⟩

theorem eval_query (o : Sql) (v : Db) :
    postgres.eval (query o) v = (o.exec v).map fun x ↦ (x.1, postgres.view x.2 v) := by
  rw [query, Prog.issue, Engine.eval, postgres_exec]
  cases o.exec v <;> rfl

theorem eval_findByIdempotencyKey (tenantId key : Uuid) (v : Db) :
    postgres.eval (findByIdempotencyKey tenantId key) v = .ok (v.transactionByKey tenantId key, v) := by
  rw [findByIdempotencyKey, eval_query]
  rfl

theorem eval_lockCustomer (tenantId id : Uuid) (v : Db) :
    postgres.eval (lockCustomer tenantId id) v = match v.customer tenantId id with
      | none => .error (.notFound "Cliente no encontrado")
      | some c => .ok (c, v) := by
  rw [lockCustomer, Engine.eval_bind, eval_query]
  simp only [Sql.exec, Except.map]
  cases v.customer tenantId id <;> rfl

theorem eval_insertTransaction (row : Transaction) (v : Db) :
    postgres.eval (insertTransaction row) v =
      if (v.transactions.find row.id).isSome ∨
          (v.transactionByKey row.tenant_id row.idempotency_key).isSome then
        .error (.queryFailed .uniqueViolation)
      else if Int4 row.amount_cents then
        .ok ((), putTransaction row v)
      else .error outOfRange := by
  rw [insertTransaction, Engine.eval_bind, eval_query]
  simp only [Sql.exec, Sql.writing]
  split
  · rfl
  · split <;> rfl

/-- The save of a customer whose row is still what it was when it was read. -/
theorem eval_saveCustomer {c : Customer} (mem : Customer) (v : Db)
    (hc : v.customers.find mem.id = some c) :
    postgres.eval (saveCustomer mem) v =
      if mem = c ∨ Int4 mem.balance_cents ∧ Int4 mem.credit_limit_cents then
        .ok ((), putCustomer mem v)
      else .error outOfRange := by
  have hid : mem.id = c.id := (Table.find_key hc).symm
  rw [saveCustomer, saveEntity, Engine.eval_bind, eval_query]
  simp only [Sql.exec, Except.map, hc]
  change postgres.eval (if mem = c then Prog.ret () else query (.updateCustomer mem c)) v = _
  by_cases heq : mem = c
  · subst heq
    rw [if_pos rfl, if_pos (Or.inl rfl), putCustomer, Table.modify_self hc]
    rfl
  · rw [if_neg heq, eval_query]
    simp only [Sql.exec, Sql.writing, heq, false_or]
    split
    · simp only [Except.map, Engine.view_cons, Engine.view_nil, postgres_write, Write.apply]
      rw [putCustomer, Table.modify_congr hc (g := fun _ ↦ mem) (Customer.saved_self hid)]
    · rfl

theorem eval_saveTenant {t : Tenant} (mem : Tenant) (v : Db) (ht : v.tenants.find mem.id = some t) :
    postgres.eval (saveTenant mem) v = .ok ((), putTenant mem v) := by
  have hid : mem.id = t.id := (Table.find_key ht).symm
  rw [saveTenant, saveEntity, Engine.eval_bind, eval_query]
  simp only [Sql.exec, Except.map, ht]
  change postgres.eval (if mem = t then Prog.ret () else query (.updateTenant mem t)) v = _
  by_cases heq : mem = t
  · subst heq
    rw [if_pos rfl, putTenant, Table.modify_self ht]
    rfl
  · rw [if_neg heq, eval_query]
    simp only [Sql.exec, Except.map, Engine.view_cons, Engine.view_nil, postgres_write, Write.apply]
    rw [putTenant, Table.modify_congr ht (g := fun _ ↦ mem) (Tenant.saved_latest hid)]

theorem find_putTenant {t : Tenant} (mem : Tenant) (h : v.tenants.find mem.id = some t) :
    (putTenant mem v).tenants.find mem.id = some mem := by
  have hkey : Keyed.key mem = Keyed.key t := (Table.find_key h).symm
  rw [putTenant, Table.find_modify, h, Option.map_some, if_pos rfl, Table.amend, if_pos hkey]

theorem rows_putTenant (mem : Tenant) (v : Db) :
    (putTenant mem v).tenants.rows = v.tenants.rows.map fun t ↦ if t.id = mem.id then mem else t := by
  refine List.map_congr_left fun t _ ↦ ?_
  simp only [Tenant.key_eq, Table.amend]
  by_cases hid : t.id = mem.id
  · rw [if_pos hid, if_pos hid.symm, if_pos hid]
  · rw [if_neg hid, if_neg hid]

theorem Transaction.saved_latest {mem t : Transaction} (h : mem.id = t.id) :
    Transaction.saved mem t t = mem := by
  unfold Transaction.saved
  simp only [savedColumn_latest, ← h]

theorem rows_setTransaction (mem : Transaction) (v : Db) :
    (setTransaction mem v).transactions.rows =
      v.transactions.rows.map fun t ↦ if t.id = mem.id then mem else t := by
  refine List.map_congr_left fun t _ ↦ ?_
  simp only [Transaction.key_eq, Table.amend]
  by_cases hid : t.id = mem.id
  · rw [if_pos hid, if_pos hid.symm, if_pos hid]
  · rw [if_neg hid, if_neg hid]

theorem of_eval_insertTransaction {α : Type} {row : Transaction} {f : Unit → Script α} {x : α × Db}
    (h : postgres.eval (insertTransaction row >>= f) v = .ok x) :
    (v.transactions.find row.id = none ∧
        v.transactionByKey row.tenant_id row.idempotency_key = none ∧ Int4 row.amount_cents) ∧
      postgres.eval (f ()) (putTransaction row v) = .ok x := by
  rw [Engine.eval_bind, eval_insertTransaction] at h
  split at h
  · cases h
  rename_i hfree
  simp only [not_or, Option.not_isSome_iff_eq_none] at hfree
  split at h
  · rename_i hint
    exact ⟨⟨hfree.1, hfree.2, hint⟩, h⟩
  · cases h

theorem of_eval_saveCustomer {α : Type} {c mem : Customer} {f : Unit → Script α} {x : α × Db}
    (h : postgres.eval (saveCustomer mem >>= f) v = .ok x)
    (hc : v.customers.find mem.id = some c) :
    (mem = c ∨ Int4 mem.balance_cents ∧ Int4 mem.credit_limit_cents) ∧
      postgres.eval (f ()) (putCustomer mem v) = .ok x := by
  rw [Engine.eval_bind, eval_saveCustomer mem v hc] at h
  split at h
  · rename_i hfits
    exact ⟨hfits, h⟩
  · cases h

theorem of_eval_saveTransaction {α : Type} (mem : Transaction) {t : Transaction}
    {f : Unit → Script α} {x : α × Db}
    (h : postgres.eval (saveTransaction mem >>= f) v = .ok x)
    (ht : v.transactions.find mem.id = some t) :
    postgres.eval (f ()) (setTransaction mem v) = .ok x := by
  have hid : mem.id = t.id := (Table.find_key ht).symm
  rw [saveTransaction, saveEntity, Engine.eval_bind, Engine.eval_bind, eval_query] at h
  simp only [Sql.exec, Except.map, ok_bind, Engine.view_nil, ht] at h
  change (postgres.eval (if mem = t then Prog.ret () else query (.updateTransaction mem t)) v >>=
    fun x ↦ postgres.eval (f x.1) x.2) = _ at h
  split at h
  · rename_i heq
    subst heq
    rwa [setTransaction, Table.modify_self ht]
  · rw [eval_query] at h
    simp only [Sql.exec, Sql.writing] at h
    split at h
    · rw [setTransaction, Table.modify_congr ht (g := fun r ↦ Transaction.saved mem t r)
        (Transaction.saved_latest hid).symm]
      exact h
    · cases h

theorem of_eval_insertBatch {α : Type} {row : IdempotentBatchOperation} {f : Unit → Script α}
    {x : α × Db} (h : postgres.eval (query (.insertBatch row) >>= f) v = .ok x) :
    (v.batches.find row.id = none ∧ v.batchByKey row.tenant_id row.idempotency_key = none ∧
        Int4 row.affected_customers) ∧
      postgres.eval (f ()) { v with batches := v.batches.insert row } = .ok x := by
  rw [Engine.eval_bind, eval_query] at h
  simp only [Sql.exec, Sql.writing] at h
  split at h
  · cases h
  rename_i hfree
  simp only [not_or, Option.not_isSome_iff_eq_none] at hfree
  split at h
  · rename_i hint
    exact ⟨⟨hfree.1, hfree.2, hint⟩, h⟩
  · cases h

/-! ## Steps that do not commit -/

theorem silent_query (o : Sql) : (query o).Silent := fun _ ↦ trivial

theorem silent_lockCustomer (tenantId id : Uuid) : (lockCustomer tenantId id).Silent :=
  (silent_query _).bind_silent fun row ↦ by cases row <;> trivial

theorem silent_insertTransaction (row : Transaction) : (insertTransaction row).Silent :=
  (silent_query _).bind_silent fun _ ↦ silent_query _

theorem silent_saveEntity {E : Type} [DecidableEq E] {entity : E} {find : Script (Option E)}
    {update : E → Script Unit} (hfind : find.Silent) (hupdate : ∀ row, (update row).Silent) :
    (saveEntity entity find update).Silent := by
  refine hfind.bind_silent fun row ↦ ?_
  cases row with
  | none => trivial
  | some reread =>
    change (if entity = reread then Prog.ret () else update reread).Silent
    split
    · trivial
    · exact hupdate reread

theorem silent_saveCustomer (c : Customer) : (saveCustomer c).Silent :=
  silent_saveEntity (silent_query _) fun _ ↦ silent_query _

theorem silent_moveTransactions (tenantId secondaryId primaryId : Uuid) (ids : List Uuid) :
    (moveTransactions tenantId secondaryId primaryId ids).Silent := by
  induction ids with
  | nil => trivial
  | cons id ids ih => exact (silent_query _).bind_silent fun _ ↦ ih

theorem silent_lockMerged (tenantId : Uuid) (dto : MergeCustomersDto) (id : UuidText) :
    (lockMerged tenantId dto id).Silent :=
  (silent_query _).bind_silent fun row ↦ by cases row <;> trivial

/-- A row posted and a customer saved. -/
theorem transactional_saving {α : Type} {row : Transaction} {c : Customer} {p : Script α}
    (hp : p.Transactional postgres) :
    (insertTransaction row >>= fun _ ↦ saveCustomer c >>= fun _ ↦ p).Transactional postgres :=
  Prog.Silent.bind_transactional (silent_insertTransaction row) fun _ ↦
    Prog.Silent.bind_transactional (silent_saveCustomer c) fun _ ↦ hp

theorem transactional_debt (env : Env) (tenantId userId : Uuid) (dto : CreateTransactionDto) :
    (registerDebt env tenantId userId dto).Transactional postgres := by
  refine Prog.Silent.bind_transactional (silent_query _) fun found ↦ ?_
  cases found with
  | some existing => trivial
  | none =>
    refine Prog.Silent.bind_transactional (silent_lockCustomer _ _) fun c ↦ ?_
    simp only
    split
    · trivial
    split
    · trivial
    exact transactional_saving trivial

theorem transactional_payment (env : Env) (tenantId userId : Uuid) (dto : CreatePaymentDto) :
    (registerPayment env tenantId userId dto).Transactional postgres := by
  refine Prog.Silent.bind_transactional (silent_query _) fun found ↦ ?_
  cases found with
  | some existing => trivial
  | none =>
    refine Prog.Silent.bind_transactional (silent_lockCustomer _ _) fun c ↦ ?_
    simp only
    split
    · trivial
    exact transactional_saving trivial

theorem transactional_reversal (env : Env) (tenantId userId transactionId : Uuid)
    (dto : ReverseTransactionDto) :
    (reverseTransaction env tenantId userId transactionId dto).Transactional postgres := by
  refine Prog.Silent.bind_transactional (silent_query _) fun found ↦ ?_
  cases found with
  | some existing => trivial
  | none =>
    refine Prog.Silent.bind_transactional (silent_query _) fun original ↦ ?_
    cases original with
    | none => trivial
    | some original =>
      simp only
      split
      · trivial
      refine Prog.Silent.bind_transactional (silent_lockCustomer _ _) fun c ↦ ?_
      refine transactional_saving (Prog.Silent.bind_transactional ?_ fun _ ↦ trivial)
      exact silent_saveEntity (silent_query _) fun _ ↦ silent_query _

theorem transactional_forgiveness (env : Env) (tenantId userId : Uuid) (dto : ForgiveDebtDto) :
    (forgiveDebt env tenantId userId dto).Transactional postgres := by
  refine Prog.Silent.bind_transactional (silent_query _) fun found ↦ ?_
  cases found with
  | some existing => trivial
  | none =>
    refine Prog.Silent.bind_transactional (silent_lockCustomer _ _) fun c ↦ ?_
    split
    · trivial
    exact transactional_saving trivial

/-! ## The bulk update of a merge -/

theorem eval_moveTransactions (tenantId secondaryId primaryId : Uuid) (ids : List Uuid) :
    ∀ (v : Db), ∃ table : Table Transaction,
      postgres.eval (moveTransactions tenantId secondaryId primaryId ids) v =
          .ok ((), { v with transactions := table }) ∧
        table.rows = v.transactions.rows.map fun t ↦
          if t.id ∈ ids ∧ Carries tenantId secondaryId t then carriedBy primaryId t else t := by
  induction ids with
  | nil =>
    intro v
    exact ⟨v.transactions, rfl, by simp⟩
  | cons id ids ih =>
    intro v
    have hstep : ∃ table : Table Transaction,
        postgres.eval (query (.moveTransaction tenantId secondaryId primaryId id)) v =
            .ok ((), { v with transactions := table }) ∧
          table.rows = v.transactions.rows.map fun t ↦
            if t.id = id ∧ Carries tenantId secondaryId t then carriedBy primaryId t else t := by
      rw [eval_query]
      simp only [Sql.exec, found_carried]
      split
      · rename_i hfound
        obtain ⟨t₀, ht₀⟩ := Option.isSome_iff_exists.1 hfound
        obtain ⟨hfind, hcarries⟩ := Option.filter_eq_some_iff.1 ht₀
        refine ⟨v.transactions.modify id (carriedBy primaryId), rfl, ?_⟩
        rw [Table.rows_modify]
        apply List.map_congr_left
        intro t ht
        simp only [Transaction.key_eq]
        by_cases hid : t.id = id
        · obtain rfl := Table.eq_of_find hfind ht hid
          rw [if_pos hid, if_pos ⟨hid, of_decide_eq_true hcarries⟩]
          exact if_pos rfl
        · rw [if_neg hid, if_neg fun h ↦ hid h.1]
      · rename_i hnone
        refine ⟨v.transactions, rfl, ?_⟩
        refine ((List.map_congr_left fun t ht ↦ if_neg fun h ↦ hnone ?_).trans (List.map_id _)).symm
        rw [Table.find_eq_some.2 ⟨ht, h.1⟩]
        simp [Option.filter, h.2]
    obtain ⟨table₁, hrun₁, hrows₁⟩ := hstep
    obtain ⟨table₂, hrun₂, hrows₂⟩ := ih { v with transactions := table₁ }
    refine ⟨table₂, ?_, ?_⟩
    · rw [moveTransactions, Engine.eval_bind, hrun₁]
      exact hrun₂
    · rw [hrows₂, hrows₁, List.map_map]
      apply List.map_congr_left
      intro t _
      simp only [Function.comp_apply, List.mem_cons]
      by_cases hcarries : Carries tenantId secondaryId t
      · by_cases hid : t.id = id
        · have hmoved : (if t.id = id ∧ Carries tenantId secondaryId t then carriedBy primaryId t
              else t) = carriedBy primaryId t := if_pos ⟨hid, hcarries⟩
          rw [hmoved]
          refine Eq.trans ?_ (if_pos ⟨Or.inl hid, hcarries⟩).symm
          split <;> rfl
        · have hkept : (if t.id = id ∧ Carries tenantId secondaryId t then carriedBy primaryId t
              else t) = t := if_neg fun h ↦ hid h.1
          rw [hkept]
          simp only [hid, false_or]
      · have hkept : (if t.id = id ∧ Carries tenantId secondaryId t then carriedBy primaryId t
            else t) = t := if_neg fun h ↦ hcarries h.2
        rw [hkept, if_neg fun h ↦ hcarries h.2, if_neg fun h ↦ hcarries h.2]

end MicroErp.Commits
