import MicroErp.Concurrency.RelyGuarantee
import MicroErp.Database.Sql

/-!
# What writes leave alone

Each write changes rows under locks that its statement took.  So the writes of one session leave
every row alone that another session has locked.
-/

namespace MicroErp.Database

open MicroErp.Concurrency MicroErp.Storage

/-- The locks under which a write is made. -/
def Write.locks : Write → List (LockName × LockMode)
  | insertTransaction row =>
      [(.transaction row.id, .update), (.transactionKey row.tenant_id row.idempotency_key, .update)]
  | insertCustomer row =>
      (.customer row.id, .update) ::
        (row.idempotency_key.map fun key ↦ (.customerKey row.tenant_id key, .update)).toList
  | insertBatch row =>
      [(.batch row.id, .update), (.batchKey row.tenant_id row.idempotency_key, .update)]
  | insertShift row => [(.shift row.id, .update)]
  | insertBillingEvent row =>
      [(.billingEvent row.id, .update), (.externalPayment row.external_payment_id, .update)]
  | updateTransaction mem _ => [(.transaction mem.id, .noKeyUpdate)]
  | updateCustomer mem _ => [(.customer mem.id, .noKeyUpdate)]
  | updateTenant mem _ => [(.tenant mem.id, .noKeyUpdate)]
  | updateShift mem _ => [(.shift mem.id, .noKeyUpdate)]
  | moveTransaction id _ => [(.transaction id, .noKeyUpdate)]
  | freezeTransaction id _ => [(.transaction id, .noKeyUpdate)]
  | markOverdue id => [(.customer id, .noKeyUpdate)]
  | blockCustomer id => [(.customer id, .noKeyUpdate)]

theorem Sql.writing_eq_ok {ok : Prop} [Decidable ok] {error : QueryFailedError} {w : Write}
    {r : Unit} {ws : List Write} (h : Sql.writing ok error w = .ok (r, ws)) : ok ∧ ws = [w] := by
  unfold Sql.writing at h
  split at h
  · rename_i hok
    cases h
    exact ⟨hok, rfl⟩
  · cases h

/-- The write of a statement, if it makes one. -/
def Sql.write : Sql → Option Write
  | insertTransaction row => some (.insertTransaction row)
  | insertCustomer row => some (.insertCustomer row)
  | insertBatch row => some (.insertBatch row)
  | insertShift row => some (.insertShift row)
  | insertBillingEvent row => some (.insertBillingEvent row)
  | updateTransaction mem reread => some (.updateTransaction mem reread)
  | updateCustomer mem reread => some (.updateCustomer mem reread)
  | updateTenant mem reread => some (.updateTenant mem reread)
  | updateShift mem reread => some (.updateShift mem reread)
  | moveTransaction _ _ primaryId id => some (.moveTransaction id primaryId)
  | freezeTransaction _ _ shiftId id => some (.freezeTransaction id shiftId)
  | markOverdue id => some (.markOverdue id)
  | blockCustomer _ id => some (.blockCustomer id)
  | _ => none

theorem Sql.write_of_exec {o : Sql} {v : Db} {r : o.Ans} {ws : List Write}
    (h : o.exec v = .ok (r, ws)) : ∀ w ∈ ws, o.write = some w := by
  cases o with
  | insertTransaction row | insertCustomer row | insertBatch row | insertShift row
  | insertBillingEvent row =>
    simp only [exec] at h
    split at h
    · cases h
    · obtain ⟨-, rfl⟩ := writing_eq_ok h
      simp [write]
  | updateTransaction mem reread | updateCustomer mem reread | updateShift mem reread =>
    obtain ⟨-, rfl⟩ := writing_eq_ok h
    simp [write]
  | updateTenant mem reread =>
    cases h
    simp [write]
  | moveTransaction | freezeTransaction =>
    simp only [exec] at h
    split at h <;> cases h <;> simp [write]
  | markOverdue | blockCustomer =>
    simp only [exec] at h
    cases h
    split <;> simp [write]
  | sumCash tenantId openedAt =>
    simp only [exec] at h
    split at h
    · cases h
      simp
    · cases h
  | findAutoBlockTenants =>
    simp only [exec] at h
    split at h
    · cases h
    · cases h
      simp
  | _ =>
    cases h
    simp

/-- A statement takes the locks of what it writes. -/
theorem Sql.locks_of_exec {o : Sql} {v : Db} {r : o.Ans} {ws : List Write}
    (h : o.exec v = .ok (r, ws)) : ∀ w ∈ ws, w.locks ⊆ o.locks v := by
  cases o with
  | insertTransaction row =>
    simp only [exec] at h
    split at h
    · cases h
    · obtain ⟨-, rfl⟩ := writing_eq_ok h
      simp [Write.locks, locks]
  | insertCustomer row =>
    simp only [exec] at h
    split at h
    · cases h
    · obtain ⟨-, rfl⟩ := writing_eq_ok h
      simp [Write.locks, locks]
  | insertBatch row =>
    simp only [exec] at h
    split at h
    · cases h
    · obtain ⟨-, rfl⟩ := writing_eq_ok h
      simp [Write.locks, locks]
  | insertShift row =>
    simp only [exec] at h
    split at h
    · cases h
    · obtain ⟨-, rfl⟩ := writing_eq_ok h
      simp [Write.locks, locks]
  | updateTransaction mem reread =>
    obtain ⟨-, rfl⟩ := writing_eq_ok h
    simp [Write.locks, locks]
  | updateCustomer mem reread =>
    obtain ⟨-, rfl⟩ := writing_eq_ok h
    simp [Write.locks, locks]
  | updateShift mem reread =>
    obtain ⟨-, rfl⟩ := writing_eq_ok h
    simp [Write.locks, locks]
  | updateTenant mem reread =>
    cases h
    simp [Write.locks, locks]
  | moveTransaction tenantId secondaryId primaryId id =>
    simp only [exec] at h
    split at h
    · rename_i hfound
      cases h
      simp [Write.locks, locks, hfound]
    · cases h
      simp
  | freezeTransaction tenantId openedAt shiftId id =>
    simp only [exec] at h
    split at h
    · rename_i hfound
      cases h
      simp only [List.mem_singleton, forall_eq, Write.locks, locks, lockFound, hfound, if_true]
      exact List.Subset.refl _
    · cases h
      simp
  | insertBillingEvent row =>
    simp only [exec] at h
    split at h
    · cases h
    · obtain ⟨-, rfl⟩ := writing_eq_ok h
      simp [Write.locks, locks]
  | markOverdue id =>
    simp only [exec] at h
    cases h
    intro w hw
    split at hw
    · rename_i hfound
      obtain rfl := List.mem_singleton.1 hw
      simp only [Write.locks, locks, lockFound, hfound, if_true]
      exact List.Subset.refl _
    · cases hw
  | blockCustomer rule id =>
    simp only [exec] at h
    cases h
    intro w hw
    split at hw
    · rename_i hfound
      obtain rfl := List.mem_singleton.1 hw
      simp only [Write.locks, locks, lockFound, hfound, if_true]
      exact List.Subset.refl _
    · cases hw
  | sumCash tenantId openedAt =>
    simp only [exec] at h
    split at h
    · cases h
      simp
    · cases h
  | findAutoBlockTenants =>
    simp only [exec] at h
    split at h
    · cases h
    · cases h
      simp
  | _ =>
    cases h
    simp

/-! ## Rows that no write touches -/

theorem Write.conflicts_of_mem_locks {w : Write} {l : LockName} {m m' : LockMode}
    (h : (l, m) ∈ w.locks) (hm' : m' ≠ .keyShare) : m'.conflicts m = true := by
  have hm : m ≠ .keyShare := by
    rintro rfl
    cases w <;> simp [Write.locks] at h
  cases m <;> cases m' <;> simp_all [LockMode.conflicts]

/-- A lock held elsewhere keeps the writes of this session away. -/
theorem not_mem_locks_of_separate {lk lk' : List (LockName × LockMode)} {l : LockName}
    {m : LockMode} (hmem : (l, m) ∈ lk) (hm : m ≠ .keyShare) (hsep : Separate lk lk')
    {ws : List Write} (hws : ∀ w ∈ ws, w.locks ⊆ lk') : ∀ w ∈ ws, ∀ m', (l, m') ∉ w.locks := by
  intro w hw m' hm'
  have hconflict := Write.conflicts_of_mem_locks hm' hm
  rw [hsep l m m' hmem (hws w hw hm')] at hconflict
  cases hconflict

section Untouched

variable {w : Write} {ws : List Write} {d : Db} {id : Uuid}

theorem Write.find_transaction_apply (h : ∀ m, (.transaction id, m) ∉ w.locks) :
    (w.apply d).transactions.find id = d.transactions.find id := by
  cases w with
  | insertTransaction row =>
    refine Table.find_insert_of_ne fun hid ↦ h .update ?_
    simp [Write.locks, show row.id = id from hid]
  | updateTransaction mem reread =>
    refine Table.find_modify_of_ne fun hid ↦ h .noKeyUpdate ?_
    simp [Write.locks, hid]
  | moveTransaction id' customerId =>
    refine Table.find_modify_of_ne fun hid ↦ h .noKeyUpdate ?_
    simp [Write.locks, hid]
  | freezeTransaction id' shiftId =>
    refine Table.find_modify_of_ne fun hid ↦ h .noKeyUpdate ?_
    simp [Write.locks, hid]
  | _ => rfl

theorem Write.find_customer_apply (h : ∀ m, (.customer id, m) ∉ w.locks) :
    (w.apply d).customers.find id = d.customers.find id := by
  cases w with
  | insertCustomer row =>
    refine Table.find_insert_of_ne fun hid ↦ h .update ?_
    simp [Write.locks, show row.id = id from hid]
  | updateCustomer mem reread =>
    refine Table.find_modify_of_ne fun hid ↦ h .noKeyUpdate ?_
    simp [Write.locks, hid]
  | markOverdue id' =>
    refine Table.find_modify_of_ne fun hid ↦ h .noKeyUpdate ?_
    simp [Write.locks, hid]
  | blockCustomer id' =>
    refine Table.find_modify_of_ne fun hid ↦ h .noKeyUpdate ?_
    simp [Write.locks, hid]
  | _ => rfl

theorem Write.find_batch_apply (h : ∀ m, (.batch id, m) ∉ w.locks) :
    (w.apply d).batches.find id = d.batches.find id := by
  cases w with
  | insertBatch row =>
    refine Table.find_insert_of_ne fun hid ↦ h .update ?_
    simp [Write.locks, show row.id = id from hid]
  | _ => rfl

theorem Write.find_tenant_apply (h : ∀ m, (.tenant id, m) ∉ w.locks) :
    (w.apply d).tenants.find id = d.tenants.find id := by
  cases w with
  | updateTenant mem reread =>
    refine Table.find_modify_of_ne fun hid ↦ h .noKeyUpdate ?_
    simp [Write.locks, hid]
  | _ => rfl

theorem Write.find_shift_apply (h : ∀ m, (.shift id, m) ∉ w.locks) :
    (w.apply d).shifts.find id = d.shifts.find id := by
  cases w with
  | insertShift row =>
    refine Table.find_insert_of_ne fun hid ↦ h .update ?_
    simp [Write.locks, show row.id = id from hid]
  | updateShift mem reread =>
    refine Table.find_modify_of_ne fun hid ↦ h .noKeyUpdate ?_
    simp [Write.locks, hid]
  | _ => rfl

theorem find_transaction_view (h : ∀ w ∈ ws, ∀ m, (.transaction id, m) ∉ w.locks) :
    (postgres.view ws d).transactions.find id = d.transactions.find id :=
  postgres.view_unchanged (fun d ↦ d.transactions.find id) fun w hw _ ↦
    Write.find_transaction_apply (h w hw)

theorem find_customer_view (h : ∀ w ∈ ws, ∀ m, (.customer id, m) ∉ w.locks) :
    (postgres.view ws d).customers.find id = d.customers.find id :=
  postgres.view_unchanged (fun d ↦ d.customers.find id) fun w hw _ ↦
    Write.find_customer_apply (h w hw)

theorem find_batch_view (h : ∀ w ∈ ws, ∀ m, (.batch id, m) ∉ w.locks) :
    (postgres.view ws d).batches.find id = d.batches.find id :=
  postgres.view_unchanged (fun d ↦ d.batches.find id) fun w hw _ ↦
    Write.find_batch_apply (h w hw)

theorem find_tenant_view (h : ∀ w ∈ ws, ∀ m, (.tenant id, m) ∉ w.locks) :
    (postgres.view ws d).tenants.find id = d.tenants.find id :=
  postgres.view_unchanged (fun d ↦ d.tenants.find id) fun w hw _ ↦
    Write.find_tenant_apply (h w hw)

theorem find_shift_view (h : ∀ w ∈ ws, ∀ m, (.shift id, m) ∉ w.locks) :
    (postgres.view ws d).shifts.find id = d.shifts.find id :=
  postgres.view_unchanged (fun d ↦ d.shifts.find id) fun w hw _ ↦
    Write.find_shift_apply (h w hw)

end Untouched

end MicroErp.Database
