import MicroErp.Database.Ownership

/-!
# Writes keep the tenants apart

A write of a tenant does on the whole database what it does on the tenant's part, does not show in the
parts of others, and leaves every row with the tenant of its identifier.
-/

namespace MicroErp.Database

open MicroErp.Concurrency MicroErp.Storage

variable {own : Uuid → Option Uuid} {tenantId : Uuid} {db : Db}

theorem savedColumn_eq {α : Type} [DecidableEq α] {mem reread latest x : α} (hmem : mem = x)
    (hlatest : latest = x) : savedColumn mem reread latest = x := by
  unfold savedColumn
  split
  · exact hlatest
  · exact hmem

theorem Customer.saved_tenant_id {mem reread c : Customer} (hmem : mem.tenant_id = tenantId)
    (hc : c.tenant_id = tenantId) : (Customer.saved mem reread c).tenant_id = tenantId :=
  savedColumn_eq hmem hc

theorem CashRegisterLog.saved_tenant_id {mem reread s : CashRegisterLog}
    (hmem : mem.tenant_id = tenantId) (hs : s.tenant_id = tenantId) :
    (CashRegisterLog.saved mem reread s).tenant_id = tenantId :=
  savedColumn_eq hmem hs

theorem Transaction.saved_tenant_id {mem reread t : Transaction} (hmem : mem.tenant_id = tenantId)
    (ht : t.tenant_id = tenantId) : (Transaction.saved mem reread t).tenant_id = tenantId :=
  savedColumn_eq hmem ht

theorem Transaction.Owned.saved {mem reread t : Transaction} (hmem : mem.Owned own)
    (ht : t.Owned own) (htenant : mem.tenant_id = t.tenant_id) :
    (Transaction.saved mem reread t).Owned own := by
  have hsaved : (Transaction.saved mem reread t).tenant_id = t.tenant_id :=
    Transaction.saved_tenant_id htenant rfl
  have hpick : ∀ {α : Type} [DecidableEq α] {x y z : α} {p : α → Prop}, p x → p z →
      p (savedColumn x y z) := by
    intro α _ x y z p hx hz
    unfold savedColumn
    split
    · exact hz
    · exact hx
  rw [← htenant] at hsaved
  refine ⟨by rw [hsaved, htenant]; exact ht.id, ?_, ?_⟩
  · rw [hsaved]
    exact hpick (p := fun x ↦ own x = some mem.tenant_id) hmem.customer (htenant ▸ ht.customer)
  · rw [hsaved]
    exact hpick (p := fun x ↦ ∀ g ∈ x, own g = some mem.tenant_id) hmem.group
      (htenant ▸ ht.group)

namespace Write

/-- A write of the tenant does on the whole database what it does on the tenant's part. -/
theorem apply_only {w : Write} (h : w.Scoped own tenantId) (hd : db.Owned own) :
    (w.apply db).only tenantId = w.apply (db.only tenantId) := by
  cases w with
  | insertTransaction row =>
    obtain ⟨howned, rfl⟩ := h
    unfold apply Db.only
    rw [Table.restrict_insert (by simp)]
    intro t ht hkey
    simpa using hd.transaction_tenant howned.id ht hkey
  | insertCustomer row =>
    obtain ⟨hid, rfl⟩ := h
    unfold apply Db.only
    rw [Table.restrict_insert (by simp)]
    intro c hc hkey
    simpa using hd.customer_tenant hid hc hkey
  | insertBatch row =>
    obtain ⟨hid, rfl⟩ := h
    unfold apply Db.only
    rw [Table.restrict_insert (by simp)]
    intro b hb hkey
    simpa using hd.batch_tenant hid hb hkey
  | insertShift row =>
    obtain ⟨hid, rfl⟩ := h
    unfold apply Db.only
    rw [Table.restrict_insert (by simp)]
    intro s hs hkey
    simpa using hd.shift_tenant hid hs hkey
  | updateTransaction mem reread =>
    unfold apply Db.only
    rw [Table.restrict_modify]
    intro t ht hkey
    have htenant : t.tenant_id = tenantId :=
      (hd.transaction_tenant h.1.id ht hkey).trans h.2
    rw [Transaction.saved_tenant_id h.2 htenant, htenant]
  | updateCustomer mem reread =>
    unfold apply Db.only
    rw [Table.restrict_modify]
    intro c hc hkey
    have htenant : c.tenant_id = tenantId := hd.customer_tenant h.1 hc hkey
    rw [Customer.saved_tenant_id h.2 htenant, htenant]
  | updateTenant mem reread =>
    unfold apply Db.only
    rw [Table.restrict_modify]
    intros
    rfl
  | updateShift mem reread =>
    unfold apply Db.only
    rw [Table.restrict_modify]
    intro s hs hkey
    have htenant : s.tenant_id = tenantId := hd.shift_tenant h.1 hs hkey
    rw [CashRegisterLog.saved_tenant_id h.2 htenant, htenant]
  | moveTransaction id customerId | freezeTransaction id shiftId =>
    unfold apply Db.only
    rw [Table.restrict_modify]
    intros
    rfl
  | blockCustomer id =>
    unfold apply Db.only
    rw [Table.restrict_modify]
    intros
    rfl
  | insertBillingEvent | markOverdue => exact h.elim

/-- The writes of another tenant do not show. -/
theorem apply_other {w : Write} {other : Uuid} (h : w.Scoped own other) (hd : db.Owned own)
    (hne : other ≠ tenantId) : (w.apply db).only tenantId = db.only tenantId := by
  cases w with
  | insertTransaction row =>
    obtain ⟨-, rfl⟩ := h
    unfold apply Db.only
    rw [Table.restrict_insert_of_not (by simpa using hne)]
  | insertCustomer row | insertBatch row | insertShift row =>
    obtain ⟨-, rfl⟩ := h
    unfold apply Db.only
    rw [Table.restrict_insert_of_not (by simpa using hne)]
  | updateTransaction mem reread =>
    unfold apply Db.only
    rw [Table.restrict_modify_of_not]
    intro t ht hkey
    have htenant : t.tenant_id = other :=
      (hd.transaction_tenant h.1.id ht hkey).trans h.2
    rw [Transaction.saved_tenant_id h.2 htenant, htenant]
    simpa using hne
  | updateCustomer mem reread =>
    unfold apply Db.only
    rw [Table.restrict_modify_of_not]
    intro c hc hkey
    have htenant : c.tenant_id = other := hd.customer_tenant h.1 hc hkey
    rw [Customer.saved_tenant_id h.2 htenant, htenant]
    simpa using hne
  | updateTenant mem reread =>
    unfold apply Db.only
    rw [Table.restrict_modify_of_not]
    intro t _ hkey
    have hid : t.id = other := hkey.trans h
    simp [Tenant.saved, hid, hne]
  | updateShift mem reread =>
    unfold apply Db.only
    rw [Table.restrict_modify_of_not]
    intro s hs hkey
    have htenant : s.tenant_id = other := hd.shift_tenant h.1 hs hkey
    rw [CashRegisterLog.saved_tenant_id h.2 htenant, htenant]
    simpa using hne
  | moveTransaction id customerId =>
    unfold apply Db.only
    rw [Table.restrict_modify_of_not]
    intro t ht hkey
    simp [hd.transaction_tenant h.1 ht hkey, hne]
  | freezeTransaction id shiftId =>
    unfold apply Db.only
    rw [Table.restrict_modify_of_not]
    intro t ht hkey
    simp [hd.transaction_tenant h ht hkey, hne]
  | blockCustomer id =>
    unfold apply Db.only
    rw [Table.restrict_modify_of_not]
    intro c hc hkey
    simp [hd.customer_tenant h hc hkey, hne]
  | insertBillingEvent | markOverdue => exact h.elim

/-- The rows stay with the tenants of their identifiers. -/
theorem owned_apply {w : Write} (h : w.Scoped own tenantId ∨ w.Clerical) (hd : db.Owned own) :
    (w.apply db).Owned own := by
  cases w with
  | insertTransaction row =>
    obtain h := h.resolve_right id
    exact { hd with transactions := Table.forall_insert hd.transactions h.1 }
  | insertCustomer row =>
    obtain ⟨hid, htenant⟩ := h.resolve_right id
    exact { hd with customers := Table.forall_insert hd.customers (htenant ▸ hid) }
  | insertBatch row =>
    obtain ⟨hid, htenant⟩ := h.resolve_right id
    exact { hd with batches := Table.forall_insert hd.batches (htenant ▸ hid) }
  | insertShift row =>
    obtain ⟨hid, htenant⟩ := h.resolve_right id
    exact { hd with shifts := Table.forall_insert hd.shifts (htenant ▸ hid) }
  | updateTransaction mem reread =>
    obtain ⟨howned, htenant⟩ := h.resolve_right id
    refine { hd with transactions := Table.forall_modify_at hd.transactions fun t ht hkey ↦ ?_ }
    have hkey : t.id = mem.id := hkey
    exact howned.saved ht (eq_of_own howned.id (hkey ▸ ht.id))
  | updateCustomer mem reread =>
    obtain ⟨hid, htenant⟩ := h.resolve_right id
    refine { hd with customers := Table.forall_modify_at hd.customers fun c hc hkey ↦ ?_ }
    have hkey : c.id = mem.id := hkey
    have hc' : c.tenant_id = tenantId := eq_of_own hc (hkey ▸ hid)
    rw [Customer.saved_tenant_id htenant hc', ← hc']
    exact hc
  | updateShift mem reread =>
    obtain ⟨hid, htenant⟩ := h.resolve_right id
    refine { hd with shifts := Table.forall_modify_at hd.shifts fun s hs hkey ↦ ?_ }
    have hkey : s.id = mem.id := hkey
    have hs' : s.tenant_id = tenantId := eq_of_own hs (hkey ▸ hid)
    rw [CashRegisterLog.saved_tenant_id htenant hs', ← hs']
    exact hs
  | moveTransaction id customerId =>
    obtain ⟨hid, hcustomer⟩ := h.resolve_right fun h ↦ h
    refine { hd with transactions := Table.forall_modify_at hd.transactions fun t ht hkey ↦ ?_ }
    have hkey : t.id = id := hkey
    have htenant : t.tenant_id = tenantId := eq_of_own ht.id (hkey ▸ hid)
    exact ⟨ht.id, htenant ▸ hcustomer, ht.group⟩
  | freezeTransaction id shiftId =>
    exact { hd with
      transactions := Table.forall_modify hd.transactions fun t ht ↦ ⟨ht.id, ht.customer, ht.group⟩ }
  | markOverdue id | blockCustomer id =>
    exact { hd with customers := Table.forall_modify hd.customers fun c hc ↦ hc }
  | insertBillingEvent row | updateTenant mem reread => exact { hd with }

end Write

/-! ## Answers and writes of statements -/

namespace Sql

theorem brings_of_exec {o : Sql} {r : o.Ans} {ws : List Write} (hd : db.Owned own)
    (h : o.exec db = .ok (r, ws)) : o.Brings own r := by
  cases o with
  | findTransactionByKey tenantId' key =>
    cases h
    intro t ht
    have hmem := List.mem_of_find?_eq_some ht
    have hprop := List.find?_some ht
    exact ⟨hd.transactions t hmem, (of_decide_eq_true hprop).1⟩
  | findTransaction tenantId' id =>
    cases h
    intro t ht
    obtain ⟨hfind, htenant⟩ := Option.filter_eq_some_iff.1 ht
    exact ⟨hd.transactions t (Table.find_eq_some.1 hfind).1, of_decide_eq_true htenant⟩
  | lockCustomer tenantId' id =>
    cases h
    intro c hc
    obtain ⟨hfind, htenant⟩ := Option.filter_eq_some_iff.1 hc
    obtain ⟨hmem, hkey⟩ := Table.find_eq_some.1 hfind
    have htenant := of_decide_eq_true htenant
    exact ⟨hkey, htenant ▸ hd.customers c hmem, htenant⟩
  | findCustomer tenantId' id =>
    cases h
    intro c hc
    obtain ⟨hfind, htenant⟩ := Option.filter_eq_some_iff.1 hc
    have htenant := of_decide_eq_true htenant
    exact ⟨htenant ▸ hd.customers c (Table.find_eq_some.1 hfind).1, htenant⟩
  | lockTenant id =>
    cases h
    exact fun t ht ↦ Table.find_key ht
  | findOpenShift tenantId' id =>
    cases h
    intro s hs
    obtain ⟨hfind, hprop⟩ := Option.filter_eq_some_iff.1 hs
    have htenant := (of_decide_eq_true hprop).1
    exact ⟨htenant ▸ hd.shifts s (Table.find_eq_some.1 hfind).1, htenant⟩
  | _ => trivial

/-- A statement of a tenant writes rows of the tenant: those under the locks that it takes. -/
theorem scoped_of_exec {o : Sql} {r : o.Ans} {ws : List Write} (ho : o.Scoped own tenantId)
    (hd : db.Owned own) (h : o.exec db = .ok (r, ws)) : ∀ w ∈ ws, w.Scoped own tenantId := by
  intro w hw
  have hwrite := write_of_exec h w hw
  have hlock : ∀ l ∈ w.locks, LockName.HeldFor own tenantId l := fun l hl ↦
    locks_heldFor ho hd l (locks_of_exec h w hw hl)
  cases o with
  | insertTransaction | insertCustomer | insertBatch | insertShift =>
    obtain rfl := Option.some.inj hwrite
    exact ho
  | updateTransaction | updateCustomer | updateShift | updateTenant =>
    obtain rfl := Option.some.inj hwrite
    exact ho
  | moveTransaction tenantId' secondaryId primaryId id =>
    obtain rfl := Option.some.inj hwrite
    exact ⟨hlock (.transaction id, .noKeyUpdate) List.mem_cons_self, ho.2⟩
  | freezeTransaction tenantId' openedAt shiftId id =>
    obtain rfl := Option.some.inj hwrite
    exact hlock (.transaction id, .noKeyUpdate) List.mem_cons_self
  | blockCustomer rule id =>
    obtain rfl := Option.some.inj hwrite
    exact hlock (.customer id, .noKeyUpdate) List.mem_cons_self
  | markOverdue | insertBillingEvent => exact ho.elim
  | _ => cases hwrite

theorem clerical_of_exec {o : Sql} {r : o.Ans} {ws : List Write} (ho : o.Clerical)
    (h : o.exec db = .ok (r, ws)) : ∀ w ∈ ws, w.Clerical := by
  intro w hw
  have hwrite := write_of_exec h w hw
  cases o with
  | insertTransaction | insertCustomer | insertBatch | insertShift => exact ho.elim
  | updateTransaction | updateCustomer | updateShift | moveTransaction => exact ho.elim
  | freezeTransaction | blockCustomer | markOverdue | insertBillingEvent | updateTenant =>
    obtain rfl := Option.some.inj hwrite
    trivial
  | _ => cases hwrite

end Sql

end MicroErp.Database
