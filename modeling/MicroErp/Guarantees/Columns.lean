import MicroErp.Guarantees.Balances
import MicroErp.Guarantees.Overdue

/-!
# Stored amounts fit their columns

A write that would put a number beyond the range of its column fails.  So in every reachable
database the balances and limits of the customers and the amounts of the transactions are in range,
and no balance and no amount is negative.
-/

namespace MicroErp.Guarantees

open MicroErp.Commits MicroErp.Concurrency MicroErp.Database MicroErp.Services MicroErp.Storage

variable {d d' : Db}

structure FitsColumns (d : Db) : Prop where
  customers : ∀ c ∈ d.customers.rows, Int4 c.balance_cents ∧ Int4 c.credit_limit_cents
  transactions : ∀ t ∈ d.transactions.rows, Int4 t.amount_cents
  balances : ∀ c ∈ d.customers.rows, 0 ≤ c.balance_cents
  amounts : ∀ t ∈ d.transactions.rows, 0 ≤ t.amount_cents

/-- The numbers that a write saves are in range; the balance of a new customer is not checked. -/
def InRange : Write → Prop
  | .insertTransaction row => Int4 row.amount_cents
  | .updateTransaction mem _ => Int4 mem.amount_cents
  | .updateCustomer mem _ => Int4 mem.balance_cents ∧ Int4 mem.credit_limit_cents
  | _ => True

theorem inRange_of_exec {o : Sql} {v : Db} {r : o.Ans} {ws : List Write}
    (h : o.exec v = .ok (r, ws)) : ∀ w ∈ ws, InRange w := by
  intro w hw
  have hwrite := Sql.write_of_exec h w hw
  cases o with
  | insertTransaction row =>
    cases hwrite
    simp only [Sql.exec] at h
    split at h
    · cases h
    · exact (Sql.writing_eq_ok h).1
  | updateTransaction | updateCustomer =>
    cases hwrite
    exact (Sql.writing_eq_ok h).1
  | _ => cases hwrite <;> trivial

/-! ## Transactions -/

/-- The amounts of the transactions are in range, whatever the sessions run. -/
def amountFlow (ι : Type) : Flow postgres ι where
  inv d := ∀ t ∈ d.transactions.rows, Int4 t.amount_cents
  issues _ _ := True
  answers _ _ := True
  writes _ := InRange
  exec _ _ h := ⟨trivial, inRange_of_exec h⟩
  write := by
    intro i w d hw h
    cases w with
    | insertTransaction row => exact Table.forall_insert h hw
    | updateTransaction mem reread =>
      refine Table.forall_modify h fun t ht ↦ ?_
      simp only [Transaction.saved, savedColumn]
      split
      · exact ht
      · exact hw
    | moveTransaction => exact Table.forall_modify h fun _ ht ↦ ht
    | freezeTransaction => exact Table.forall_modify h fun _ ht ↦ ht
    | _ => exact h

/-! ## Customers -/

/-- The customers of `d` are still there, with columns in range. -/
def KeepsInRange (d v : Db) : Prop :=
  ∀ id, (d.customers.find id).isSome → ∃ c, v.customers.find id = some c ∧
    Int4 c.balance_cents ∧ Int4 c.credit_limit_cents

theorem KeepsInRange.modify {v : Db} {id : Uuid} {f : Customer → Customer} (h : KeepsInRange d v)
    (hf : ∀ c, Int4 c.balance_cents ∧ Int4 c.credit_limit_cents →
      Int4 (f c).balance_cents ∧ Int4 (f c).credit_limit_cents) :
    KeepsInRange d { v with customers := v.customers.modify id f } := by
  intro id' hid'
  obtain ⟨c, hc, hfits⟩ := h id' hid'
  refine ⟨_, (Table.find_modify (k := id)).trans (congrArg _ hc), ?_⟩
  simp only [Table.amend]
  split
  · split
    · exact hf c hfits
    · exact hfits
  · exact hfits

theorem KeepsInRange.write {v : Db} {w : Write} (h : KeepsInRange d v) (hw : InRange w) :
    KeepsInRange d (w.apply v) := by
  cases w with
  | insertCustomer row =>
    intro id hid
    obtain ⟨c, hc, hfits⟩ := h id hid
    refine ⟨c, ?_, hfits⟩
    by_cases hrow : row.id = id
    · have hkey : Keyed.key row ∈ v.customers.rows.map Keyed.key := by
        rw [show Keyed.key row = Keyed.key c from hrow.trans (Table.find_key hc).symm]
        exact List.mem_map_of_mem (Table.find_eq_some.1 hc).1
      rw [Write.apply]
      simp only
      rw [Table.insert, dif_pos hkey, hc]
    · exact (Table.find_insert_of_ne hrow).trans hc
  | updateCustomer mem reread =>
    refine h.modify fun c hc ↦ ?_
    simp only [Customer.saved, savedColumn]
    constructor
    · split
      · exact hc.1
      · exact hw.1
    · split
      · exact hc.2
      · exact hw.2
  | markOverdue => exact h.modify fun _ hc ↦ hc
  | blockCustomer => exact h.modify fun _ hc ↦ hc
  | _ => exact h

theorem keepsInRange_view {ws : List Write} (h : ∀ w ∈ ws, InRange w)
    (hd : ∀ c ∈ d.customers.rows, Int4 c.balance_cents ∧ Int4 c.credit_limit_cents) :
    KeepsInRange d (postgres.view ws d) := by
  have hview : ∀ v, KeepsInRange d v → KeepsInRange d (postgres.view ws v) := by
    induction ws with
    | nil => exact fun _ hv ↦ hv
    | cons w ws ih =>
      intro v hv
      exact ih (fun w' hw' ↦ h w' (List.mem_cons_of_mem _ hw')) _
        (hv.write (h w List.mem_cons_self))
  refine hview d fun id hid ↦ ?_
  obtain ⟨c, hc⟩ := Option.isSome_iff_exists.1 hid
  exact ⟨c, hc, hd c (Table.find_eq_some.1 hc).1⟩

/-- The customers that a commit adds have no balance yet. -/
theorem new_customers {S : Setting} {req : Request} {env : Env}
    {lk : List (LockName × LockMode)} {e : Effect} (h : Changes S env lk d req e) :
    ∀ c ∈ e.customers, c.balance_cents = 0 ∧ Int4 c.credit_limit_cents := by
  cases h with
  | @create tenantId dto =>
    intro c hc
    obtain rfl := List.mem_singleton.1 hc
    refine ⟨rfl, ?_⟩
    have hlimit := dto.credit_limit_valid
    change Int4 (dto.credit_limit_cents.getD 0)
    cases hl : dto.credit_limit_cents with
    | none => decide
    | some n =>
      rw [hl] at hlimit
      obtain ⟨hnonneg, hle⟩ := of_decide_eq_true hlimit
      unfold maxAmountCents at hle
      exact ⟨by simp only [Option.getD_some]; omega, by simp only [Option.getD_some]; omega⟩
  | _ => exact fun _ hc ↦ (List.not_mem_nil hc).elim

/-! ## Reachable databases -/

/-- What holds of the rows that commits append holds of all rows. -/
theorem cores_of_reachable {P : Transaction.Core → Prop} (h : Reachable d)
    (hrows : ∀ {req : Request} {env : Env} {lk : List (LockName × LockMode)} {d : Db} {e : Effect},
      Changes .plain env lk d req e → (∀ r ∈ d.cores, P r) → ∀ t ∈ e.rows, P t.toCore) :
    ∀ r ∈ d.cores, P r := by
  obtain ⟨ι, _, req, env, tenants, es, hids, rfl⟩ := h
  obtain ⟨hC, hsound⟩ := sound_opened (S := .plain) hids False.elim False.elim rfl tenants
  refine hsound.history hC (J := fun d _ ↦ ∀ r ∈ d.cores, P r)
    (.of_forall fun i ↦ allow_plain (req i) (env i)) (fun _ hr ↦ (List.not_mem_nil hr).elim)
    fun i lk ws d log hJ hguar _ ↦ ?_
  rcases hguar with ⟨rfl, -⟩ | ⟨e, hcommit⟩
  · exact hJ
  intro r hr
  rw [hcommit.cores, List.mem_append] at hr
  rcases hr with hr | hr
  · exact hJ r hr
  · obtain ⟨t, ht, rfl⟩ := List.mem_map.1 hr
    exact hrows hcommit.changes hJ t ht

theorem amounts_of_reachable (h : Reachable d) : ∀ r ∈ d.cores, 0 ≤ r.amount_cents :=
  cores_of_reachable h fun hchanges hJ _ ht ↦ amount_row hJ hchanges ht

/-- One commit keeps the columns of the customers in range. -/
theorem customers_commit {S : Setting} {req : Request} {env : Env}
    {lk : List (LockName × LockMode)} {e : Effect} {ws : List Write}
    (hcommit : Commit S req env lk d (postgres.view ws d) e) (hws : ∀ w ∈ ws, InRange w)
    (hd : ∀ c ∈ d.customers.rows, Int4 c.balance_cents ∧ Int4 c.credit_limit_cents) :
    ∀ c ∈ (postgres.view ws d).customers.rows,
      Int4 c.balance_cents ∧ Int4 c.credit_limit_cents := by
  intro c hc
  have hmem := hc
  rw [hcommit.yields.customers] at hmem
  rcases List.mem_append.1 hmem with hold | hnew
  · obtain ⟨x, hx, rfl⟩ := List.mem_map.1 hold
    have hid : (e.customer x).id = x.id := congrArg Prod.fst (hcommit.changes.fixed_customer hx)
    have hfound : d.customers.find x.id = some x := Table.find_eq_some.2 ⟨hx, rfl⟩
    obtain ⟨c', hc', hfits⟩ := keepsInRange_view hws hd x.id (by rw [hfound]; rfl)
    rwa [Table.eq_of_find hc' hc hid]
  · obtain ⟨hbalance, hlimit⟩ := new_customers hcommit.changes c hnew
    rw [hbalance]
    exact ⟨by decide, hlimit⟩

theorem fitsColumns_of_reachable (h : Reachable d) : FitsColumns d := by
  have hbalances := noCredit_of_reachable h
  have hamounts := amounts_of_reachable h
  obtain ⟨ι, _, req, env, tenants, es, hids, rfl⟩ := h
  have hflow : (amountFlow ι).Holds (fun _ _ ↦ True) (serve req env (Db.opened tenants) :
      Sys ι Sql Sql.Ans Db Write LockName ServiceError Answer) :=
    .start (fun _ ht ↦ (List.not_mem_nil ht).elim) fun i ↦ Prog.safe_trivial _
  obtain ⟨hC, hsound⟩ := sound_opened (S := .plain) hids False.elim False.elim rfl tenants
  have hmeets : postgres.Meets _ (serve req env (Db.opened tenants)) es :=
    .of_forall fun i ↦ allow_plain (req i) (env i)
  have hcustomers := hsound.history hC
    (J := fun d log ↦ (∀ x ∈ log, ∀ w ∈ x.2, InRange w) → ∀ c ∈ d.customers.rows,
      Int4 c.balance_cents ∧ Int4 c.credit_limit_cents)
    hmeets (fun _ c hc ↦ (List.not_mem_nil hc).elim) fun i lk ws d log hJ hguar _ hlog ↦ ?_
  · exact ⟨hcustomers (hflow.run es).log, (hflow.run es).db, hbalances,
      fun t ht ↦ hamounts t.toCore (Db.mem_cores.2 ⟨t, ht, rfl⟩)⟩
  · have hd := hJ fun x hx ↦ hlog x (List.mem_append_left _ hx)
    rcases hguar with ⟨rfl, -⟩ | ⟨e, hcommit⟩
    · exact hd
    · exact customers_commit hcommit
        (hlog (i, ws) (List.mem_append_right _ (List.mem_singleton_self _))) hd

end MicroErp.Guarantees
