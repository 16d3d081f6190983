import MicroErp.Commits.Edits
import MicroErp.Commits.Statements
import MicroErp.Services.Rounding

/-!
# Overdue customers owe money

Nothing clears `is_overdue`.  So a customer who is marked stays marked when the balance becomes
zero; as long as no commit takes the whole balance of one who is marked, all of them owe money.
-/

namespace MicroErp.Guarantees

open MicroErp.Commits MicroErp.Concurrency MicroErp.Database MicroErp.Services MicroErp.Storage

/-- A customer who is overdue has a balance, and nobody has a negative one. -/
def Owes (c : Customer) : Prop := 0 ≤ c.balance_cents ∧ (c.is_overdue = true → 0 < c.balance_cents)

/-- Every customer who is overdue owes money. -/
def OverdueOwe (d : Db) : Prop := ∀ c ∈ d.customers.rows, c.is_overdue = true → 0 < c.balance_cents

instance : DecidablePred Owes := fun _ ↦ inferInstanceAs (Decidable (_ ∧ _))

/-- The request leaves customer `c`, whom it has locked, something to pay. -/
def LeavesDebt (req : Request) (d : Db) (c : Customer) : Bool :=
  match req with
  | .registerPayment _ _ dto => dto.amount_cents < c.balance_cents
  | .registerMixedPayment _ _ dto => dto.total_amount_cents < c.balance_cents
  | .forgiveDebt _ _ _ => false
  | .reverseTransaction _ _ transactionId _ => ∀ t ∈ d.transactions.find transactionId,
      t.type = .DEBT ∨ t.type = .INFLATION_ADJUSTMENT → t.amount_cents < c.balance_cents
  | .mergeCustomers _ dto => c.id ≠ dto.secondary_id.value
  | _ => true

/-- No customer that is locked and overdue loses the whole balance. -/
def SparesOverdue (req : Request) (lk : List (LockName × LockMode)) (d : Db) : Prop :=
  ∀ c ∈ d.customers.rows, (.customer c.id, .update) ∈ lk → c.is_overdue = true → LeavesDebt req d c

instance (req : Request) (lk : List (LockName × LockMode)) (d : Db) :
    Decidable (SparesOverdue req lk d) :=
  inferInstanceAs (Decidable (∀ c ∈ d.customers.rows, _ → _ → _))

/-- The save of an edit reads again the balance and the flag it loaded, and a customer who is marked
still owes. -/
def MarksDebtors (req : Request) : Sql → Db → Bool
  | .rereadCustomer mem, v => req.IsEdit → ∀ c ∈ v.customers.find mem.id,
      c.balance_cents = mem.balance_cents ∧ c.is_overdue = mem.is_overdue
  | .markOverdue id, v => ∀ c ∈ v.customers.find id, 0 < c.balance_cents
  | _, _ => true

def overdueWatch : Watch where
  rereads _ mem reread :=
    reread.balance_cents = mem.balance_cents ∧ reread.is_overdue = mem.is_overdue
  assigned _ h := h
  owing := True

theorem allow_overdueWatch {req : Request} {o : Sql} {v : Db} (h : MarksDebtors req o v) :
    overdueWatch.allow req o v := by
  cases o with
  | rereadCustomer mem =>
    have hreread : req.IsEdit → ∀ c ∈ v.customers.find mem.id,
        c.balance_cents = mem.balance_cents ∧ c.is_overdue = mem.is_overdue := of_decide_eq_true h
    exact hreread
  | markOverdue id => exact fun _ ↦ of_decide_eq_true h
  | _ => trivial

structure Owing (d : Db) : Prop where
  amounts : ∀ r ∈ d.cores, 0 ≤ r.amount_cents
  customers : ∀ c ∈ d.customers.rows, Owes c

section Commit

variable {req : Request} {env : Env} {lk : List (LockName × LockMode)} {d d' : Db} {e : Effect}
  {ws : List Write}

theorem owes_setCustomer {c x : Customer} (hc : Owes c) (hx : Owes x) : Owes (setCustomer c x) := by
  unfold setCustomer
  split
  · exact hc
  · exact hx

/-- The rows that a commit appends have no negative amounts. -/
theorem amount_row (h : ∀ r ∈ d.cores, 0 ≤ r.amount_cents) (hchanges : Changes .plain env lk d req e) {r : Transaction}
    (hr : r ∈ e.rows) : 0 ≤ r.amount_cents := by
  cases hchanges with
  | post _ hc hposts =>
    cases hposts with
    | @debt _ _ dto =>
      obtain rfl := List.mem_singleton.1 hr
      exact (Int.le_trans (by decide) dto.amount_valid.1)
    | payment _ hpos =>
      obtain rfl := List.mem_singleton.1 hr
      exact hpos.le
    | mixed _ htotal hpos =>
      obtain ⟨⟨hcash, -⟩, htransfer, -⟩ := effectiveShares_mem htotal hpos.le
      rcases List.mem_cons.1 hr with rfl | hr
      · exact hcash
      · obtain rfl := List.mem_singleton.1 hr
        exact htransfer
    | forgiveness _ hpos =>
      obtain rfl := List.mem_singleton.1 hr
      exact hpos.le
  | reverse _ _ _ _ _ hpresent =>
    obtain rfl := List.mem_singleton.1 hr
    obtain ⟨t, ht, hcore⟩ := hpresent
    have hamount := h t.toCore (Db.mem_cores.2 ⟨t, ht, rfl⟩)
    rw [hcore] at hamount
    exact hamount
  | inflate hadjusts =>
    obtain ⟨x, hx, rfl⟩ := List.mem_map.1 hr
    obtain ⟨hpos, n, hn⟩ := hadjusts.of_mem hx
    rw [hn]
    exact hpos.le
  | _ => cases hr

theorem owes_posting {c : Customer} {rows : List Transaction} {balance : ℤ} (h : Owes c)
    (hposts : Posts env c req rows balance) (hleaves : c.is_overdue = true → LeavesDebt req d c) :
    Owes { c with balance_cents := balance } := by
  obtain ⟨hbalance, howes⟩ := h
  cases hposts with
  | @debt _ _ dto =>
    have hamount := dto.amount_valid.1
    exact ⟨by simp only; omega, fun hoverdue ↦ by have := howes hoverdue; simp only; omega⟩
  | @payment _ _ dto =>
    refine ⟨sub_nonneg.2 (min_le_right _ _), fun hoverdue ↦ ?_⟩
    have hless : dto.amount_cents < c.balance_cents := of_decide_eq_true (hleaves hoverdue)
    exact sub_pos.2 (lt_of_le_of_lt (min_le_left _ _) hless)
  | @mixed _ _ dto _ htotal =>
    refine ⟨le_max_left _ _, fun hoverdue ↦ ?_⟩
    have hless : dto.total_amount_cents < c.balance_cents := of_decide_eq_true (hleaves hoverdue)
    refine lt_max_of_lt_right ?_
    rw [effectiveShares_add htotal]
    exact sub_pos.2 (lt_of_le_of_lt (min_le_left _ _) hless)
  | forgiveness => exact ⟨le_rfl, fun hoverdue ↦ Bool.noConfusion (hleaves hoverdue)⟩

theorem owes_reversal {tenantId userId transactionId : Uuid} {dto : ReverseTransactionDto}
    {original : Transaction} {c : Customer} (h : Owing d) (hc : Owes c)
    (hid : original.id = transactionId) (hpresent : ∃ t ∈ d.transactions.rows,
      t.toCore = original.toCore) (hleaves : c.is_overdue = true →
        LeavesDebt (.reverseTransaction tenantId userId transactionId dto) d c) :
    Owes { c with balance_cents :=
      balanceAfterReversal original.type original.amount_cents c.balance_cents } := by
  refine ⟨balanceAfterReversal_nonneg _ _ _, fun hoverdue ↦ ?_⟩
  obtain ⟨t, ht, hcore⟩ := hpresent
  have hfind : d.transactions.find transactionId = some t :=
    Table.find_eq_some.2 ⟨ht, (congrArg (·.id) hcore).trans hid⟩
  have hbalance := hc.2 hoverdue
  have htype : t.type = original.type := congrArg (·.type) hcore
  have hamount : t.amount_cents = original.amount_cents := congrArg (·.amount_cents) hcore
  simp only [balanceAfterReversal]
  split
  · rename_i hdebt
    have hless := of_decide_eq_true (hleaves hoverdue) t hfind (htype ▸ hdebt)
    exact lt_max_of_lt_right (by omega)
  · have hpos := h.amounts t.toCore (Db.mem_cores.2 ⟨t, ht, rfl⟩)
    exact lt_max_of_lt_right (by omega)

/-- A customer after a commit that is neither an edit nor a bulk update. -/
theorem owes_customer (h : Owing d) (hchanges : Changes .plain env lk d req e)
    (hspares : SparesOverdue req lk d) (hreq : ¬(req.IsEdit ∨ req.IsFlagging)) {x : Customer}
    (hx : x ∈ d.customers.rows) : Owes (e.customer x) := by
  have hold := h.customers x hx
  have hheld : ∀ {tenantId : Uuid} {c : Customer}, Holds d lk tenantId c →
      Owes c ∧ (c.is_overdue = true → LeavesDebt req d c) := fun {tenantId c} hc ↦
    have hmem := (Table.find_eq_some.1 hc.1).1
    ⟨h.customers c hmem, hspares c hmem hc.2.2⟩
  cases hchanges with
  | post _ hc hposts =>
    obtain ⟨howes, hleaves⟩ := hheld hc
    exact owes_setCustomer (owes_posting howes hposts hleaves) hold
  | reverse hid _ _ hc _ hpresent =>
    obtain ⟨howes, hleaves⟩ := hheld hc
    exact owes_setCustomer (owes_reversal h howes hid hpresent hleaves) hold
  | @inflate _ _ dto adjusted _ _ hadjusts =>
    simp only [adjustCustomer]
    split
    · rename_i hadjusted
      obtain ⟨y, hy, rfl⟩ := List.mem_map.1 hadjusted
      obtain ⟨hpos, -⟩ := hadjusts.of_mem hy
      exact ⟨add_nonneg hold.1 hpos.le, fun hoverdue ↦ add_pos (hold.2 hoverdue) hpos⟩
    · exact hold
  | @merge _ dto primary secondary _ hprimary hsecondary _ hsid =>
    obtain ⟨hp, -⟩ := hheld hprimary
    obtain ⟨hs, hleaves⟩ := hheld hsecondary
    refine owes_setCustomer ⟨le_rfl, fun hoverdue ↦
      (of_decide_eq_true (hleaves hoverdue) hsid).elim⟩ ?_
    refine owes_setCustomer ⟨add_nonneg hp.1 hs.1, fun hoverdue ↦ ?_⟩ hold
    exact add_pos_of_pos_of_nonneg (hp.2 hoverdue) hs.1
  | limit hc => exact owes_setCustomer (hheld hc).1 hold
  | edit hedit => exact (hreq (Or.inl hedit)).elim
  | flag hflag => exact (hreq (Or.inr hflag)).elim
  | _ => exact hold

/-- Each customer has the balance of before, and is marked as before or owes. -/
def MarksOwing (d d' : Db) : Prop :=
  ∀ c' ∈ d'.customers.rows, ∃ c ∈ d.customers.rows, c.id = c'.id ∧
    c.balance_cents = c'.balance_cents ∧ (c'.is_overdue = true → c.is_overdue = true ∨
      0 < c.balance_cents)

theorem marksOwing_gentle {w : Write} (h : MarksOwing d d') (hw : Gentle overdueWatch req d w) :
    MarksOwing d (w.apply d') := by
  intro c' hc'
  cases w with
  | updateCustomer mem reread =>
    obtain ⟨-, hbalance, hoverdue⟩ := hw
    simp only [Write.apply, Table.rows_modify] at hc'
    obtain ⟨x, hx, rfl⟩ := List.mem_map.1 hc'
    obtain ⟨c, hc, hid, hsame, hmarked⟩ := h x hx
    refine ⟨c, hc, ?_⟩
    split
    · have hamend : Table.amend (Customer.saved mem reread) x = Customer.saved mem reread x :=
        if_pos rfl
      rw [hamend]
      simp only [Customer.saved, hbalance, hoverdue, savedColumn_self]
      exact ⟨hid, hsame, hmarked⟩
    · exact ⟨hid, hsame, hmarked⟩
  | markOverdue id =>
    rw [show Write.markOverdue id = Flag.write .overdue id from rfl, rows_flagWrite] at hc'
    obtain ⟨x, hx, rfl⟩ := List.mem_map.1 hc'
    obtain ⟨c, hc, hid, hsame, hmarked⟩ := h x hx
    refine ⟨c, hc, ?_⟩
    split
    · rename_i hxid
      have hfind : d.customers.find id = some c := Table.find_eq_some.2 ⟨hc, hid.trans hxid⟩
      exact ⟨hid, hsame, fun _ ↦ Or.inr (hw.2 trivial c hfind)⟩
    · exact ⟨hid, hsame, hmarked⟩
  | blockCustomer id =>
    rw [show Write.blockCustomer id = Flag.write .blocked id from rfl, rows_flagWrite] at hc'
    obtain ⟨x, hx, rfl⟩ := List.mem_map.1 hc'
    obtain ⟨c, hc, hid, hsame, hmarked⟩ := h x hx
    refine ⟨c, hc, ?_⟩
    split <;> exact ⟨hid, hsame, hmarked⟩
  | _ => exact hw.elim

theorem marksOwing_view (h : MarksOwing d d') (hws : ∀ w ∈ ws, Gentle overdueWatch req d w) :
    MarksOwing d (postgres.view ws d') := by
  induction ws generalizing d' with
  | nil => exact h
  | cons w ws ih =>
    exact ih (marksOwing_gentle h (hws w List.mem_cons_self))
      fun w hw ↦ hws w (List.mem_cons_of_mem _ hw)

/-- Edits and bulk updates keep the balances, and mark only who owes. -/
theorem owes_gentle (h : Owing d) (hws : ∀ w ∈ ws, Gentle overdueWatch req d w) :
    ∀ c ∈ (postgres.view ws d).customers.rows, Owes c := by
  intro c' hc'
  have hself : MarksOwing d d := fun c hc ↦ ⟨c, hc, rfl, rfl, Or.inl⟩
  obtain ⟨c, hc, -, hbalance, hmarked⟩ := marksOwing_view hself hws c' hc'
  obtain ⟨hnonneg, howes⟩ := h.customers c hc
  unfold Owes
  rw [← hbalance]
  exact ⟨hnonneg, fun hoverdue ↦ (hmarked hoverdue).elim howes id⟩

theorem owes_new (hchanges : Changes .plain env lk d req e) : ∀ c ∈ e.customers, Owes c := by
  intro c hc
  cases hchanges with
  | create =>
    obtain rfl := List.mem_singleton.1 hc
    exact ⟨le_rfl, fun h ↦ Bool.noConfusion h⟩
  | _ => cases hc

theorem Owing.commit (h : Owing d) (hcommit : Commit .plain req env lk d (postgres.view ws d) e)
    (hws : req.IsEdit ∨ req.IsFlagging → ∀ w ∈ ws, Gentle overdueWatch req d w)
    (hspares : SparesOverdue req lk d) : Owing (postgres.view ws d) where
  amounts r hr := by
    rw [hcommit.cores, List.mem_append] at hr
    rcases hr with hr | hr
    · exact h.amounts r hr
    · obtain ⟨t, ht, rfl⟩ := List.mem_map.1 hr
      exact amount_row h.amounts hcommit.changes ht
  customers c hc := by
    by_cases hreq : req.IsEdit ∨ req.IsFlagging
    · exact owes_gentle h (hws hreq) c hc
    · rw [hcommit.yields.customers, List.mem_append] at hc
      rcases hc with hc | hc
      · obtain ⟨x, hx, rfl⟩ := List.mem_map.1 hc
        exact owes_customer h hcommit.changes hspares hreq hx
      · exact owes_new hcommit.changes c hc

end Commit

/-! ## Runs -/

section Runs

variable {ι : Type} [DecidableEq ι] {req : ι → Request} {env : ι → Env} {tenants : Table Tenant}
  {es : List (Event ι)}

theorem owing_opened (tenants : Table Tenant) : Owing (Db.opened tenants) :=
  ⟨fun _ h ↦ (List.not_mem_nil h).elim, fun _ h ↦ (List.not_mem_nil h).elim⟩

/-- As long as no commit takes the whole balance of a customer who is overdue, as edits read again
what they loaded and as nobody is marked without a balance, every customer who is overdue owes
money. -/
theorem overdue_owes (hids : FreshIds req env)
    (hmeets : postgres.Meets (fun i o v ↦ MarksDebtors (req i) o v)
      (serve req env (Db.opened tenants)) es)
    (hcommits : postgres.CommitsMeet (fun i ↦ SparesOverdue (req i))
      (serve req env (Db.opened tenants)) es) :
    OverdueOwe (postgres.run (serve req env (Db.opened tenants)) es).db := by
  obtain ⟨hC, hsound⟩ := sound_watch overdueWatch hids (fun i ↦ unused_opened (env i) tenants)
    (wellFormed_opened tenants)
  have howing : Owing (postgres.run (serve req env (Db.opened tenants)) es).db := by
    refine hsound.history_of_commits hC (J := fun d _ ↦ Owing d) ?_ hcommits
      (owing_opened tenants) fun i lk ws d _ h hguar _ hspares ↦ ?_
    · exact hmeets.mono fun i o v h ↦
        ⟨allow_plain (req i) (env i) o v, allow_overdueWatch h⟩
    · obtain ⟨hguar, hgentle⟩ := hguar
      rcases hguar with ⟨rfl, -⟩ | ⟨e, hcommit⟩
      · exact h
      · by_cases hne : ws = []
        · rw [hne]
          exact h
        · exact h.commit hcommit hgentle (hspares hne)
  exact fun c hc ↦ (howing.customers c hc).2

end Runs

/-! ## A debt that is paid -/

def paymentOf100 (customerId key : Uuid) : CreatePaymentDto :=
  { paymentOf60 customerId key with
    amount_cents := 100, amount_valid := (debtOf100 customerId key).amount_valid }

/-- A customer with a broken promise is marked, and pays a part of the debt or the whole. -/
def settling (whole : Bool) : Fin 5 → Request
  | 0 => .createCustomer 1 ana
  | 1 => .registerDebt 1 2 (debtOf100 100 7)
  | 2 => .updatePromise 1 100 ⟨some 10⟩
  | 3 => .processOverdueCustomers 11
  | 4 => .registerPayment 1 2 (if whole then paymentOf100 100 8 else paymentOf60 100 8)

def settled (whole : Bool) : Db :=
  (postgres.run (serve (settling whole) (fun i ↦ sampleEnv i) (Db.opened sampleTenants))
    (inTurn [(0, 10), (1, 12), (2, 8), (3, 8), (4, 12)])).db

theorem freshIds_settling (whole : Bool) :
    FreshIds (settling whole) fun i ↦ sampleEnv i :=
  freshIds_sample Fin.val_injective (by decide) (by cases whole <;> decide)

theorem overdue_owes_part : OverdueOwe (settled false) :=
  overdue_owes (freshIds_settling false) (by decide +kernel) (by decide +kernel)

/-- A customer who has paid everything is still marked. -/
theorem overdue_without_debt : Reachable (settled true) ∧ ¬OverdueOwe (settled true) := by
  refine ⟨⟨Fin 5, inferInstance, settling true, fun i ↦ sampleEnv i, sampleTenants, _,
    freshIds_settling true, rfl⟩, fun h ↦ ?_⟩
  have hpaid : ∃ c ∈ (settled true).customers.rows, c.is_overdue = true ∧ c.balance_cents = 0 := by
    decide +kernel
  obtain ⟨c, hc, hoverdue, hzero⟩ := hpaid
  exact (h c hc hoverdue).ne' hzero

end MicroErp.Guarantees
