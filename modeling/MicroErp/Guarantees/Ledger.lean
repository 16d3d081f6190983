import MicroErp.Commits.Runs
import MicroErp.Storage.Sums

/-!
# The ledger reconciles

Served one after the other, the requests keep every balance equal to the signed sum of the rows
that carry the customer, up to what the reversals cut off at zero.
-/

namespace MicroErp.Guarantees

open MicroErp.Commits MicroErp.Concurrency MicroErp.Database MicroErp.Services MicroErp.Storage

/-! ## Signs -/

/-- How transaction `id` counts in a ledger listed from its newest row to its oldest. -/
def signFrom : List Transaction.Core → Uuid → ℤ
  | [], _ => 0
  | r :: older, id =>
      if r.id = id then
        match r.type with
        | .DEBT | .INFLATION_ADJUSTMENT => 1
        | .PAYMENT | .FORGIVENESS => -1
        | .REVERSAL =>
            match r.reversed_transaction_id with
            | some target => -signFrom older target
            | none => 0
      else signFrom older id

def signOf (d : Db) (id : Uuid) : ℤ := signFrom d.cores.reverse id

theorem signFrom_append {id : Uuid} {newer older : List Transaction.Core}
    (h : ∀ r ∈ newer, r.id ≠ id) : signFrom (newer ++ older) id = signFrom older id := by
  induction newer with
  | nil => rfl
  | cons r newer ih =>
    rw [List.cons_append, signFrom, if_neg (h r List.mem_cons_self)]
    exact ih fun r' hr' ↦ h r' (List.mem_cons_of_mem _ hr')

/-- The sign of a row depends on the row and on older ones. -/
theorem exists_older {l : List Transaction.Core} (hnodup : (l.map (·.id)).Nodup)
    {r : Transaction.Core} (hr : r ∈ l) : ∃ older, signFrom l r.id = signFrom (r :: older) r.id := by
  obtain ⟨newer, older, rfl⟩ := List.append_of_mem hr
  refine ⟨older, signFrom_append fun r' hr' hid ↦ ?_⟩
  rw [List.map_append, List.nodup_append'] at hnodup
  exact hnodup.2.2 (List.mem_map_of_mem hr') (by simp [hid])

section Signs

variable {d : Db} {t : Transaction}

theorem nodup_ids (d : Db) : (d.cores.map (·.id)).Nodup := by
  unfold Db.cores
  rw [List.map_map]
  exact d.transactions.nodup

theorem signOf_of_mem (ht : t ∈ d.transactions.rows) :
    ∃ older, signOf d t.id = signFrom (t.toCore :: older) t.id := by
  refine exists_older ?_ (List.mem_reverse.2 (Db.mem_cores.2 ⟨t, ht, rfl⟩))
  rw [List.map_reverse]
  exact List.nodup_reverse.2 (nodup_ids d)

theorem signOf_debt (ht : t ∈ d.transactions.rows)
    (htype : t.type = .DEBT ∨ t.type = .INFLATION_ADJUSTMENT) : signOf d t.id = 1 := by
  obtain ⟨older, hsign⟩ := signOf_of_mem ht
  rcases htype with htype | htype <;> simp [hsign, signFrom, htype]

theorem signOf_payment (ht : t ∈ d.transactions.rows)
    (htype : t.type = .PAYMENT ∨ t.type = .FORGIVENESS) : signOf d t.id = -1 := by
  obtain ⟨older, hsign⟩ := signOf_of_mem ht
  rcases htype with htype | htype <;> simp [hsign, signFrom, htype]

end Signs

/-! ## The balance that the ledger gives -/

/-- The signed sum of the rows that carry a customer, with what was cut off at each of them. -/
def ledgerBalance (d : Db) (cut : Uuid → ℤ) (customerId : Uuid) : ℤ :=
  sumOf (fun t ↦ t.customer_id = customerId) (fun t ↦ signOf d t.id * t.amount_cents + cut t.id)
    d.transactions.rows

/-- What the floor at zero adds when the request reverses a transaction. -/
def cutOff (req : Request) (d : Db) : ℤ :=
  match req with
  | .reverseTransaction tenantId _ transactionId _ =>
      match d.transaction tenantId transactionId with
      | none => 0
      | some t =>
          match d.customers.find t.customer_id with
          | none => 0
          | some c => max 0 (if t.type = .DEBT ∨ t.type = .INFLATION_ADJUSTMENT
              then t.amount_cents - c.balance_cents else -c.balance_cents - t.amount_cents)
  | _ => 0

/-- Only a reversal that counts negative is itself reversed, and no customer is merged with
itself. -/
def Sensible (req : Request) (d : Db) : Prop :=
  match req with
  | .reverseTransaction tenantId _ transactionId _ =>
      ∀ t ∈ d.transaction tenantId transactionId, t.type = .REVERSAL → signOf d t.id = -1
  | .mergeCustomers _ dto => dto.primary_id.value ≠ dto.secondary_id.value
  | _ => True

section Serial

variable {ι : Type} (req : ι → Request) (env : ι → Env)

/-- Serve request `i` alone and note what it cut off at the row it may have written. -/
def settle (s : Db × (Uuid → ℤ)) (i : ι) : Db × (Uuid → ℤ) :=
  ((postgres.alone ((req i).script (env i)) [] s.1).2,
    Function.update s.2 ((env i).fresh 0) (cutOff (req i) s.1))

/-- Every request of the order is sensible when its turn comes. -/
def Orderly : List ι → Db → Prop
  | [], _ => True
  | i :: order, d =>
      Sensible (req i) d ∧ Orderly order (postgres.alone ((req i).script (env i)) [] d).2

end Serial

/-! ## The invariant -/

/-- Balances are what the ledger gives, every row has a customer of its tenant, and a reversal
counts opposite to the row it names. -/
structure Reconciled (d : Db) (cut : Uuid → ℤ) : Prop where
  balance : ∀ c ∈ d.customers.rows, c.balance_cents = ledgerBalance d cut c.id
  owner : ∀ t ∈ d.transactions.rows, ∃ c ∈ d.customers.rows,
    c.id = t.customer_id ∧ c.tenant_id = t.tenant_id
  reversal : ∀ t ∈ d.transactions.rows, t.type = .REVERSAL → ∃ target ∈ d.transactions.rows,
    t.reversed_transaction_id = some target.id ∧ signOf d t.id = -signOf d target.id

theorem reconciled_opened (tenants : Table Tenant) : Reconciled (Db.opened tenants) fun _ ↦ 0 where
  balance _ h := (List.not_mem_nil h).elim
  owner _ h := (List.not_mem_nil h).elim
  reversal _ h := (List.not_mem_nil h).elim

section Commit

variable {S : Setting} {req : Request} {env : Env} {lk : List (LockName × LockMode)} {d d' : Db}
  {e : Effect} {cut cut' : Uuid → ℤ}

theorem new_id_ne (hcommit : Commit S req env lk d d' e) {r t : Transaction} (hr : r ∈ e.rows)
    (ht : t ∈ d.transactions.rows) : r.id ≠ t.id :=
  fun hid ↦ Table.find_eq_none.1 (hcommit.vacant.id_free r hr) t ht hid.symm

/-- Appending rows leaves the signs of the others. -/
theorem signOf_commit (hcommit : Commit S req env lk d d' e) {t : Transaction}
    (ht : t ∈ d.transactions.rows) : signOf d' t.id = signOf d t.id := by
  unfold signOf
  rw [hcommit.cores, List.reverse_append]
  refine signFrom_append fun core hcore ↦ ?_
  obtain ⟨r, hr, rfl⟩ := List.mem_map.1 (List.mem_reverse.1 hcore)
  exact new_id_ne hcommit hr ht

/-- The old rows count as before, under the customer they now carry. -/
theorem ledgerBalance_commit (hcommit : Commit S req env lk d d' e)
    (hcut : ∀ t ∈ d.transactions.rows, cut' t.id = cut t.id) (id : Uuid) :
    ledgerBalance d' cut' id =
      sumOf (fun t ↦ (e.tweak t).customer_id = id)
        (fun t ↦ signOf d t.id * t.amount_cents + cut t.id) d.transactions.rows +
      sumOf (fun t ↦ t.customer_id = id)
        (fun t ↦ signOf d' t.id * t.amount_cents + cut' t.id) e.rows := by
  unfold ledgerBalance
  rw [hcommit.yields.transactions, sumOf_append, sumOf_map]
  congr 1
  refine sumOf_congr (fun _ _ ↦ Iff.rfl) fun t ht ↦ ?_
  have hcore := hcommit.changes.toCore_tweak t
  rw [show (e.tweak t).id = t.id from congrArg (·.id) hcore,
    show (e.tweak t).amount_cents = t.amount_cents from congrArg (·.amount_cents) hcore,
    signOf_commit hcommit ht, hcut t ht]

/-- A commit that moves no row and gains for each customer what its rows say. -/
theorem balance_commit (h : Reconciled d cut) (hcommit : Commit S req env lk d d' e)
    (hcut : ∀ t ∈ d.transactions.rows, cut' t.id = cut t.id)
    (htweak : ∀ t ∈ d.transactions.rows, (e.tweak t).customer_id = t.customer_id)
    (hgain : ∀ c ∈ d.customers.rows, (e.customer c).balance_cents = c.balance_cents +
      sumOf (fun t ↦ t.customer_id = c.id)
        (fun t ↦ signOf d' t.id * t.amount_cents + cut' t.id) e.rows)
    (hnew : ∀ c ∈ e.customers, c.balance_cents = 0 ∧ e.rows = []) :
    ∀ c ∈ d'.customers.rows, c.balance_cents = ledgerBalance d' cut' c.id := by
  have hold : ∀ id, sumOf (fun t ↦ (e.tweak t).customer_id = id)
      (fun t ↦ signOf d t.id * t.amount_cents + cut t.id) d.transactions.rows =
        ledgerBalance d cut id := fun id ↦
    sumOf_congr (fun t ht ↦ by rw [htweak t ht]) fun _ _ ↦ rfl
  intro c hc
  rw [ledgerBalance_commit hcommit hcut, hold]
  rw [hcommit.yields.customers, List.mem_append] at hc
  rcases hc with hc | hc
  · obtain ⟨x, hx, rfl⟩ := List.mem_map.1 hc
    have hid : (e.customer x).id = x.id := congrArg Prod.fst (hcommit.changes.fixed_customer hx)
    rw [hid, hgain x hx, h.balance x hx]
  · obtain ⟨hzero, hrows⟩ := hnew c hc
    -- no row carries a customer that is only now created
    have hnone : ledgerBalance d cut c.id = 0 := by
      refine sumOf_eq_zero fun t ht hcustomer ↦ ?_
      obtain ⟨owner, howner, hid, -⟩ := h.owner t ht
      have hnodup := d'.customers.nodup
      rw [hcommit.yields.customers, List.map_append, List.nodup_append'] at hnodup
      refine hnodup.2.2 (List.mem_map_of_mem (List.mem_map_of_mem howner)) ?_
      rw [show Keyed.key (e.customer owner) = c.id from
        (congrArg Prod.fst (hcommit.changes.fixed_customer howner)).trans (hid.trans hcustomer)]
      exact List.mem_map_of_mem hc
    rw [hnone, hzero, hrows, sumOf_nil, add_zero]

/-- The balance that a posting sets is the gain of the held customer. -/
theorem gain_posting {held : Customer} {rows : List Transaction} {balance : ℤ}
    {f : Transaction → ℤ} (hheld : d.customers.find held.id = some held)
    (hrows : ∀ r ∈ rows, r.customer_id = held.id)
    (hsum : sumOf (fun t ↦ t.customer_id = held.id) f rows = balance - held.balance_cents)
    {c : Customer} (hc : c ∈ d.customers.rows) :
    (setCustomer { held with balance_cents := balance } c).balance_cents =
      c.balance_cents + sumOf (fun t ↦ t.customer_id = c.id) f rows := by
  unfold setCustomer
  by_cases hid : c.id = held.id
  · obtain rfl := Db.eq_of_find_customer hheld hc hid
    rw [if_pos rfl, hsum]
    simp only
    ring
  · rw [if_neg hid, sumOf_eq_zero fun r hr hcustomer ↦ hid (hcustomer.symm.trans (hrows r hr)),
      add_zero]

theorem sumOf_singleton {r : Transaction} {id : Uuid} {f : Transaction → ℤ}
    (hr : r.customer_id = id) : sumOf (fun t ↦ t.customer_id = id) f [r] = f r := by
  rw [sumOf_cons, if_pos hr, sumOf_nil, add_zero]

theorem sum_posts {c : Customer} {rows : List Transaction} {balance : ℤ}
    (hposts : Posts env c req rows balance) (hrows : ∀ r ∈ rows, r ∈ d'.transactions.rows)
    (hcut : ∀ n, cut' (env.fresh n) = 0) :
    sumOf (fun t ↦ t.customer_id = c.id) (fun t ↦ signOf d' t.id * t.amount_cents + cut' t.id)
      rows = balance - c.balance_cents := by
  cases hposts with
  | @debt tenantId userId dto hid =>
    rw [sumOf_singleton hid.symm, signOf_debt (hrows _ List.mem_cons_self) (Or.inl rfl),
      show cut' (debtRow env tenantId userId dto).id = 0 from hcut 0]
    simp only [debtRow, newTransaction]
    ring
  | @payment tenantId userId dto hid =>
    rw [sumOf_singleton hid.symm, signOf_payment (hrows _ List.mem_cons_self) (Or.inl rfl),
      show cut' (paymentRow env tenantId userId dto _).id = 0 from hcut 0]
    simp only [paymentRow, newTransaction]
    ring
  | @mixed tenantId userId dto hid htotal =>
    have hcash : (cashRow env tenantId userId dto
        (effectiveShares dto c.balance_cents).1).customer_id = c.id := hid.symm
    have htransfer := hrows _ (List.mem_cons_of_mem _ List.mem_cons_self)
    rw [sumOf_cons, if_pos hcash, sumOf_singleton hid.symm,
      signOf_payment (hrows _ List.mem_cons_self) (Or.inl rfl),
      signOf_payment htransfer (Or.inl rfl),
      show cut' (cashRow env tenantId userId dto _).id = 0 from hcut 1,
      show cut' (transferRow env tenantId userId dto _).id = 0 from hcut 2]
    have hshares := effectiveShares_add htotal c.balance_cents
    simp only [cashRow, transferRow, newTransaction]
    omega
  | @forgiveness tenantId userId dto hid =>
    rw [sumOf_singleton hid.symm, signOf_payment (hrows _ List.mem_cons_self) (Or.inr rfl),
      show cut' (forgivenessRow env tenantId userId dto _).id = 0 from hcut 0]
    simp only [forgivenessRow, newTransaction]
    ring

theorem gain_adjusted {tenantId userId : Uuid} {dto : InflationAdjustmentDto}
    {adjusted : List (Customer × Transaction)}
    (hadjusts : Adjusts env tenantId userId dto 0 adjusted)
    (hdistinct : (adjusted.map fun x ↦ x.1.id).Nodup)
    (hheld : ∀ x ∈ adjusted, d.customers.find x.1.id = some x.1)
    (hrows : ∀ x ∈ adjusted, x.2 ∈ d'.transactions.rows) (hcut : ∀ n, cut' (env.fresh n) = 0)
    {c : Customer} (hc : c ∈ d.customers.rows) :
    (adjustCustomer dto (adjusted.map Prod.fst) c).balance_cents = c.balance_cents +
      sumOf (fun t ↦ t.customer_id = c.id)
        (fun t ↦ signOf d' t.id * t.amount_cents + cut' t.id) (adjusted.map Prod.snd) := by
  have hsum : sumOf (fun t ↦ t.customer_id = c.id)
      (fun t ↦ signOf d' t.id * t.amount_cents + cut' t.id) (adjusted.map Prod.snd) =
        sumOf (fun x ↦ x.1.id = c.id) (fun x ↦ adjustmentOf dto x.1.balance_cents) adjusted := by
    rw [sumOf_map]
    refine sumOf_congr (fun x hx ↦ ?_) fun x hx ↦ ?_
    · obtain ⟨-, n, hn⟩ := hadjusts.of_mem hx
      rw [hn]
      exact Iff.rfl
    · obtain ⟨-, n, hn⟩ := hadjusts.of_mem hx
      rw [signOf_debt (hrows x hx) (by rw [hn]; exact Or.inr rfl), hn,
        show cut' (adjustmentRow env tenantId userId dto n x.1).id = 0 from hcut (2 * n)]
      simp only [adjustmentRow, newTransaction]
      ring
  rw [hsum]
  unfold adjustCustomer
  by_cases hmem : c ∈ adjusted.map Prod.fst
  · rw [if_pos hmem]
    obtain ⟨x, hx, rfl⟩ := List.mem_map.1 hmem
    rw [sumOf_key hdistinct hx]
  · rw [if_neg hmem, sumOf_eq_zero, add_zero]
    intro x hx hid
    exact hmem (List.mem_map.2 ⟨x, hx, (Db.eq_of_find_customer (hheld x hx) hc hid.symm).symm⟩)

/-- Alone, only a merge gives a row to another customer, which it holds. -/
theorem customer_id_tweak (h : Changes S env lk d req e) (hS : S.exclusive) {t : Transaction}
    (ht : t ∈ d.transactions.rows) : (e.tweak t).customer_id = t.customer_id ∨
      (∃ tenantId dto, req = .mergeCustomers tenantId dto) ∧
        ∃ c, Holds d lk t.tenant_id c ∧ c.id = (e.tweak t).customer_id := by
  cases h with
  | reverse _ _ _ _ _ _ _ _ _ hexact =>
    left
    obtain ⟨-, rfl⟩ := hexact (Or.inl hS)
    simp only
    split
    · simp only [Transaction.saved, savedColumn_self]
    · rfl
  | @merge tenantId dto primary secondary moved hprimary _ _ _ hmoved =>
    by_cases hid : t.id ∈ moved
    · right
      refine ⟨⟨tenantId, dto, rfl⟩, primary, ?_, by simp only [if_pos hid]⟩
      rw [(hmoved t ht hid).2]
      exact hprimary
    · left
      simp only [if_neg hid]
  | close =>
    left
    simp only
    split <;> rfl
  | _ => exact Or.inl rfl

/-- A `REVERSAL` row comes alone and names a committed row. -/
theorem reversal_row (h : Changes S env lk d req e) (hS : S.exclusive) {r : Transaction}
    (hr : r ∈ e.rows) (htype : r.type = .REVERSAL) :
    e.rows = [r] ∧ ∃ t ∈ d.transactions.rows, r.reversed_transaction_id = some t.id := by
  cases h with
  | post _ _ hposts =>
    exfalso
    cases hposts with
    | mixed =>
      rcases List.mem_cons.1 hr with rfl | hr
      · cases htype
      · obtain rfl := List.mem_singleton.1 hr
        cases htype
    | _ =>
      obtain rfl := List.mem_singleton.1 hr
      cases htype
  | reverse _ _ _ _ _ _ _ _ _ hexact =>
    obtain rfl := List.mem_singleton.1 hr
    exact ⟨rfl, _, (hexact (Or.inl hS)).1, rfl⟩
  | inflate hadjusts =>
    obtain ⟨x, hx, rfl⟩ := List.mem_map.1 hr
    obtain ⟨-, n, hn⟩ := hadjusts.of_mem hx
    rw [hn] at htype
    cases htype
  | _ => cases hr

theorem signOf_reversal (hcommit : Commit S req env lk d d' e) {r : Transaction}
    (hrows : e.rows = [r]) (htype : r.type = .REVERSAL) {target : Uuid}
    (htarget : r.reversed_transaction_id = some target) : signOf d' r.id = -signOf d target := by
  unfold signOf
  rw [hcommit.cores, hrows]
  simp [signFrom, htype, htarget]

/-- What a reversal gains its customer. -/
theorem gain_reversal {tenantId userId transactionId : Uuid} {dto : ReverseTransactionDto}
    {original : Transaction} {c : Customer} (hmem : original ∈ d.transactions.rows)
    (hid : original.id = transactionId) (htenant : original.tenant_id = tenantId)
    (hc : d.customers.find original.customer_id = some c)
    (hsensible : Sensible (.reverseTransaction tenantId userId transactionId dto) d) :
    -signOf d original.id * original.amount_cents +
        cutOff (.reverseTransaction tenantId userId transactionId dto) d =
      balanceAfterReversal original.type original.amount_cents c.balance_cents -
        c.balance_cents := by
  have hfound : d.transaction tenantId transactionId = some original :=
    Option.filter_eq_some_iff.2 ⟨Table.find_eq_some.2 ⟨hmem, hid⟩, by simpa using htenant⟩
  simp only [cutOff, hfound, hc, balanceAfterReversal]
  by_cases hdebt : original.type = .DEBT ∨ original.type = .INFLATION_ADJUSTMENT
  · rw [if_pos hdebt, if_pos hdebt, signOf_debt hmem hdebt]
    omega
  · have hsign : signOf d original.id = -1 := by
      cases htype : original.type with
      | DEBT => exact (hdebt (Or.inl htype)).elim
      | INFLATION_ADJUSTMENT => exact (hdebt (Or.inr htype)).elim
      | PAYMENT => exact signOf_payment hmem (Or.inl htype)
      | FORGIVENESS => exact signOf_payment hmem (Or.inr htype)
      | REVERSAL => exact hsensible original hfound htype
    rw [if_neg hdebt, if_neg hdebt, hsign]
    omega

/-- The customers after a merge of two different ones. -/
theorem merge_customer {primary secondary : Customer} (hne : primary.id ≠ secondary.id)
    (x : Customer) :
    setCustomer (absorbed secondary) (setCustomer (mergedPrimary primary secondary) x) =
      if x.id = secondary.id then absorbed secondary
      else if x.id = primary.id then mergedPrimary primary secondary else x := by
  by_cases hp : x.id = primary.id
  · have hs : ¬x.id = secondary.id := fun heq ↦ hne (hp.symm.trans heq)
    simp [setCustomer, absorbed, mergedPrimary, hp, hne]
  · simp [setCustomer, absorbed, mergedPrimary, hp]

/-- A merge gives the primary customer the rows and the balance of the secondary one. -/
theorem balance_merge (h : Reconciled d cut) {tenantId : Uuid} {dto : MergeCustomersDto}
    {primary secondary : Customer} {moved : List Uuid}
    (hcommit : Commit S (.mergeCustomers tenantId dto) env lk d d'
      { Effect.none with
        tweak := fun t ↦ if t.id ∈ moved then { t with customer_id := primary.id } else t
        customer :=
          setCustomer (absorbed secondary) ∘ setCustomer (mergedPrimary primary secondary) })
    (hcut : ∀ t ∈ d.transactions.rows, cut' t.id = cut t.id)
    (hprimary : d.customers.find primary.id = some primary)
    (hsecondary : d.customers.find secondary.id = some secondary)
    (hne : primary.id ≠ secondary.id)
    (hmoved : ∀ t ∈ d.transactions.rows, t.id ∈ moved ↔ t.customer_id = secondary.id) :
    ∀ c ∈ d'.customers.rows, c.balance_cents = ledgerBalance d' cut' c.id := by
  intro c hc
  have hp := h.balance primary (Table.find_eq_some.1 hprimary).1
  have hs := h.balance secondary (Table.find_eq_some.1 hsecondary).1
  rw [ledgerBalance_commit hcommit hcut]
  rw [hcommit.yields.customers] at hc
  simp only [Effect.none, List.append_nil, List.mem_map, Function.comp_apply] at hc
  obtain ⟨x, hx, rfl⟩ := hc
  have hcarried : ∀ id, ∀ t ∈ d.transactions.rows,
      (if t.id ∈ moved then { t with customer_id := primary.id } else t).customer_id = id ↔
        (if t.customer_id = secondary.id then primary.id else t.customer_id) = id := by
    intro id t ht
    simp only [hmoved t ht]
    split <;> rfl
  simp only [Effect.none, sumOf_nil, add_zero]
  rw [sumOf_congr (hcarried _) fun _ _ ↦ rfl]
  by_cases hxs : x.id = secondary.id
  · obtain rfl := Db.eq_of_find_customer hsecondary hx hxs
    rw [merge_customer hne, if_pos rfl]
    refine (sumOf_eq_zero fun t _ heq ↦ ?_).symm
    split at heq
    · exact hne heq
    · contradiction
  · by_cases hxp : x.id = primary.id
    · obtain rfl := Db.eq_of_find_customer hprimary hx hxp
      rw [merge_customer hne, if_neg hxs, if_pos rfl]
      refine Eq.trans ?_ (sumOf_congr (p := fun t ↦ t.customer_id = x.id ∨
        t.customer_id = secondary.id) (fun t _ ↦ ?_) fun _ _ ↦ rfl)
      · rw [sumOf_or fun t _ hboth ↦ hne (hboth.1.symm.trans hboth.2)]
        exact congrArg₂ (· + ·) hp hs
      · split
        · rename_i heq
          simp [heq, mergedPrimary]
        · rename_i heq
          simp [heq, mergedPrimary]
    · rw [merge_customer hne, if_neg hxs, if_neg hxp, h.balance x hx]
      refine sumOf_congr (fun t _ ↦ ?_) fun _ _ ↦ rfl
      split
      · rename_i heq
        exact ⟨fun hx' ↦ (hxs (hx'.symm.trans heq)).elim, fun hx' ↦ (hxp hx'.symm).elim⟩
      · exact Iff.rfl

/-- Only a reversal cuts anything off. -/
theorem cutOff_eq_zero (h : ∀ tenantId userId transactionId dto,
    req ≠ .reverseTransaction tenantId userId transactionId dto) : cutOff req d = 0 := by
  cases req with
  | reverseTransaction => exact (h _ _ _ _ rfl).elim
  | _ => rfl

theorem balance_settled (h : Reconciled d cut) (hcommit : Commit S req env lk d d' e)
    (hS : S.exclusive) (hsensible : Sensible req d) (hunused : env.Unused d)
    (hfresh : ∀ n, cut (env.fresh n) = 0)
    (hcut' : cut' = Function.update cut (env.fresh 0) (cutOff req d)) :
    ∀ c ∈ d'.customers.rows, c.balance_cents = ledgerBalance d' cut' c.id := by
  have hcut : ∀ t ∈ d.transactions.rows, cut' t.id = cut t.id := fun t ht ↦ by
    rw [hcut', Function.update_of_ne (hunused t ht 0).1]
  have hkept : (∀ tenantId userId transactionId dto,
      req ≠ .reverseTransaction tenantId userId transactionId dto) →
        ∀ n, cut' (env.fresh n) = 0 := fun hreq n ↦ by
    have hsame : cut' = cut := by
      rw [hcut', cutOff_eq_zero hreq, ← hfresh 0, Function.update_eq_self]
    rw [hsame, hfresh]
  have hrows : ∀ r ∈ e.rows, r ∈ d'.transactions.rows := fun r hr ↦ by
    rw [hcommit.yields.transactions]
    exact List.mem_append_right _ hr
  have hmove : (∀ tenantId dto, req ≠ .mergeCustomers tenantId dto) →
      ∀ t ∈ d.transactions.rows, (e.tweak t).customer_id = t.customer_id := fun hreq t ht ↦
    (customer_id_tweak hcommit.changes hS ht).resolve_right fun ⟨⟨_, _, heq⟩, _⟩ ↦ hreq _ _ heq
  have hchanges := hcommit.changes
  cases hchanges with
  | @post _ tenantId key held rows balance hkey hheld hposts =>
    have hreq : ∀ tenantId userId transactionId dto,
        req ≠ .reverseTransaction tenantId userId transactionId dto := by
      rintro _ _ _ _ rfl
      cases hposts
    refine balance_commit h hcommit hcut (hmove ?_) (fun c hc ↦ ?_) fun c hc ↦ by cases hc
    · rintro _ _ rfl
      cases hposts
    · exact gain_posting hheld.1 (fun r hr ↦ (hposts.owner hkey hr).1)
        (sum_posts hposts hrows (hkept hreq)) hc
  | @reverse tenantId userId transactionId dto original reread held hid htenant _ hheld hcustomer
      _ _ _ _ hexact =>
    refine balance_commit h hcommit hcut (hmove fun _ _ heq ↦ by cases heq) (fun c hc ↦ ?_) fun c hc ↦ by cases hc
    refine gain_posting hheld.1 (fun r hr ↦ ?_) ?_ hc
    · obtain rfl := List.mem_singleton.1 hr
      exact hcustomer.symm
    · have hmem := (hexact (Or.inl hS)).1
      have hnew : cut' (reversalRow env tenantId userId dto original).id =
          cutOff (.reverseTransaction tenantId userId transactionId dto) d := by
        rw [hcut']
        exact Function.update_self ..
      have hgain := gain_reversal hmem hid htenant (hcustomer ▸ hheld.1) hsensible
      rw [← hnew, ← signOf_reversal hcommit (r := reversalRow env tenantId userId dto original)
        rfl rfl rfl] at hgain
      exact (sumOf_singleton (r := reversalRow env tenantId userId dto original)
        hcustomer.symm).trans hgain
  | @inflate tenantId userId dto adjusted debtors total hadjusts hdistinct hholds =>
    refine balance_commit h hcommit hcut (hmove fun _ _ heq ↦ by cases heq) (fun c hc ↦ ?_) fun c hc ↦ by cases hc
    exact gain_adjusted hadjusts hdistinct (fun x hx ↦ (hholds x hx).1)
      (fun x hx ↦ hrows _ (List.mem_map_of_mem hx)) (hkept fun _ _ _ _ heq ↦ by cases heq) hc
  | @merge tenantId dto primary secondary moved hprimary hsecondary hpid hsid hmoved hall =>
    have hne : primary.id ≠ secondary.id := by
      rw [hpid, hsid]
      exact hsensible
    refine balance_merge h hcommit hcut hprimary.1 hsecondary.1 hne fun t ht ↦ ?_
    refine ⟨fun hid ↦ (hmoved t ht hid).1, fun hcustomer ↦ hall (Or.inl hS) t ht hcustomer ?_⟩
    obtain ⟨owner, howner, hid, htenant⟩ := h.owner t ht
    obtain rfl := Db.eq_of_find_customer hsecondary.1 howner (hid.trans hcustomer)
    exact htenant.symm.trans hsecondary.2.1
  | limit hheld =>
    refine balance_commit h hcommit hcut (hmove fun _ _ heq ↦ by cases heq) (fun c hc ↦ ?_) fun c hc ↦ by cases hc
    simp only [Effect.none, sumOf_nil, add_zero, setCustomer]
    split
    · rename_i hid
      rw [Db.eq_of_find_customer hheld.1 hc hid]
    · rfl
  | edit hedit _ _ _ hmoney =>
    refine balance_commit h hcommit hcut (hmove ?_) (fun c hc ↦ ?_) fun c hc ↦ by cases hc
    · rintro _ _ rfl
      exact hedit
    · simp only [Effect.none, sumOf_nil, add_zero]
      split
      · simp only [Customer.saved, (hmoney (Or.inl hS)).1, savedColumn_self]
      · rfl
  | create =>
    refine balance_commit h hcommit hcut (hmove fun _ _ heq ↦ by cases heq) (fun c hc ↦ ?_) fun c hc ↦ ?_
    · simp only [Effect.none, sumOf_nil, add_zero, id]
    · obtain rfl := List.mem_singleton.1 hc
      exact ⟨rfl, rfl⟩
  | aside haside =>
    refine balance_commit h hcommit hcut (hmove ?_) (fun c hc ↦ ?_) fun c hc ↦ by cases hc
    · rintro _ _ rfl
      exact haside
    · simp only [Effect.none, sumOf_nil, add_zero, id]
  | @flag _ flag flagged hflag =>
    refine balance_commit h hcommit hcut (hmove ?_) (fun c hc ↦ ?_) fun c hc ↦ by cases hc
    · rintro _ _ rfl
      exact hflag
    · simp only [flagging, Effect.none, sumOf_nil, add_zero]
      split
      · cases flag <;> rfl
      · rfl
  | close =>
    refine balance_commit h hcommit hcut (hmove fun _ _ heq ↦ by cases heq) (fun c hc ↦ ?_) fun c hc ↦ by cases hc
    simp only [Effect.none, sumOf_nil, add_zero, id]

/-- Every row still has a customer of its tenant. -/
theorem owner_commit (howner : ∀ t ∈ d.transactions.rows, ∃ c ∈ d.customers.rows,
      c.id = t.customer_id ∧ c.tenant_id = t.tenant_id) (hcommit : Commit S req env lk d d' e)
    (hS : S.exclusive) : ∀ t ∈ d'.transactions.rows, ∃ c ∈ d'.customers.rows,
      c.id = t.customer_id ∧ c.tenant_id = t.tenant_id := by
  have hkept : ∀ c ∈ d.customers.rows, ∃ c' ∈ d'.customers.rows,
      c'.id = c.id ∧ c'.tenant_id = c.tenant_id := fun c hc ↦ by
    have hfixed := hcommit.changes.fixed_customer hc
    refine ⟨e.customer c, ?_, congrArg Prod.fst hfixed, congrArg (·.2.1) hfixed⟩
    rw [hcommit.yields.customers]
    exact List.mem_append_left _ (List.mem_map_of_mem hc)
  have hheld : ∀ {tenantId id : Uuid}, (∃ c, Holds d lk tenantId c ∧ c.id = id) →
      ∃ c' ∈ d'.customers.rows, c'.id = id ∧ c'.tenant_id = tenantId := by
    rintro tenantId id ⟨c, hc, rfl⟩
    obtain ⟨c', hc', hid, htenant⟩ := hkept c (Table.find_eq_some.1 hc.1).1
    exact ⟨c', hc', hid, htenant.trans hc.2.1⟩
  intro t ht
  rw [hcommit.yields.transactions, List.mem_append] at ht
  rcases ht with ht | ht
  · obtain ⟨t, htd, rfl⟩ := List.mem_map.1 ht
    rw [show (e.tweak t).tenant_id = t.tenant_id from
      congrArg (·.tenant_id) (hcommit.changes.toCore_tweak t)]
    rcases customer_id_tweak hcommit.changes hS htd with hsame | ⟨-, hmoved⟩
    · obtain ⟨c, hc, hid, htenant⟩ := howner t htd
      obtain ⟨c', hc', hid', htenant'⟩ := hkept c hc
      exact ⟨c', hc', hid'.trans (hid.trans hsame.symm), htenant'.trans htenant⟩
    · exact hheld hmoved
  · exact hheld (hcommit.changes.holds_rows ht)

theorem reversal_commit (h : Reconciled d cut) (hcommit : Commit S req env lk d d' e)
    (hS : S.exclusive) : ∀ t ∈ d'.transactions.rows, t.type = .REVERSAL →
      ∃ target ∈ d'.transactions.rows,
        t.reversed_transaction_id = some target.id ∧ signOf d' t.id = -signOf d' target.id := by
  intro t ht htype
  have hid : ∀ t, (e.tweak t).id = t.id := fun t ↦
    congrArg (·.id) (hcommit.changes.toCore_tweak t)
  rw [hcommit.yields.transactions, List.mem_append] at ht
  rcases ht with ht | ht
  · obtain ⟨t, htd, rfl⟩ := List.mem_map.1 ht
    have hcore := hcommit.changes.toCore_tweak t
    obtain ⟨target, htarget, hnamed, hsign⟩ := h.reversal t htd
      ((congrArg (·.type) hcore).symm.trans htype)
    refine ⟨e.tweak target, hcommit.mem_transactions htarget, ?_, ?_⟩
    · rw [hid]
      exact (congrArg (·.reversed_transaction_id) hcore).trans hnamed
    · rw [hid, hid, signOf_commit hcommit htd, signOf_commit hcommit htarget, hsign]
  · obtain ⟨hrows, target, htarget, hnamed⟩ := reversal_row hcommit.changes hS ht htype
    refine ⟨e.tweak target, hcommit.mem_transactions htarget, by rw [hid, hnamed], ?_⟩
    rw [hid, signOf_reversal hcommit hrows htype hnamed, signOf_commit hcommit htarget]

theorem Reconciled.commit (h : Reconciled d cut) (hcommit : Commit S req env lk d d' e)
    (hS : S.exclusive) (hsensible : Sensible req d) (hunused : env.Unused d)
    (hfresh : ∀ n, cut (env.fresh n) = 0) :
    Reconciled d' (Function.update cut (env.fresh 0) (cutOff req d)) where
  balance := balance_settled h hcommit hS hsensible hunused hfresh rfl
  owner := owner_commit h.owner hcommit hS
  reversal := reversal_commit h hcommit hS

/-- A note under an identifier that no row has changes nothing. -/
theorem Reconciled.idle (h : Reconciled d cut) (hunused : env.Unused d) (x : ℤ) :
    Reconciled d (Function.update cut (env.fresh 0) x) where
  balance c hc := by
    rw [h.balance c hc]
    refine sumOf_congr (fun _ _ ↦ Iff.rfl) fun t ht ↦ ?_
    rw [Function.update_of_ne (hunused t ht 0).1]
  owner := h.owner
  reversal := h.reversal

end Commit

/-! ## Runs -/

section Runs

variable {ι : Type} {req : ι → Request} {env : ι → Env}

/-- Nothing assumed but that the request is alone. -/
def aloneSetting : Setting :=
  { Setting.plain with exclusive := True, fresh := False }

theorem suits_alone (req : Request) (env : Env) (d : Db) : Suits aloneSetting req env d :=
  ⟨False.elim, False.elim, False.elim, False.elim, False.elim, fun _ h ↦ by cases h⟩

theorem allow_alone (req : Request) (env : Env) (o : Sql) (v : Db) :
    aloneSetting.allow req env o v := by
  cases o <;> simp [Setting.allow, aloneSetting, Setting.plain]

theorem Reconciled.next {d : Db} {cut : Uuid → ℤ} {i : ι} (h : Reconciled d cut)
    (hsensible : Sensible (req i) d) (hunused : (env i).Unused d)
    (hfresh : ∀ n, cut ((env i).fresh n) = 0) :
    Reconciled (settle req env (d, cut) i).1 (settle req env (d, cut) i).2 := by
  unfold settle
  rcases hrun : postgres.alone ((req i).script (env i)) [] d with ⟨out, d'⟩
  rcases (alone_contract (suits_alone _ _ d) (allow_alone _ _) hrun).1 with rfl | ⟨lk, e, hcommit⟩
  · exact h.idle hunused _
  · exact h.commit hcommit trivial hsensible hunused hfresh

theorem Reconciled.run (hids : FreshIds req env) {order : List ι} :
    ∀ {d : Db} {cut : Uuid → ℤ}, order.Nodup → Reconciled d cut → d.WellFormed →
      (∀ i ∈ order, (env i).Unused d ∧ ∀ n, cut ((env i).fresh n) = 0) →
        Orderly req env order d →
          Reconciled (order.foldl (settle req env) (d, cut)).1
            (order.foldl (settle req env) (d, cut)).2 := by
  induction order with
  | nil => exact fun _ h _ _ _ ↦ h
  | cons i order ih =>
    intro d cut hnodup h hwf hnew horderly
    obtain ⟨hi, hnodup⟩ := List.nodup_cons.1 hnodup
    obtain ⟨hunused, hfresh⟩ := hnew i List.mem_cons_self
    obtain ⟨hwf', hothers⟩ := unused_alone (i := i) hids hwf hunused rfl
    refine ih hnodup (h.next horderly.1 hunused hfresh) hwf' (fun j hj ↦ ?_) horderly.2
    have hij : i ≠ j := fun heq ↦ hi (heq ▸ hj)
    obtain ⟨hunusedj, hfreshj⟩ := hnew j (List.mem_cons_of_mem _ hj)
    refine ⟨hothers j hij hunusedj, fun n ↦ ?_⟩
    have hne : (env j).fresh n ≠ (env i).fresh 0 := fun heq ↦ hij (hids.distinct j i n 0 heq).1.symm
    exact (Function.update_of_ne hne _ _).trans (hfreshj n)

/-- Requests served one after the other keep every balance equal to the signed sum of the rows
that carry the customer, with what the reversals cut off at zero. -/
theorem ledger_reconciles (hids : FreshIds req env) (tenants : Table Tenant) {order : List ι}
    (hnodup : order.Nodup) (horderly : Orderly req env order (Db.opened tenants)) :
    let s := order.foldl (settle req env) (Db.opened tenants, fun _ ↦ 0)
    (∀ c ∈ s.1.customers.rows, c.balance_cents = ledgerBalance s.1 s.2 c.id) ∧
      ∀ t ∈ s.1.transactions.rows, t.type = .REVERSAL → ∃ target ∈ s.1.transactions.rows,
        t.reversed_transaction_id = some target.id ∧ signOf s.1 t.id = -signOf s.1 target.id := by
  have h := Reconciled.run hids hnodup (reconciled_opened tenants) (wellFormed_opened tenants)
    (fun i _ ↦ ⟨unused_opened (env i) tenants, fun _ ↦ rfl⟩) horderly
  exact ⟨h.balance, h.reversal⟩

end Runs

/-! ## A debt reversed after a payment -/

/-- Ana pays 60 of a debt of 100, and then the debt is reversed. -/
def overpaying : Fin 4 → Request
  | 0 => .createCustomer 1 ana
  | 1 => .registerDebt 1 2 (debtOf100 100 11)
  | 2 => .registerPayment 1 2 (paymentOf60 100 12)
  | 3 => .reverseTransaction 1 2 101 (reversalUnder 13)

theorem freshIds_overpaying : FreshIds overpaying fun i ↦ sampleEnv i :=
  freshIds_sample Fin.val_injective (by decide) (by decide)

/-- The balance stops at zero, and the signed sum of the rows is -60. -/
theorem ledger_cut_off :
    let s := [0, 1, 2, 3].foldl (settle overpaying fun i ↦ sampleEnv i)
      (Db.opened sampleTenants, fun _ ↦ 0)
    s.1.customers.rows.map (fun c ↦ (c.id, c.balance_cents)) = [(100, 0)] ∧
      ledgerBalance s.1 (fun _ ↦ 0) 100 = -60 := by
  decide +kernel

theorem ledger_reconciles_overpaying :
    let s := [0, 1, 2, 3].foldl (settle overpaying fun i ↦ sampleEnv i)
      (Db.opened sampleTenants, fun _ ↦ 0)
    (∀ c ∈ s.1.customers.rows, c.balance_cents = ledgerBalance s.1 s.2 c.id) ∧
      ∀ t ∈ s.1.transactions.rows, t.type = .REVERSAL → ∃ target ∈ s.1.transactions.rows,
        t.reversed_transaction_id = some target.id ∧ signOf s.1 t.id = -signOf s.1 target.id :=
  ledger_reconciles freshIds_overpaying sampleTenants (by decide)
    ⟨trivial, trivial, trivial, (show ∀ t ∈ Db.transaction _ 1 101, t.type = .REVERSAL →
      signOf _ t.id = -1 by decide +kernel), trivial⟩

end MicroErp.Guarantees
