import MicroErp.Guarantees.Ledger
import MicroErp.Concurrency.TwoPhase

/-!
# Two readings of the ledger

The whole ledger counts a reversal with the opposite sign of the row that it names; the reports
leave out the reversals and the rows that are marked as reversed.  A reversal of a reversal brings a
row back into the one and not into the other.
-/

namespace MicroErp.Guarantees

open MicroErp.Commits MicroErp.Concurrency MicroErp.Database MicroErp.Services MicroErp.Storage

/-- How a row counts in the reports. -/
def typeSign : TransactionType → ℤ
  | .DEBT => 1
  | .INFLATION_ADJUSTMENT => 1
  | .PAYMENT => -1
  | .FORGIVENESS => -1
  | .REVERSAL => 0

/-- The reports count the row. -/
def Reported (t : Transaction) : Prop := t.type ≠ .REVERSAL ∧ t.is_reversed = false

instance (t : Transaction) : Decidable (Reported t) := inferInstanceAs (Decidable (_ ∧ _))

/-- The signed sum over all rows that carry a customer. -/
def ledgerSum (d : Db) (customerId : Uuid) : ℤ :=
  sumOf (fun t ↦ t.customer_id = customerId) (fun t ↦ signOf d t.id * t.amount_cents)
    d.transactions.rows

/-- The signed sum over the rows of a customer that the reports count. -/
def reportedSum (d : Db) (customerId : Uuid) : ℤ :=
  sumOf (fun t ↦ t.customer_id = customerId ∧ Reported t) (fun t ↦ typeSign t.type * t.amount_cents)
    d.transactions.rows

/-- The request does not reverse a reversal. -/
def NamesNoReversal (req : Request) (d : Db) : Prop :=
  match req with
  | .reverseTransaction tenantId _ transactionId _ =>
      ∀ t ∈ d.transaction tenantId transactionId, t.type ≠ .REVERSAL
  | _ => True

/-- What a row adds to the whole ledger beyond what it adds to the reports. -/
def excess (d : Db) (t : Transaction) : ℤ :=
  signOf d t.id * t.amount_cents - if Reported t then typeSign t.type * t.amount_cents else 0

/-- Every row has a customer of its tenant, and the rows of a customer add as much to the whole
ledger as to the reports. -/
structure Agreeing (d : Db) : Prop where
  owner : ∀ t ∈ d.transactions.rows, ∃ c ∈ d.customers.rows,
    c.id = t.customer_id ∧ c.tenant_id = t.tenant_id
  excess : ∀ id, sumOf (fun t ↦ t.customer_id = id) (excess d) d.transactions.rows = 0

section Commit

variable {S : Setting} {req : Request} {env : Env} {lk : List (LockName × LockMode)} {d d' : Db}
  {e : Effect} {t r : Transaction}

theorem Agreeing.sums (h : Agreeing d) (id : Uuid) : ledgerSum d id = reportedSum d id := by
  have hsub : ledgerSum d id - reportedSum d id =
      sumOf (fun t ↦ t.customer_id = id) (Guarantees.excess d) d.transactions.rows :=
    sumOf_sub d.transactions.rows
  rw [h.excess id] at hsub
  exact sub_eq_zero.1 hsub

/-- A row that is not a reversal counts by its type. -/
theorem signOf_eq_typeSign (ht : t ∈ d.transactions.rows) (htype : t.type ≠ .REVERSAL) :
    signOf d t.id = typeSign t.type := by
  cases h : t.type with
  | DEBT => exact signOf_debt ht (Or.inl h)
  | INFLATION_ADJUSTMENT => exact signOf_debt ht (Or.inr h)
  | PAYMENT => exact signOf_payment ht (Or.inl h)
  | FORGIVENESS => exact signOf_payment ht (Or.inr h)
  | REVERSAL => exact (htype h).elim

theorem excess_of_reported (ht : t ∈ d.transactions.rows) (h : Reported t) : excess d t = 0 := by
  rw [excess, if_pos h, signOf_eq_typeSign ht h.1, sub_self]

/-- A row keeps its excess unless it is marked. -/
theorem excess_commit (hcommit : Commit S req env lk d d' e) (ht : t ∈ d.transactions.rows)
    (hreversed : (e.tweak t).is_reversed = t.is_reversed) : excess d' (e.tweak t) = excess d t := by
  have hcore := hcommit.changes.toCore_tweak t
  have hid : (e.tweak t).id = t.id := congrArg (·.id) hcore
  have htype : (e.tweak t).type = t.type := congrArg (·.type) hcore
  have hamount : (e.tweak t).amount_cents = t.amount_cents := congrArg (·.amount_cents) hcore
  have hreported : Reported (e.tweak t) ↔ Reported t := by
    unfold Reported
    rw [htype, hreversed]
  simp only [excess, hid, htype, hamount, hreported, signOf_commit hcommit ht]

theorem reported_row (h : Changes S env lk d req e) (hr : r ∈ e.rows)
    (hreq : ∀ tenantId userId transactionId dto,
      req ≠ .reverseTransaction tenantId userId transactionId dto) : Reported r := by
  cases h with
  | post _ _ hposts =>
    cases hposts with
    | mixed =>
      rcases List.mem_cons.1 hr with rfl | hr
      · exact ⟨(fun h ↦ by cases h), rfl⟩
      · obtain rfl := List.mem_singleton.1 hr
        exact ⟨(fun h ↦ by cases h), rfl⟩
    | _ =>
      obtain rfl := List.mem_singleton.1 hr
      exact ⟨(fun h ↦ by cases h), rfl⟩
  | reverse => exact (hreq _ _ _ _ rfl).elim
  | inflate hadjusts =>
    obtain ⟨x, hx, rfl⟩ := List.mem_map.1 hr
    obtain ⟨-, n, hn⟩ := hadjusts.of_mem hx
    rw [hn]
    exact ⟨(fun h ↦ by cases h), rfl⟩
  | _ => cases hr

theorem mem_of_row (hcommit : Commit S req env lk d d' e) (hr : r ∈ e.rows) :
    r ∈ d'.transactions.rows := by
  rw [hcommit.yields.transactions]
  exact List.mem_append_right _ hr

/-- The excess of the rows of a customer after a commit: of the old rows, and of the new ones. -/
theorem sum_excess_commit (hcommit : Commit S req env lk d d' e) (id : Uuid) :
    sumOf (fun t ↦ t.customer_id = id) (excess d') d'.transactions.rows =
      sumOf (fun t ↦ (e.tweak t).customer_id = id) (fun t ↦ excess d' (e.tweak t))
          d.transactions.rows +
        sumOf (fun t ↦ t.customer_id = id) (excess d') e.rows := by
  rw [hcommit.yields.transactions, sumOf_append, sumOf_map]

/-- A commit that neither marks nor moves a row and appends only rows that the reports count. -/
theorem agreeing_append (h : ∀ id, sumOf (fun t ↦ t.customer_id = id) (excess d) d.transactions.rows = 0)
    (hcommit : Commit S req env lk d d' e)
    (hkept : ∀ t ∈ d.transactions.rows,
      (e.tweak t).is_reversed = t.is_reversed ∧ (e.tweak t).customer_id = t.customer_id)
    (hrows : ∀ r ∈ e.rows, Reported r) (id : Uuid) :
    sumOf (fun t ↦ t.customer_id = id) (excess d') d'.transactions.rows = 0 := by
  have hold : sumOf (fun t ↦ (e.tweak t).customer_id = id) (fun t ↦ excess d' (e.tweak t))
      d.transactions.rows = 0 := by
    rw [← h id]
    refine sumOf_congr (fun t ht ↦ ?_) fun t ht ↦ excess_commit hcommit ht (hkept t ht).1
    rw [(hkept t ht).2]
  have hnew : sumOf (fun t ↦ t.customer_id = id) (excess d') e.rows =
      sumOf (fun t ↦ t.customer_id = id) (fun _ ↦ 0) e.rows :=
    sumOf_congr (fun _ _ ↦ Iff.rfl) fun r hr ↦
      excess_of_reported (mem_of_row hcommit hr) (hrows r hr)
  rw [sum_excess_commit hcommit, hold, hnew]
  simp [sumOf]

/-- A reversal of a row that the reports count takes it out of both readings. -/
theorem agreeing_reverse {tenantId userId transactionId : Uuid} {dto : ReverseTransactionDto}
    {original : Transaction} {c : Customer} {balance : ℤ}
    (h : ∀ id, sumOf (fun t ↦ t.customer_id = id) (excess d) d.transactions.rows = 0)
    (hcommit : Commit S (.reverseTransaction tenantId userId transactionId dto) env lk d d'
      { posting c [reversalRow env tenantId userId dto original] balance with
        tweak := fun t ↦ if t.id = transactionId then
          Transaction.saved { original with is_reversed := true } original t else t })
    (hmem : original ∈ d.transactions.rows) (hid : original.id = transactionId)
    (hreported : Reported original) (id : Uuid) :
    sumOf (fun t ↦ t.customer_id = id) (excess d') d'.transactions.rows = 0 := by
  let mark (t : Transaction) : Transaction := if t.id = transactionId then
    Transaction.saved { original with is_reversed := true } original t else t
  have hmark : mark original = { original with is_reversed := true } := by
    rw [show mark original = _ from if_pos hid]
    simp [Transaction.saved, savedColumn]
  have hother : ∀ t ∈ d.transactions.rows, t.id ≠ original.id → mark t = t :=
    fun t _ hne ↦ if_neg fun heq ↦ hne (heq.trans hid.symm)
  have heq : ∀ t ∈ d.transactions.rows, t.id = original.id → t = original := fun t ht heq ↦
    Option.some.inj ((Table.find_eq_some.2 ⟨ht, heq⟩).symm.trans (Table.find_eq_some.2 ⟨hmem, rfl⟩))
  have hcustomer : ∀ t ∈ d.transactions.rows, ((mark t).customer_id = id ↔ t.customer_id = id) := by
    intro t ht
    by_cases hne : t.id = original.id
    · rw [heq t ht hne, hmark]
    · rw [hother t ht hne]
  have hmarked : excess d' (mark original) = signOf d original.id * original.amount_cents := by
    rw [hmark, excess, if_neg fun h ↦ Bool.noConfusion h.2, sub_zero, signOf_commit hcommit hmem]
  have hold : sumOf (fun t ↦ (mark t).customer_id = id) (fun t ↦ excess d' (mark t))
      d.transactions.rows =
        if original.customer_id = id then signOf d original.id * original.amount_cents else 0 := by
    calc sumOf (fun t ↦ (mark t).customer_id = id) (fun t ↦ excess d' (mark t)) d.transactions.rows
        = sumOf (fun t ↦ t.customer_id = id) (fun t ↦ excess d' (mark t)) d.transactions.rows :=
          sumOf_congr hcustomer fun _ _ ↦ rfl
      _ = sumOf (fun t ↦ t.customer_id = id) (excess d) d.transactions.rows +
            if original.customer_id = id then excess d' (mark original) - excess d original
              else 0 := by
          refine sumOf_change d.transactions.nodup hmem fun t ht hne ↦ ?_
          refine excess_commit hcommit ht ?_
          exact congrArg (·.is_reversed) (hother t ht hne)
      _ = _ := by rw [h id, hmarked, excess_of_reported hmem hreported, sub_zero, zero_add]
  have hnew : sumOf (fun t ↦ t.customer_id = id) (excess d')
      [reversalRow env tenantId userId dto original] =
        if original.customer_id = id then -signOf d original.id * original.amount_cents else 0 := by
    have hsign : signOf d' (reversalRow env tenantId userId dto original).id =
        -signOf d original.id := signOf_reversal hcommit rfl rfl rfl
    have hrow : excess d' (reversalRow env tenantId userId dto original) =
        -signOf d original.id * original.amount_cents := by
      rw [excess, hsign, if_neg fun h ↦ h.1 rfl, sub_zero]
      rfl
    rw [sumOf_cons, sumOf_nil, add_zero, hrow]
    rfl
  have hsum := sum_excess_commit hcommit id
  rw [hsum]
  refine (congrArg₂ (· + ·) hold hnew).trans ?_
  split <;> ring

/-- A merge hands the rows of one customer over to another. -/
theorem agreeing_merge {tenantId : Uuid} {dto : MergeCustomersDto} {primary secondary : Customer}
    {moved : List Uuid} (h : Agreeing d)
    (hcommit : Commit S (.mergeCustomers tenantId dto) env lk d d'
      { Effect.none with
        tweak := fun t ↦ if t.id ∈ moved then { t with customer_id := primary.id } else t
        customer :=
          setCustomer (absorbed secondary) ∘ setCustomer (mergedPrimary primary secondary) })
    (hmoved : ∀ t ∈ d.transactions.rows, t.id ∈ moved ↔ t.customer_id = secondary.id) (id : Uuid) :
    sumOf (fun t ↦ t.customer_id = id) (excess d') d'.transactions.rows = 0 := by
  rw [sum_excess_commit hcommit]
  have hkept : ∀ t ∈ d.transactions.rows,
      excess d' (if t.id ∈ moved then { t with customer_id := primary.id } else t) = excess d t :=
    fun t ht ↦ excess_commit hcommit ht (by dsimp only; split <;> rfl)
  have hcarried : ∀ t ∈ d.transactions.rows,
      ((if t.id ∈ moved then { t with customer_id := primary.id } else t).customer_id = id ↔
        if t.customer_id = secondary.id then primary.id = id else t.customer_id = id) := by
    intro t ht
    simp only [hmoved t ht]
    split <;> rfl
  have hold : sumOf (fun t ↦ if t.customer_id = secondary.id then primary.id = id
      else t.customer_id = id) (excess d) d.transactions.rows = 0 := by
    by_cases hp : primary.id = id
    · by_cases hs : secondary.id = id
      · rw [← h.excess id]
        refine sumOf_congr (fun t _ ↦ ?_) fun _ _ ↦ rfl
        simp [hp, hs]
      · calc sumOf _ (excess d) d.transactions.rows
            = sumOf (fun t ↦ t.customer_id = secondary.id ∨ t.customer_id = id) (excess d)
                d.transactions.rows := by
              refine sumOf_congr (fun t _ ↦ ?_) fun _ _ ↦ rfl
              by_cases ht : t.customer_id = secondary.id <;> simp [ht, hp]
          _ = 0 := by
              rw [sumOf_or fun t _ hboth ↦ hs (hboth.1.symm.trans hboth.2), h.excess, h.excess,
                add_zero]
    · by_cases hs : secondary.id = id
      · refine sumOf_eq_zero fun t _ ht ↦ ?_
        split at ht
        · exact hp ht
        · rename_i hne
          exact hne (ht.trans hs.symm)
      · rw [← h.excess id]
        refine sumOf_congr (fun t _ ↦ ?_) fun _ _ ↦ rfl
        by_cases ht : t.customer_id = secondary.id <;> simp [ht, hp, hs]
  simp only [Effect.none, sumOf_nil, add_zero]
  rw [← hold]
  exact sumOf_congr hcarried hkept

theorem Agreeing.commit (h : Agreeing d) (hcommit : Commit S req env lk d d' e) (hS : S.exclusive)
    (hreq : NamesNoReversal req d) : Agreeing d' where
  owner := owner_commit h.owner hcommit hS
  excess id := by
    have hchanges := hcommit.changes
    cases hchanges with
    | @reverse tenantId userId transactionId dto original reread held hid htenant hunreversed hheld
        hcustomer _ _ _ _ hexact =>
      obtain ⟨hmem, rfl⟩ := hexact (Or.inl hS)
      refine agreeing_reverse h.excess hcommit hmem hid ⟨?_, hunreversed⟩ id
      refine hreq reread (Option.filter_eq_some_iff.2 ⟨?_, by simpa using htenant⟩)
      exact Table.find_eq_some.2 ⟨hmem, hid⟩
    | @merge tenantId dto primary secondary moved hprimary hsecondary hpid hsid hmoved hall =>
      refine agreeing_merge h hcommit (fun t ht ↦ ?_) id
      refine ⟨fun hid ↦ (hmoved t ht hid).1, fun hcustomer ↦ hall (Or.inl hS) t ht hcustomer ?_⟩
      obtain ⟨owner, howner, hid, htenant⟩ := h.owner t ht
      obtain rfl := Db.eq_of_find_customer hsecondary.1 howner (hid.trans hcustomer)
      exact htenant.symm.trans hsecondary.2.1
    | close =>
      refine agreeing_append h.excess hcommit (fun t _ ↦ ?_) (fun r hr ↦ by cases hr) id
      dsimp only
      split <;> exact ⟨rfl, rfl⟩
    | post _ _ hposts =>
      refine agreeing_append h.excess hcommit (fun _ _ ↦ ⟨rfl, rfl⟩) (fun r hr ↦ ?_) id
      refine reported_row hcommit.changes hr fun _ _ _ _ heq ↦ ?_
      rw [heq] at hposts
      cases hposts
    | inflate =>
      refine agreeing_append h.excess hcommit (fun _ _ ↦ ⟨rfl, rfl⟩) (fun r hr ↦ ?_) id
      exact reported_row hcommit.changes hr fun _ _ _ _ heq ↦ by cases heq
    | _ => exact agreeing_append h.excess hcommit (fun _ _ ↦ ⟨rfl, rfl⟩) (fun r hr ↦ by cases hr) id

end Commit

/-! ## Runs -/

section Runs

variable {ι : Type} {req : ι → Request} {env : ι → Env}

/-- The database after these requests, one after the other. -/
def servedAlone (req : ι → Request) (env : ι → Env) (order : List ι) (d : Db) : Db :=
  (postgres.serial (fun i ↦ (req i).script (env i)) order d).2

/-- No request of the order reverses a reversal when its turn comes. -/
def NoChains (req : ι → Request) (env : ι → Env) : List ι → Db → Prop
  | [], _ => True
  | i :: order, d =>
      NamesNoReversal (req i) d ∧
        NoChains req env order (postgres.alone ((req i).script (env i)) [] d).2

theorem agreeing_run {order : List ι} : ∀ {d : Db}, Agreeing d → NoChains req env order d →
    Agreeing (servedAlone req env order d) := by
  induction order with
  | nil => exact fun h _ ↦ h
  | cons i order ih =>
    intro d h hchains
    refine ih ?_ hchains.2
    rcases hrun : postgres.alone ((req i).script (env i)) [] d with ⟨out, d'⟩
    rcases (alone_contract (suits_alone _ _ d) (allow_alone _ _) hrun).1 with rfl | ⟨lk, e, hcommit⟩
    · exact h
    · exact h.commit hcommit trivial hchains.1

/-- As long as no reversal is itself reversed, both readings of the ledger agree for every
customer. -/
theorem readings_agree (tenants : Table Tenant) {order : List ι}
    (hchains : NoChains req env order (Db.opened tenants)) (customerId : Uuid) :
    ledgerSum (servedAlone req env order (Db.opened tenants)) customerId =
      reportedSum (servedAlone req env order (Db.opened tenants)) customerId := by
  have hopened : Agreeing (Db.opened tenants) :=
    ⟨fun _ h ↦ (List.not_mem_nil h).elim, fun _ ↦ rfl⟩
  exact (agreeing_run hopened hchains).sums customerId

end Runs

/-! ## The reversal of a reversal -/

/-- A debt of 100 is reversed, and then the reversal is. -/
def restoring : Fin 4 → Request
  | 0 => .createCustomer 1 ana
  | 1 => .registerDebt 1 2 (debtOf100 100 11)
  | 2 => .reverseTransaction 1 2 101 (reversalUnder 12)
  | 3 => .reverseTransaction 1 2 102 (reversalUnder 13)

/-- The whole ledger has the debt again, the reports have nothing. -/
theorem readings_differ :
    ledgerSum (servedAlone restoring (fun i ↦ sampleEnv i) [0, 1, 2, 3] (Db.opened sampleTenants))
        100 = 100 ∧
      reportedSum (servedAlone restoring (fun i ↦ sampleEnv i) [0, 1, 2, 3]
        (Db.opened sampleTenants)) 100 = 0 := by
  decide +kernel

theorem readings_agree_restoring :
    ledgerSum (servedAlone restoring (fun i ↦ sampleEnv i) [0, 1, 2] (Db.opened sampleTenants))
        100 =
      reportedSum (servedAlone restoring (fun i ↦ sampleEnv i) [0, 1, 2] (Db.opened sampleTenants))
        100 := by
  have hchains : NoChains restoring (fun i ↦ sampleEnv i) [0, 1, 2] (Db.opened sampleTenants) :=
    ⟨trivial, trivial, (show ∀ t ∈ Db.transaction _ 1 101, t.type ≠ .REVERSAL by decide +kernel),
      trivial⟩
  exact readings_agree sampleTenants hchains 100

end MicroErp.Guarantees
