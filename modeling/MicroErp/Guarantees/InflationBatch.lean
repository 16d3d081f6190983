import MicroErp.Commits.Alone
import MicroErp.Commits.Runs
import MicroErp.Services.ExactArithmetic

/-!
# What an inflation batch does and reports

In exact arithmetic a batch raises the balance of each debtor by the rounded percentage, posts a row
for each balance that it raises and reports the total.  The number of customers that it reports
counts every debtor, so it is right exactly when no debt is too small for the percentage.
-/

namespace MicroErp.Guarantees

open MicroErp.Commits MicroErp.Concurrency MicroErp.Database MicroErp.Services MicroErp.Storage

/-! ## The two loops -/

section Loops

variable {env : Env} {fl : ℚ → ℚ} {tenantId userId : Uuid} {dto : InflationAdjustmentDto} {v : Db}

/-- With nobody else in the database the locked customers are those of the snapshot. -/
theorem eval_lockCustomers (ids : List Uuid) (v : Db) :
    postgres.eval (lockCustomers tenantId ids) v = .ok (ids.filterMap (v.customer tenantId), v) := by
  induction ids with
  | nil => rfl
  | cons id ids ih =>
    rw [lockCustomers, Engine.eval_bind, eval_query]
    simp only [Sql.exec, Except.map, ok_bind, Engine.view_nil, Engine.eval_bind, ih]
    cases hrow : v.customer tenantId id with
    | none => simp [hrow]
    | some c => simp [hrow]

/-- What a debtor's balance gains. -/
def gainIn (fl : ℚ → ℚ) (dto : InflationAdjustmentDto) (c : Customer) : ℤ :=
  max 0 (adjustmentIn fl dto c.balance_cents)

def raisedBy (fl : ℚ → ℚ) (dto : InflationAdjustmentDto) (c : Customer) : Customer :=
  { c with balance_cents := c.balance_cents + gainIn fl dto c }

/-- What the loop over `debtors` makes of `v`, with `rows` posted. -/
structure Adjusted (fl : ℚ → ℚ) (tenantId : Uuid) (dto : InflationAdjustmentDto)
    (debtors : List Customer) (rows : List Transaction) (v v' : Db) : Prop where
  customers : ∀ id, v'.customers.find id = (v.customers.find id).map fun c ↦
    if c ∈ debtors then raisedBy fl dto c else c
  transactions : v'.transactions.rows = v.transactions.rows ++ rows
  posted : rows.map (fun t ↦ (t.customer_id, t.amount_cents)) =
    (debtors.filter fun c ↦ gainIn fl dto c ≠ 0).map fun c ↦ (c.id, gainIn fl dto c)
  typed : ∀ t ∈ rows, t.type = .INFLATION_ADJUSTMENT ∧ t.tenant_id = tenantId
  tenants : v'.tenants = v.tenants
  batches : v'.batches = v.batches
  shifts : v'.shifts = v.shifts
  billingEvents : v'.billingEvents = v.billingEvents

theorem Adjusted.nil : Adjusted fl tenantId dto [] [] v v where
  customers id := by simp
  transactions := (List.append_nil _).symm
  posted := rfl
  typed _ h := (List.not_mem_nil h).elim
  tenants := rfl
  batches := rfl
  shifts := rfl
  billingEvents := rfl

/-- A debtor that gains nothing is passed over. -/
theorem Adjusted.skip {c : Customer} {debtors : List Customer} {rows : List Transaction} {v' : Db}
    (hgain : gainIn fl dto c = 0) (h : Adjusted fl tenantId dto debtors rows v v') :
    Adjusted fl tenantId dto (c :: debtors) rows v v' where
  customers id := by
    rw [h.customers]
    congr 1
    funext x
    by_cases hx : x = c
    · subst hx
      simp [hgain, raisedBy]
    · simp [hx]
  transactions := h.transactions
  posted := by rw [h.posted, List.filter_cons_of_neg (by simp [hgain])]
  typed := h.typed
  tenants := h.tenants
  batches := h.batches
  shifts := h.shifts
  billingEvents := h.billingEvents

/-- A debtor that gains something is posted and saved. -/
theorem Adjusted.cons {c : Customer} {debtors : List Customer} {rows : List Transaction} {v' : Db}
    {row : Transaction} (hgain : gainIn fl dto c ≠ 0) (hc : v.customers.find c.id = some c)
    (hdistinct : c.id ∉ debtors.map (·.id)) (hfree : v.transactions.find row.id = none)
    (hrow : row.customer_id = c.id ∧ row.amount_cents = gainIn fl dto c ∧
      row.type = .INFLATION_ADJUSTMENT ∧ row.tenant_id = tenantId)
    (h : Adjusted fl tenantId dto debtors rows
      (putCustomer (raisedBy fl dto c) (putTransaction row v)) v') :
    Adjusted fl tenantId dto (c :: debtors) (row :: rows) v v' where
  customers id := by
    rw [h.customers]
    by_cases hid : id = c.id
    · subst hid
      have hraised : (putCustomer (raisedBy fl dto c) (putTransaction row v)).customers.find c.id =
          some (raisedBy fl dto c) :=
        find_putCustomer (v := putTransaction row v) (raisedBy fl dto c) hc
      have hnot : raisedBy fl dto c ∉ debtors := fun hmem ↦
        hdistinct (List.mem_map_of_mem (f := (·.id)) hmem)
      rw [hraised, hc]
      simp [hnot]
    · rw [find_putCustomer_of_ne (raisedBy fl dto c) _ hid, customers_putTransaction]
      cases hx : v.customers.find id with
      | none => rfl
      | some x =>
        have hne : x ≠ c := fun heq ↦ hid ((Table.find_key hx).symm.trans (congrArg Customer.id heq))
        simp [hne]
  transactions := by
    rw [h.transactions, transactions_putCustomer, putTransaction, Table.rows_insert_of_fresh hfree,
      List.append_assoc, List.singleton_append]
  posted := by
    rw [List.map_cons, h.posted, List.filter_cons_of_pos (by simp [hgain]), List.map_cons, hrow.1,
      hrow.2.1]
  typed t ht := by
    rcases List.mem_cons.1 ht with rfl | ht
    · exact hrow.2.2
    · exact h.typed t ht
  tenants := h.tenants
  batches := h.batches
  shifts := h.shifts
  billingEvents := h.billingEvents

theorem of_eval_adjustDebtors {α : Type} {f : ℤ → Script α} {x : α × Db} :
    ∀ (debtors : List Customer) (index : ℕ) (total : ℤ) (v : Db), (debtors.map (·.id)).Nodup →
      (∀ c ∈ debtors, v.customers.find c.id = some c) →
      postgres.eval (adjustDebtorsIn env fl tenantId userId dto index debtors total >>= f) v =
        .ok x →
      ∃ rows v', Adjusted fl tenantId dto debtors rows v v' ∧
        postgres.eval (f (total + (debtors.map (gainIn fl dto)).sum)) v' = .ok x := by
  intro debtors
  induction debtors with
  | nil =>
    intro index total v _ _ h
    refine ⟨[], v, .nil, ?_⟩
    rw [List.map_nil, List.sum_nil, add_zero]
    exact h
  | cons c debtors ih =>
    intro index total v hnodup hfound h
    obtain ⟨hdistinct, hnodup⟩ := List.nodup_cons.1 hnodup
    have hc := hfound c List.mem_cons_self
    rw [adjustDebtorsIn] at h
    by_cases hle : adjustmentIn fl dto c.balance_cents ≤ 0
    · have hgain : gainIn fl dto c = 0 := max_eq_left hle
      rw [if_pos hle] at h
      obtain ⟨rows, v', hadjusted, h⟩ := ih _ _ v hnodup
        (fun c' hc' ↦ hfound c' (List.mem_cons_of_mem _ hc')) h
      refine ⟨rows, v', hadjusted.skip hgain, ?_⟩
      rw [List.map_cons, List.sum_cons, hgain, zero_add]
      exact h
    · have hgain : gainIn fl dto c = adjustmentIn fl dto c.balance_cents :=
        max_eq_right (not_le.1 hle).le
      rw [if_neg hle, Prog.bind_assoc] at h
      obtain ⟨hfree, h⟩ := of_eval_insertTransaction h
      rw [Prog.bind_assoc] at h
      obtain ⟨-, h⟩ := of_eval_saveCustomer h hc
      rw [← hgain] at h
      have hkept : ∀ c' ∈ debtors, (putCustomer (raisedBy fl dto c) (putTransaction
          (adjustmentRowIn env fl tenantId userId dto index c) v)).customers.find c'.id = some c' := by
        intro c' hc'
        have hne : c'.id ≠ c.id := by
          have hmem : c'.id ∈ debtors.map (·.id) := List.mem_map_of_mem hc'
          intro heq
          rw [heq] at hmem
          exact hdistinct hmem
        rw [find_putCustomer_of_ne (raisedBy fl dto c) _ hne]
        exact hfound c' (List.mem_cons_of_mem _ hc')
      obtain ⟨rows, v', hadjusted, h⟩ := ih _ _ _ hnodup hkept h
      refine ⟨_, v', hadjusted.cons (by omega) hc hdistinct hfree.1 ⟨rfl, hgain.symm, rfl, rfl⟩, ?_⟩
      rw [List.map_cons, List.sum_cons, ← add_assoc]
      exact h

end Loops

/-! ## The report -/

/-- The percentage of a debt, rounded half up. -/
def inflationOf (dto : InflationAdjustmentDto) (c : Customer) : ℤ :=
  if 0 < c.balance_cents then ⌊c.balance_cents * dto.percentage / 100 + 1 / 2⌋ else 0

/-- A batch that makes `d'` of `d` does to each customer what it says and reports the total. -/
structure FaithfulBatch (tenantId : Uuid) (dto : InflationAdjustmentDto) (d d' : Db)
    (result : InflationResult) : Prop where
  raised : ∀ id, d'.customers.find id = (d.customers.find id).map fun c ↦
    if c.tenant_id = tenantId then { c with balance_cents := c.balance_cents + inflationOf dto c }
    else c
  posted : ∃ rows, d'.transactions.rows = d.transactions.rows ++ rows ∧
    (∀ t ∈ rows, t.type = .INFLATION_ADJUSTMENT ∧ t.tenant_id = tenantId) ∧
    (rows.map fun t ↦ (t.customer_id, t.amount_cents)).Perm
      (((d.customersOf tenantId).filter fun c ↦ inflationOf dto c ≠ 0).map fun c ↦
        (c.id, inflationOf dto c))
  total : result.total_adjustment_cents = ((d.customersOf tenantId).map (inflationOf dto)).sum
  sealed : ∃ batch, d'.batches.rows = d.batches.rows ++ [batch] ∧ batch.tenant_id = tenantId ∧
    batch.idempotency_key = dto.idempotency_key ∧
    batch.affected_customers = result.affected_customers ∧
    batch.total_adjustment_cents = result.total_adjustment_cents
  others : d' = { d with
    customers := d'.customers, transactions := d'.transactions, batches := d'.batches }

/-- The number of customers is the number of balances that changed, too. -/
structure ExactBatch (tenantId : Uuid) (dto : InflationAdjustmentDto) (d d' : Db)
    (result : InflationResult) : Prop extends FaithfulBatch tenantId dto d d' result where
  counted : result.affected_customers =
    ((d.customersOf tenantId).filter fun c ↦ inflationOf dto c ≠ 0).length

/-- The percentage of every debt is at least half a cent. -/
def RaisesEveryDebt (tenantId : Uuid) (dto : InflationAdjustmentDto) (d : Db) : Prop :=
  ∀ c ∈ d.customersOf tenantId, 0 < c.balance_cents → 50 ≤ c.balance_cents * dto.percentage

section Report

variable {env : Env} {tenantId userId : Uuid} {dto : InflationAdjustmentDto} {d d' : Db}
  {result : InflationResult}

theorem gainIn_of_pos {c : Customer} (h : 0 < c.balance_cents) :
    gainIn id dto c = inflationOf dto c := by
  have hb : (0 : ℚ) < c.balance_cents := by exact_mod_cast h
  have hp := dto.percentage_valid.1
  have hnonneg : 0 ≤ adjustmentIn id dto c.balance_cents :=
    mathRound_nonneg (q := c.balance_cents * dto.percentage / 100) (by positivity)
  rw [gainIn, max_eq_right hnonneg, inflationOf, if_pos h]
  rfl

theorem inflationOf_ne_zero {c : Customer} (h : 0 < c.balance_cents) :
    inflationOf dto c ≠ 0 ↔ 50 ≤ c.balance_cents * dto.percentage := by
  have hb : (0 : ℚ) < c.balance_cents := by exact_mod_cast h
  have hp := dto.percentage_valid.1
  have hnonneg : 0 ≤ ⌊c.balance_cents * dto.percentage / 100 + 1 / 2⌋ :=
    Int.floor_nonneg.2 (by positivity)
  rw [inflationOf, if_pos h]
  calc ⌊c.balance_cents * dto.percentage / 100 + 1 / 2⌋ ≠ 0
      ↔ 1 ≤ ⌊c.balance_cents * dto.percentage / 100 + 1 / 2⌋ := by omega
    _ ↔ ((1 : ℤ) : ℚ) ≤ c.balance_cents * dto.percentage / 100 + 1 / 2 := Int.le_floor
    _ ↔ 50 ≤ c.balance_cents * dto.percentage := by
      push_cast
      constructor <;> intro h <;> linarith

theorem balance_pos_of_inflationOf {c : Customer} (h : inflationOf dto c ≠ 0) :
    0 < c.balance_cents := by
  by_contra hle
  exact h (if_neg hle)

/-- The customers that the batch locks are those of the tenant. -/
theorem lockedCustomers_perm (env : Env) (d : Db) (tenantId : Uuid) :
    ((env.scan ((d.customersOf tenantId).map (·.id))).filterMap (d.customer tenantId)).Perm
      (d.customersOf tenantId) := by
  have hself : ((d.customersOf tenantId).map (·.id)).filterMap (d.customer tenantId) =
      d.customersOf tenantId := by
    rw [List.filterMap_map]
    refine (List.filterMap_congr fun c hc ↦ ?_).trans List.filterMap_some
    obtain ⟨hmem, htenant⟩ := List.mem_filter.1 hc
    have hfind : d.customers.find c.id = some c := Table.find_eq_some.2 ⟨hmem, rfl⟩
    rw [Function.comp_apply, Db.customer, hfind]
    simpa [Option.filter] using htenant
  calc ((env.scan ((d.customersOf tenantId).map (·.id))).filterMap (d.customer tenantId)).Perm
        (((d.customersOf tenantId).map (·.id)).filterMap (d.customer tenantId)) :=
      (env.scan_perm _).filterMap _
    _ = d.customersOf tenantId := hself

theorem nodup_customersOf (d : Db) (tenantId : Uuid) :
    ((d.customersOf tenantId).map (·.id)).Nodup :=
  d.customers.nodup.sublist (List.filter_sublist.map _)

theorem sum_gains {l : List Customer} :
    ((l.filter fun c ↦ 0 < c.balance_cents).map (gainIn id dto)).sum =
      (l.map (inflationOf dto)).sum := by
  induction l with
  | nil => rfl
  | cons c l ih =>
    by_cases hpos : 0 < c.balance_cents
    · rw [List.filter_cons_of_pos (by simpa using hpos), List.map_cons, List.sum_cons, ih,
        List.map_cons, List.sum_cons, gainIn_of_pos hpos]
    · rw [List.filter_cons_of_neg (by simpa using hpos), ih, List.map_cons, List.sum_cons,
        inflationOf, if_neg hpos, zero_add]

theorem raised_eq {debtors : List Customer} {c : Customer} (hc : c ∈ d.customers.rows)
    (hmem : c ∈ debtors ↔ c ∈ d.customersOf tenantId ∧ 0 < c.balance_cents) :
    (if c ∈ debtors then raisedBy id dto c else c) = if c.tenant_id = tenantId then
      { c with balance_cents := c.balance_cents + inflationOf dto c } else c := by
  have hof : c ∈ d.customersOf tenantId ↔ c.tenant_id = tenantId := by
    rw [Db.customersOf, List.mem_filter, decide_eq_true_iff]
    exact and_iff_right hc
  by_cases htenant : c.tenant_id = tenantId
  · by_cases hpos : 0 < c.balance_cents
    · rw [if_pos (hmem.2 ⟨hof.2 htenant, hpos⟩), if_pos htenant, raisedBy, gainIn_of_pos hpos]
    · rw [if_neg fun h ↦ hpos (hmem.1 h).2, if_pos htenant, inflationOf, if_neg hpos, add_zero]
  · rw [if_neg fun h ↦ htenant (hof.1 (hmem.1 h).1), if_neg htenant]

/-- The debtors that gain something are the customers whose percentage is not zero. -/
theorem posted_perm {customers l : List Customer} (hperm : customers.Perm l) :
    (((customers.filter fun c ↦ c.balance_cents > 0).filter fun c ↦ gainIn id dto c ≠ 0).map
        fun c ↦ (c.id, gainIn id dto c)).Perm
      ((l.filter fun c ↦ inflationOf dto c ≠ 0).map fun c ↦ (c.id, inflationOf dto c)) := by
  have hfilter : ((customers.filter fun c ↦ c.balance_cents > 0).filter fun c ↦
      gainIn id dto c ≠ 0) = customers.filter fun c ↦ inflationOf dto c ≠ 0 := by
    rw [List.filter_filter]
    refine List.filter_congr fun c _ ↦ ?_
    rw [Bool.eq_iff_iff, Bool.and_eq_true, decide_eq_true_iff, decide_eq_true_iff,
      decide_eq_true_iff]
    constructor
    · rintro ⟨hgain, hpos⟩
      rwa [← gainIn_of_pos hpos]
    · intro hne
      have hpos := balance_pos_of_inflationOf hne
      exact ⟨by rwa [gainIn_of_pos hpos], hpos⟩
  have hmap : ((customers.filter fun c ↦ inflationOf dto c ≠ 0).map fun c ↦
      (c.id, gainIn id dto c)) = (customers.filter fun c ↦ inflationOf dto c ≠ 0).map fun c ↦
        (c.id, inflationOf dto c) := by
    refine List.map_congr_left fun c hc ↦ ?_
    rw [gainIn_of_pos (balance_pos_of_inflationOf (of_decide_eq_true (List.mem_filter.1 hc).2))]
  rw [hfilter, hmap]
  exact (hperm.filter _).map _

/-- A new batch that answers has made a faithful report; it counts every debtor. -/
theorem faithful_of_eval (hnew : d.batchByKey tenantId dto.idempotency_key = none)
    (h : postgres.eval (applyInflationAdjustmentIn env id tenantId userId dto) d =
      .ok (result, d')) :
    FaithfulBatch tenantId dto d d' result ∧ result.affected_customers =
      ((d.customersOf tenantId).filter fun c ↦ 0 < c.balance_cents).length := by
  have hperm := lockedCustomers_perm env d tenantId
  rw [applyInflationAdjustmentIn, Engine.eval_bind, eval_query] at h
  simp only [Sql.exec, Except.map, ok_bind, Engine.view_nil, hnew] at h
  rw [Engine.eval_bind, eval_query] at h
  simp only [Sql.exec, Except.map, ok_bind, Engine.view_nil] at h
  rw [Engine.eval_bind, eval_lockCustomers, ok_bind] at h
  set customers := (env.scan ((d.customersOf tenantId).map (·.id))).filterMap (d.customer tenantId)
    with hcustomers
  set debtors := customers.filter fun c ↦ c.balance_cents > 0 with hdebtors
  have hmem : ∀ c, c ∈ debtors ↔ c ∈ d.customersOf tenantId ∧ 0 < c.balance_cents := fun c ↦ by
    rw [hdebtors, List.mem_filter, hperm.mem_iff, decide_eq_true_iff, gt_iff_lt]
  have hnodup : (debtors.map (·.id)).Nodup :=
    ((hperm.map _).nodup_iff.2 (nodup_customersOf d tenantId)).sublist (List.filter_sublist.map _)
  have hfound : ∀ c ∈ debtors, d.customers.find c.id = some c := fun c hc ↦
    Table.find_eq_some.2 ⟨(List.mem_filter.1 ((hmem c).1 hc).1).1, rfl⟩
  have hgain : ∀ c ∈ debtors, gainIn id dto c = inflationOf dto c := fun c hc ↦
    gainIn_of_pos ((hmem c).1 hc).2
  obtain ⟨rows, v, hadjusted, h⟩ := of_eval_adjustDebtors debtors 0 0 d hnodup hfound h
  obtain ⟨hfree, h⟩ := of_eval_insertBatch h
  cases h
  refine ⟨?_, ?_⟩
  · exact
      { raised := fun id ↦ by
          change v.customers.find id = _
          rw [hadjusted.customers]
          cases hx : d.customers.find id with
          | none => rfl
          | some c => exact congrArg some (raised_eq (Table.find_eq_some.1 hx).1 (hmem c))
        posted := ⟨rows, hadjusted.transactions, hadjusted.typed, by
          rw [hadjusted.posted]
          exact posted_perm hperm⟩
        total := by
          rw [← (hperm.map _).sum_eq, ← sum_gains, zero_add]
        sealed := ⟨_, (Table.rows_insert_of_fresh hfree.1).trans
          (congrArg (·.rows ++ _) hadjusted.batches), rfl, rfl, rfl, rfl⟩
        others := by
          rw [Db.mk.injEq]
          exact ⟨hadjusted.tenants, rfl, rfl, rfl, hadjusted.shifts, hadjusted.billingEvents⟩ }
  · exact congrArg Nat.cast ((hperm.filter _).length_eq)

theorem exact_iff (hfaithful : FaithfulBatch tenantId dto d d' result)
    (hcount : result.affected_customers =
      ((d.customersOf tenantId).filter fun c ↦ 0 < c.balance_cents).length) :
    ExactBatch tenantId dto d d' result ↔ RaisesEveryDebt tenantId dto d := by
  have hraised : (d.customersOf tenantId).filter (fun c ↦ inflationOf dto c ≠ 0) =
      ((d.customersOf tenantId).filter fun c ↦ 0 < c.balance_cents).filter fun c ↦
        inflationOf dto c ≠ 0 := by
    rw [List.filter_filter]
    refine List.filter_congr fun c _ ↦ ?_
    rw [Bool.eq_iff_iff, Bool.and_eq_true, decide_eq_true_iff, decide_eq_true_iff]
    exact ⟨fun h ↦ ⟨h, balance_pos_of_inflationOf h⟩, fun h ↦ h.1⟩
  have hlength : ((d.customersOf tenantId).filter fun c ↦ inflationOf dto c ≠ 0).length =
      ((d.customersOf tenantId).filter fun c ↦ 0 < c.balance_cents).length ↔
        RaisesEveryDebt tenantId dto d := by
    rw [hraised, List.length_filter_eq_length_iff]
    constructor
    · intro h c hc hpos
      exact (inflationOf_ne_zero hpos).1
        (of_decide_eq_true (h c (List.mem_filter.2 ⟨hc, decide_eq_true hpos⟩)))
    · intro h c hc
      obtain ⟨hmem, hpos⟩ := List.mem_filter.1 hc
      exact decide_eq_true ((inflationOf_ne_zero (of_decide_eq_true hpos)).2
        (h c hmem (of_decide_eq_true hpos)))
  constructor
  · intro h
    exact hlength.1 (by exact_mod_cast h.counted.symm.trans hcount)
  · intro h
    exact ⟨hfaithful, by rw [hcount, hlength.2 h]⟩

theorem silent_lockCustomers (tenantId : Uuid) (ids : List Uuid) :
    (lockCustomers tenantId ids).Silent := by
  induction ids with
  | nil => trivial
  | cons id ids ih =>
    exact (silent_query _).bind_silent fun _ ↦ ih.bind_silent fun _ ↦ trivial

theorem silent_adjustDebtors (env : Env) (fl : ℚ → ℚ) (tenantId userId : Uuid)
    (dto : InflationAdjustmentDto) (debtors : List Customer) (index : ℕ) (total : ℤ) :
    (adjustDebtorsIn env fl tenantId userId dto index debtors total).Silent := by
  induction debtors generalizing index total with
  | nil => trivial
  | cons c debtors ih =>
    rw [adjustDebtorsIn]
    split
    · exact ih _ _
    · exact (silent_insertTransaction _).bind_silent fun _ ↦
        (silent_saveCustomer _).bind_silent fun _ ↦ ih _ _

theorem transactional_inflation (env : Env) (fl : ℚ → ℚ) (tenantId userId : Uuid)
    (dto : InflationAdjustmentDto) :
    (applyInflationAdjustmentIn env fl tenantId userId dto).Transactional postgres := by
  refine Prog.Silent.bind_transactional (silent_query _) fun found ↦ ?_
  cases found with
  | some existingBatch => trivial
  | none =>
    refine Prog.Silent.bind_transactional (silent_query _) fun ids ↦ ?_
    refine Prog.Silent.bind_transactional (silent_lockCustomers _ _) fun customers ↦ ?_
    refine Prog.Silent.bind_transactional (silent_adjustDebtors env fl tenantId userId dto _ _ _)
      fun total ↦ ?_
    exact Prog.Silent.bind_transactional (silent_query _) fun _ ↦ trivial

/-- A new batch reports what it did exactly when it raised every debt. -/
theorem inflation_report (hnew : d.batchByKey tenantId dto.idempotency_key = none)
    (es : List (Event Unit))
    (hok : (postgres.run (Sys.start d fun _ ↦
      applyInflationAdjustmentIn env id tenantId userId dto) es).outcome () = some (.ok result)) :
    let d' := (postgres.run (Sys.start d fun _ ↦
      applyInflationAdjustmentIn env id tenantId userId dto) es).db
    FaithfulBatch tenantId dto d d' result ∧
      (ExactBatch tenantId dto d d' result ↔ RaisesEveryDebt tenantId dto d) := by
  have heval := Engine.eval_of_answer (transactional_inflation env id tenantId userId dto) hok
  obtain ⟨hfaithful, hcount⟩ := faithful_of_eval hnew heval
  exact ⟨hfaithful, exact_iff hfaithful hcount⟩

end Report

def raiseBy (percentage : ℚ) (h : 0 < percentage ∧ percentage ≤ 1000) : InflationAdjustmentDto :=
  { percentage := percentage, idempotency_key := 12, percentage_valid := h }

/-- The batch alone on the debt of customer 100. -/
def raisedAlone (script : Script InflationResult) :
    Sys Unit Sql Sql.Ans Db Write LockName ServiceError InflationResult :=
  postgres.run (Sys.start owing fun _ ↦ script) (List.replicate 15 (.step ()))

/-- A tenth of a percent of one peso is nothing, and is counted. -/
theorem inflation_counts_unchanged : Reachable owing ∧ owing.batchByKey 1 12 = none ∧
    ∀ script ∈ [applyInflationAdjustmentIn (sampleEnv 10) id 1 2 (raiseBy (1 / 10) (by norm_num)),
        applyInflationAdjustment (sampleEnv 10) 1 2 (raiseBy (1 / 10) (by norm_num))],
      (raisedAlone script).outcome () = some (.ok ⟨1, 0⟩) ∧
        (raisedAlone script).db.customers = owing.customers :=
  ⟨reachable_owing, by decide +kernel, by decide +kernel⟩

theorem inflation_report_tenth :
    FaithfulBatch 1 (raiseBy 10 (by norm_num)) owing (raisedAlone (applyInflationAdjustmentIn
        (sampleEnv 10) id 1 2 (raiseBy 10 (by norm_num)))).db ⟨1, 10⟩ ∧
      (ExactBatch 1 (raiseBy 10 (by norm_num)) owing (raisedAlone (applyInflationAdjustmentIn
          (sampleEnv 10) id 1 2 (raiseBy 10 (by norm_num)))).db ⟨1, 10⟩ ↔
        RaisesEveryDebt 1 (raiseBy 10 (by norm_num)) owing) := by
  have hnew : owing.batchByKey 1 (raiseBy 10 (by norm_num)).idempotency_key = none := by
    decide +kernel
  have hok : (raisedAlone (applyInflationAdjustmentIn (sampleEnv 10) id 1 2
      (raiseBy 10 (by norm_num)))).outcome () = some (.ok ⟨1, 10⟩) := by
    decide +kernel
  exact inflation_report hnew _ hok

end MicroErp.Guarantees
