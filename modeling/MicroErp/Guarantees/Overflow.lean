import MicroErp.Guarantees.Columns
import MicroErp.Guarantees.InflationBatch
import MicroErp.Guarantees.MergeEffects
import MicroErp.Guarantees.MixedPayments

/-!
# Operations that fail on an integer column

A debt is limited and the other payments only lower a balance.  A merge, a batch and the reversal of
a payment add to balances that are in range, and fail exactly when the result is not.
-/

namespace MicroErp.Guarantees

open MicroErp.Commits MicroErp.Concurrency MicroErp.Database MicroErp.Services MicroErp.Storage

variable {α : Type} {env : Env} {tenantId userId : Uuid} {d v : Db}

/-- The greatest number of an `integer` column. -/
def maxInt4 : ℤ := 2147483647

theorem int4_iff {n : ℤ} (h : 0 ≤ n) : Int4 n ↔ n ≤ maxInt4 := by
  unfold Int4 maxInt4
  omega

/-- Served alone, the request fails on an integer column. -/
def Overflows (req : Request) (env : Env) (d : Db) : Prop :=
  (postgres.alone (req.script env) [] d).1 = .error outOfRange

instance (req : Request) (env : Env) (d : Db) : Decidable (Overflows req env d) :=
  inferInstanceAs (Decidable ((postgres.alone (req.script env) [] d).1 = .error outOfRange))

/-! ## Steps that do not overflow -/

theorem overflow_of_find {key : Uuid} {f : Option Transaction → Script α} :
    postgres.eval (findByIdempotencyKey tenantId key >>= f) v =
      postgres.eval (f (v.transactionByKey tenantId key)) v := by
  rw [Engine.eval_bind, eval_findByIdempotencyKey, ok_bind]

theorem overflow_of_lock {id : Uuid} {f : Customer → Script α}
    (h : postgres.eval (lockCustomer tenantId id >>= f) v = .error outOfRange) :
    ∃ c ∈ v.customer tenantId id, postgres.eval (f c) v = .error outOfRange := by
  rw [Engine.eval_bind, eval_lockCustomer] at h
  cases hc : v.customer tenantId id with
  | none =>
    rw [hc] at h
    cases h
  | some c =>
    rw [hc] at h
    exact ⟨c, rfl, h⟩

theorem overflow_of_insert (row : Transaction) {f : Unit → Script α} (hfits : Int4 row.amount_cents)
    (h : postgres.eval (insertTransaction row >>= f) v = .error outOfRange) :
    postgres.eval (f ()) (putTransaction row v) = .error outOfRange := by
  rw [Engine.eval_bind, eval_insertTransaction] at h
  split at h
  · cases h
  · exact h

theorem overflow_of_save {c : Customer} (mem : Customer) {f : Unit → Script α}
    (h : postgres.eval (saveCustomer mem >>= f) v = .error outOfRange)
    (hc : v.customers.find mem.id = some c)
    (hfits : Int4 mem.balance_cents ∧ Int4 mem.credit_limit_cents) :
    postgres.eval (f ()) (putCustomer mem v) = .error outOfRange := by
  rwa [Engine.eval_bind, eval_saveCustomer mem v hc, if_pos (Or.inr hfits), ok_bind] at h

/-! ## Operations that never overflow -/

section Never

variable (hd : FitsColumns d)

include hd

/-- A customer of the tenant, with what is known of its columns. -/
theorem columns_of_customer {id : Uuid} {c : Customer} (hc : c ∈ d.customer tenantId id) :
    d.customers.find c.id = some c ∧ (0 ≤ c.balance_cents ∧ c.balance_cents ≤ maxInt4) ∧
      Int4 c.credit_limit_cents := by
  have hfound := (find_of_customer hc).1
  have hmem := (Table.find_eq_some.1 hfound).1
  exact ⟨hfound, ⟨hd.balances c hmem, (hd.customers c hmem).1.2⟩, (hd.customers c hmem).2⟩

theorem registerDebt_fits (userId : Uuid) (dto : CreateTransactionDto) :
    postgres.eval (registerDebt env tenantId userId dto) d ≠ .error outOfRange := by
  intro h
  rw [registerDebt, overflow_of_find] at h
  split at h
  · cases h
  obtain ⟨c, hc, h⟩ := overflow_of_lock h
  obtain ⟨hfound, ⟨hnonneg, -⟩, hlimit⟩ := columns_of_customer hd hc
  obtain ⟨hpos, hmax⟩ := dto.amount_valid
  unfold maxAmountCents at hmax
  split at h
  · cases h
  dsimp only at h
  split at h
  · cases h
  rename_i hwithin
  have hbalance : c.balance_cents + dto.amount_cents ≤ maxInt4 := (not_lt.1 hwithin).trans hlimit.2
  have h := overflow_of_insert (debtRow env tenantId userId dto)
    ((int4_iff hpos.le).2 (hmax.trans (by decide))) h
  have h := overflow_of_save _ h hfound ⟨(int4_iff (add_nonneg hnonneg hpos.le)).2 hbalance, hlimit⟩
  cases h

theorem registerPayment_fits (userId : Uuid) (dto : CreatePaymentDto) :
    postgres.eval (registerPayment env tenantId userId dto) d ≠ .error outOfRange := by
  intro h
  rw [registerPayment, overflow_of_find] at h
  split at h
  · cases h
  obtain ⟨c, hc, h⟩ := overflow_of_lock h
  obtain ⟨hfound, ⟨hnonneg, hbalance⟩, hlimit⟩ := columns_of_customer hd hc
  dsimp only at h
  split at h
  · cases h
  rename_i hpos
  have hpos := not_le.1 hpos
  have hle := min_le_right dto.amount_cents c.balance_cents
  have h := overflow_of_insert (paymentRow env tenantId userId dto
    (min dto.amount_cents c.balance_cents)) ((int4_iff hpos.le).2 (hle.trans hbalance)) h
  have h := overflow_of_save _ h hfound
    ⟨(int4_iff (sub_nonneg.2 hle)).2 ((sub_le_self _ hpos.le).trans hbalance), hlimit⟩
  cases h

theorem registerMixedPayment_fits (userId : Uuid) (dto : CreateMixedPaymentDto) :
    postgres.eval (registerMixedPayment env tenantId userId dto) d ≠ .error outOfRange := by
  intro h
  rw [registerMixedPayment] at h
  dsimp only at h
  split at h
  · cases h
  rename_i htotal
  rw [overflow_of_find] at h
  split at h
  · rename_i existing _
    rw [Prog.commitTransaction_bind, Engine.eval_commit, replayMixedPayment] at h
    split at h <;> cases h
  obtain ⟨c, hc, h⟩ := overflow_of_lock h
  obtain ⟨hfound, ⟨hnonneg, hbalance⟩, hlimit⟩ := columns_of_customer hd hc
  obtain ⟨⟨hcash, hcashLe⟩, htransfer, htransferLe⟩ :=
    effectiveShares_mem (not_not.1 htotal) hnonneg
  split at h
  · cases h
  have h := overflow_of_insert (cashRow env tenantId userId dto
    (effectiveShares dto c.balance_cents).1) ((int4_iff hcash).2 (hcashLe.trans hbalance)) h
  have h := overflow_of_insert (transferRow env tenantId userId dto
    (effectiveShares dto c.balance_cents).2) ((int4_iff htransfer).2 (htransferLe.trans hbalance)) h
  have hless : max 0 (c.balance_cents - ((effectiveShares dto c.balance_cents).1 +
      (effectiveShares dto c.balance_cents).2)) ≤ c.balance_cents :=
    max_le hnonneg (sub_le_self _ (add_nonneg hcash htransfer))
  have h := overflow_of_save (v := putTransaction _ (putTransaction _ d)) _ h hfound
    ⟨(int4_iff (le_max_left _ _)).2 (hless.trans hbalance), hlimit⟩
  cases h

theorem forgiveDebt_fits (userId : Uuid) (dto : ForgiveDebtDto) :
    postgres.eval (forgiveDebt env tenantId userId dto) d ≠ .error outOfRange := by
  intro h
  rw [forgiveDebt, overflow_of_find] at h
  split at h
  · cases h
  obtain ⟨c, hc, h⟩ := overflow_of_lock h
  obtain ⟨hfound, ⟨hnonneg, hbalance⟩, hlimit⟩ := columns_of_customer hd hc
  split at h
  · cases h
  have h := overflow_of_insert (forgivenessRow env tenantId userId dto c.balance_cents)
    ((int4_iff hnonneg).2 hbalance) h
  have h := overflow_of_save _ h hfound ⟨(by decide : Int4 0), hlimit⟩
  cases h

end Never

/-! ## Operations that overflow -/

theorem eval_insert_of_free (row : Transaction) {f : Unit → Script α}
    (hid : v.transactions.find row.id = none)
    (hkey : v.transactionByKey row.tenant_id row.idempotency_key = none)
    (hfits : Int4 row.amount_cents) :
    postgres.eval (insertTransaction row >>= f) v =
      postgres.eval (f ()) (putTransaction row v) := by
  rw [Engine.eval_bind, eval_insertTransaction, if_neg (by simp [hid, hkey]), if_pos hfits, ok_bind]

theorem eval_insert_of_large (row : Transaction) {f : Unit → Script α}
    (hid : v.transactions.find row.id = none)
    (hkey : v.transactionByKey row.tenant_id row.idempotency_key = none)
    (hlarge : maxInt4 < row.amount_cents) :
    postgres.eval (insertTransaction row >>= f) v = .error outOfRange := by
  rw [Engine.eval_bind, eval_insertTransaction, if_neg (by simp [hid, hkey]),
    if_neg fun h ↦ (not_le.2 hlarge) h.2, error_bind]

theorem eval_save_of_fits {c : Customer} (mem : Customer) {f : Unit → Script α}
    (hc : v.customers.find mem.id = some c)
    (hfits : Int4 mem.balance_cents ∧ Int4 mem.credit_limit_cents) :
    postgres.eval (saveCustomer mem >>= f) v = postgres.eval (f ()) (putCustomer mem v) := by
  rw [Engine.eval_bind, eval_saveCustomer mem v hc, if_pos (Or.inr hfits), ok_bind]

theorem eval_save_of_large {c : Customer} (mem : Customer) {f : Unit → Script α}
    (hc : v.customers.find mem.id = some c) (hsmall : c.balance_cents ≤ maxInt4)
    (hlarge : maxInt4 < mem.balance_cents) :
    postgres.eval (saveCustomer mem >>= f) v = .error outOfRange := by
  have hnot : ¬(mem = c ∨ Int4 mem.balance_cents ∧ Int4 mem.credit_limit_cents) := by
    rintro (rfl | ⟨hfits, -⟩)
    · exact (not_le.2 hlarge) hsmall
    · exact (not_le.2 hlarge) hfits.2
  rw [Engine.eval_bind, eval_saveCustomer mem v hc, if_neg hnot, error_bind]

theorem saveTransaction_fits (mem : Transaction) (hfits : Int4 mem.amount_cents) (v : Db) :
    postgres.eval (saveTransaction mem) v ≠ .error outOfRange := by
  rw [saveTransaction, saveEntity, Engine.eval_bind, eval_query]
  simp only [Sql.exec, Except.map, ok_bind, Engine.view_nil]
  cases v.transactions.find mem.id with
  | none => exact fun h ↦ by cases h
  | some reread =>
    change postgres.eval (if mem = reread then Prog.ret () else
      query (.updateTransaction mem reread)) v ≠ _
    split
    · exact fun h ↦ by cases h
    · rw [eval_query]
      simp only [Sql.exec, Sql.writing]
      rw [if_pos hfits]
      exact fun h ↦ by cases h

theorem Unused.find_eq_none (h : env.Unused d) (n : ℕ) : d.transactions.find (env.fresh n) = none :=
  Table.find_eq_none.2 fun t ht ↦ (h t ht n).1

/-- The balance of a customer after a reversal fits exactly when no credit row is too large. -/
theorem balanceAfterReversal_le {type : TransactionType} {amount balance : ℤ} (hamount : 0 ≤ amount)
    (hbalance : balance ≤ maxInt4) : balanceAfterReversal type amount balance ≤ maxInt4 ↔
      type = .DEBT ∨ type = .INFLATION_ADJUSTMENT ∨ balance + amount ≤ maxInt4 := by
  have hzero : (0 : ℤ) ≤ maxInt4 := by decide
  unfold balanceAfterReversal
  split
  · rename_i htype
    rw [max_le_iff]
    exact ⟨fun _ ↦ htype.imp_right Or.inl, fun _ ↦ ⟨hzero, by omega⟩⟩
  · rename_i htype
    rw [max_le_iff]
    exact ⟨fun h ↦ Or.inr (Or.inr h.2), fun h ↦ ⟨hzero, by tauto⟩⟩

/-- No reversal of this row takes its customer beyond the column. -/
def ReversalFits (d : Db) (tenantId transactionId : Uuid) (dto : ReverseTransactionDto) : Prop :=
  d.transactionByKey tenantId dto.idempotency_key = none →
    ∀ t ∈ d.transaction tenantId transactionId, t.is_reversed = false →
      ∀ c ∈ d.customer tenantId t.customer_id, t.type = .DEBT ∨ t.type = .INFLATION_ADJUSTMENT ∨
        c.balance_cents + t.amount_cents ≤ maxInt4

theorem reversal_fits (hd : FitsColumns d) {transactionId : Uuid} {dto : ReverseTransactionDto}
    (hfits : ReversalFits d tenantId transactionId dto) :
    postgres.eval (reverseTransaction env tenantId userId transactionId dto) d ≠
      .error outOfRange := by
  intro h
  rw [reverseTransaction, overflow_of_find] at h
  split at h
  · cases h
  rename_i hkey
  rw [Engine.eval_bind, eval_query] at h
  simp only [Sql.exec, Except.map, ok_bind, Engine.view_nil] at h
  split at h
  · cases h
  rename_i t ht
  split at h
  · cases h
  rename_i hunreversed
  have hmem := (Table.find_eq_some.1 (Option.filter_eq_some_iff.1 ht).1).1
  have hamount := hd.transactions t hmem
  obtain ⟨c, hc, h⟩ := overflow_of_lock h
  obtain ⟨hfound, ⟨-, hbalance⟩, hlimit⟩ := columns_of_customer hd hc
  have hafter := (balanceAfterReversal_le (hd.amounts t hmem) hbalance).2
    (hfits hkey t ht (by simpa using hunreversed) c hc)
  have h := overflow_of_insert (reversalRow env tenantId userId dto t) hamount h
  have h := overflow_of_save _ h hfound
    ⟨(int4_iff (balanceAfterReversal_nonneg _ _ _)).2 hafter, hlimit⟩
  rcases Engine.eval_bind_eq_error h with h | ⟨x, -, h⟩
  · exact saveTransaction_fits { t with is_reversed := true } hamount _ h
  · cases h

theorem fits_of_reversal (hd : FitsColumns d) (hunused : env.Unused d) {transactionId : Uuid}
    {dto : ReverseTransactionDto} (h : postgres.eval (reverseTransaction env tenantId userId
      transactionId dto) d ≠ .error outOfRange) : ReversalFits d tenantId transactionId dto := by
  intro hkey t ht hunreversed c hc
  have hmem := (Table.find_eq_some.1 (Option.filter_eq_some_iff.1 ht).1).1
  obtain ⟨hfound, ⟨-, hbalance⟩, -⟩ := columns_of_customer hd hc
  rw [← balanceAfterReversal_le (hd.amounts t hmem) hbalance, ← not_lt]
  intro hlarge
  apply h
  rw [reverseTransaction, overflow_of_find, hkey]
  simp only
  rw [Engine.eval_bind, eval_query]
  simp only [Sql.exec, Except.map, ok_bind, Engine.view_nil, Option.mem_def.1 ht, hunreversed,
    Bool.false_eq_true, if_false]
  rw [Engine.eval_bind, eval_lockCustomer, Option.mem_def.1 hc, ok_bind]
  refine (eval_insert_of_free (v := d) (reversalRow env tenantId userId dto t)
    (Unused.find_eq_none hunused 0) hkey (hd.transactions t hmem)).trans ?_
  exact eval_save_of_large (v := putTransaction _ d) _ hfound hbalance hlarge

/-! ## Merges -/

/-- The two balances of a merge add up to one that fits. -/
def MergedFits (d : Db) (tenantId : Uuid) (dto : MergeCustomersDto) : Prop :=
  dto.primary_id.chars ≠ dto.secondary_id.chars →
    ∀ p ∈ d.customer tenantId dto.primary_id.value, ∀ s ∈ d.customer tenantId dto.secondary_id.value,
      p.balance_cents + s.balance_cents ≤ maxInt4

theorem mergeLocked_overflows (hd : FitsColumns d) {p s : Customer} {id id' : Uuid}
    (hp : p ∈ d.customer tenantId id) (hs : s ∈ d.customer tenantId id') :
    postgres.eval (mergeLocked env tenantId p s) d = .error outOfRange ↔
      maxInt4 < p.balance_cents + s.balance_cents := by
  obtain ⟨hfoundP, ⟨hnonnegP, hbalanceP⟩, hlimitP⟩ := columns_of_customer hd hp
  obtain ⟨hfoundS, ⟨hnonnegS, hbalanceS⟩, hlimitS⟩ := columns_of_customer hd hs
  obtain ⟨table, hmoved, -⟩ := eval_moveTransactions tenantId s.id p.id
    (env.scan ((d.transactionsOf tenantId s.id).map (·.id))) d
  have hlimit : Int4 (max p.credit_limit_cents s.credit_limit_cents) := by
    rcases max_choice p.credit_limit_cents s.credit_limit_cents with h | h <;> rw [h] <;> assumption
  rw [mergeLocked, Engine.eval_bind, eval_query]
  simp only [Sql.exec, Except.map, ok_bind, Engine.view_nil]
  rw [Engine.eval_bind, hmoved, ok_bind]
  by_cases hlarge : maxInt4 < p.balance_cents + s.balance_cents
  · refine ⟨fun _ ↦ hlarge, fun _ ↦ ?_⟩
    exact eval_save_of_large (v := { d with transactions := table }) (mergedPrimary p s)
      hfoundP hbalanceP hlarge
  · refine ⟨fun h ↦ ?_, fun h ↦ (hlarge h).elim⟩
    have h := overflow_of_save (v := { d with transactions := table }) (mergedPrimary p s) h
      hfoundP ⟨(int4_iff (add_nonneg hnonnegP hnonnegS)).2 (not_lt.1 hlarge), hlimit⟩
    have hfound : ∃ c, (putCustomer (mergedPrimary p s) { d with transactions := table }).customers.find
        (absorbed s).id = some c := by
      by_cases hid : s.id = p.id
      · refine ⟨mergedPrimary p s, ?_⟩
        rw [show (absorbed s).id = (mergedPrimary p s).id from hid]
        exact find_putCustomer (v := { d with transactions := table }) (mergedPrimary p s) hfoundP
      · exact ⟨s, (find_putCustomer_of_ne (mergedPrimary p s) { d with transactions := table }
          hid).trans hfoundS⟩
    obtain ⟨c, hc⟩ := hfound
    have h := overflow_of_save _ h hc ⟨(by decide : Int4 0), hlimitS⟩
    cases h

theorem lockMerged_overflow {id : UuidText} {dto : MergeCustomersDto} {f : Customer → Script α} :
    postgres.eval (lockMerged tenantId dto id >>= f) d = .error outOfRange ↔
      ∃ c ∈ d.customer tenantId id.value, postgres.eval (f c) d = .error outOfRange := by
  obtain ⟨hfound, hmissing⟩ := eval_lockMerged tenantId dto id d
  rw [Engine.eval_bind]
  cases hc : d.customer tenantId id.value with
  | none =>
    obtain ⟨message, hfail⟩ := hmissing hc
    rw [hfail]
    simp [outOfRange]
  | some c =>
    rw [hfound c hc, ok_bind]
    simp

theorem mergeCustomers_overflows (env : Env) (hd : FitsColumns d) (dto : MergeCustomersDto) :
    postgres.eval (mergeCustomers env tenantId dto) d ≠ .error outOfRange ↔
      MergedFits d tenantId dto := by
  have hiff : postgres.eval (mergeCustomers env tenantId dto) d = .error outOfRange ↔
      dto.primary_id.chars ≠ dto.secondary_id.chars ∧
        ∃ p ∈ d.customer tenantId dto.primary_id.value,
          ∃ s ∈ d.customer tenantId dto.secondary_id.value,
            maxInt4 < p.balance_cents + s.balance_cents := by
    rw [mergeCustomers_eq]
    split
    · rename_i heq
      simp [heq, outOfRange]
    rename_i hne
    split
    · simp only [lockMerged_overflow]
      constructor
      · rintro ⟨p, hp, s, hs, h⟩
        exact ⟨hne, p, hp, s, hs, (mergeLocked_overflows hd hp hs).1 h⟩
      · rintro ⟨-, p, hp, s, hs, h⟩
        exact ⟨p, hp, s, hs, (mergeLocked_overflows hd hp hs).2 h⟩
    · simp only [lockMerged_overflow]
      constructor
      · rintro ⟨s, hs, p, hp, h⟩
        exact ⟨hne, p, hp, s, hs, (mergeLocked_overflows hd hp hs).1 h⟩
      · rintro ⟨-, p, hp, s, hs, h⟩
        exact ⟨s, hs, p, hp, (mergeLocked_overflows hd hp hs).2 h⟩
  rw [Ne, hiff, MergedFits]
  simp only [not_and, not_exists, not_lt]

/-! ## Batches -/

/-- The balance of a debtor with its percentage stays below the next number the column has. -/
def DebtorFits (dto : InflationAdjustmentDto) (c : Customer) : Prop :=
  c.balance_cents + toDouble (toDouble (c.balance_cents * dto.percentage) / 100) < maxInt4 + 1 / 2

theorem debtorFits_iff {dto : InflationAdjustmentDto} {c : Customer} :
    DebtorFits dto c ↔ c.balance_cents + adjustmentOf dto c.balance_cents ≤ maxInt4 := by
  unfold DebtorFits adjustmentOf mathRound
  set q := toDouble (toDouble (c.balance_cents * dto.percentage) / 100)
  calc (c.balance_cents : ℚ) + q < maxInt4 + 1 / 2
      ↔ q + 1 / 2 < ((maxInt4 - c.balance_cents + 1 : ℤ) : ℚ) := by
        push_cast
        constructor <;> intro h <;> linarith
    _ ↔ ⌊q + 1 / 2⌋ < maxInt4 - c.balance_cents + 1 := Int.floor_lt.symm
    _ ↔ c.balance_cents + ⌊q + 1 / 2⌋ ≤ maxInt4 := by omega

/-- The identifiers that the rest of a batch takes from the environment are free. -/
def FreeFrom (env : Env) (tenantId : Uuid) (index : ℕ) (v : Db) : Prop :=
  ∀ n, 2 * index ≤ n → v.transactions.find (env.fresh n) = none ∧
    v.transactionByKey tenantId (env.fresh n) = none

theorem keyFree_iff {key : Uuid} : v.transactionByKey tenantId key = none ↔
    ∀ t ∈ v.transactions.rows, ¬(t.tenant_id = tenantId ∧ t.idempotency_key = key) := by
  simp [Db.transactionByKey]

theorem FreeFrom.of_unused (h : env.Unused d) : FreeFrom env tenantId 0 d := fun n _ ↦
  ⟨Unused.find_eq_none h n, keyFree_iff.2 fun t ht hkey ↦ (h t ht n).2.1 hkey.2⟩

theorem FreeFrom.succ {index : ℕ} (h : FreeFrom env tenantId index v) :
    FreeFrom env tenantId (index + 1) v := fun n hn ↦ h n (by omega)

/-- A posted row takes two identifiers. -/
theorem FreeFrom.posted {index : ℕ} {dto : InflationAdjustmentDto} {c mem : Customer}
    (hinj : Function.Injective env.fresh) (h : FreeFrom env tenantId index v) :
    FreeFrom env tenantId (index + 1) (putCustomer mem (putTransaction
      (adjustmentRow env tenantId userId dto index c) v)) := by
  intro n hn
  have hid : env.fresh (2 * index) ≠ env.fresh n := fun heq ↦ by
    have hindex := hinj heq
    omega
  have hkey : env.fresh (2 * index + 1) ≠ env.fresh n := fun heq ↦ by
    have hindex := hinj heq
    omega
  obtain ⟨hfind, hbyKey⟩ := h n (by omega)
  refine ⟨(Table.find_insert_of_ne hid).trans hfind, keyFree_iff.2 ?_⟩
  intro t ht
  rw [transactions_putCustomer, putTransaction,
    Table.rows_insert_of_fresh (h (2 * index) le_rfl).1] at ht
  rcases List.mem_append.1 ht with ht | ht
  · exact keyFree_iff.1 hbyKey t ht
  · obtain rfl := List.mem_singleton.1 ht
    exact fun heq ↦ hkey heq.2

/-- The columns of a debtor in the database. -/
structure FitsRow (c : Customer) (v : Db) : Prop where
  found : v.customers.find c.id = some c
  nonneg : 0 ≤ c.balance_cents
  balance : c.balance_cents ≤ maxInt4
  limit : Int4 c.credit_limit_cents

/-- What a debtor that stays in range becomes. -/
def adjusted (dto : InflationAdjustmentDto) (c : Customer) : Customer :=
  { c with balance_cents := c.balance_cents + adjustmentOf dto c.balance_cents }

section Debtor

variable {dto : InflationAdjustmentDto} {c : Customer} {debtors : List Customer} {index : ℕ}
  {total : ℤ}

theorem eval_adjust_of_fits (hc : FitsRow c v) (hfree : FreeFrom env tenantId index v)
    (hpos : 0 < adjustmentOf dto c.balance_cents) (hfits : DebtorFits dto c) :
    postgres.eval (adjustDebtors env tenantId userId dto index (c :: debtors) total) v =
      postgres.eval (adjustDebtors env tenantId userId dto (index + 1) debtors
          (total + adjustmentOf dto c.balance_cents))
        (putCustomer (adjusted dto c)
          (putTransaction (adjustmentRow env tenantId userId dto index c) v)) := by
  have hsum := debtorFits_iff.1 hfits
  have hnonneg := hc.nonneg
  rw [adjustDebtors, if_neg (not_le.2 hpos)]
  refine (eval_insert_of_free (v := v) (adjustmentRow env tenantId userId dto index c)
    (hfree (2 * index) le_rfl).1 (hfree (2 * index + 1) (by omega)).2
    ((int4_iff hpos.le).2 ?_)).trans ?_
  · exact (le_add_of_nonneg_left hnonneg).trans hsum
  · exact eval_save_of_fits (v := putTransaction _ v) (adjusted dto c) hc.found
      ⟨(int4_iff (add_nonneg hnonneg hpos.le)).2 hsum, hc.limit⟩

theorem eval_adjust_of_large (userId : Uuid) (debtors : List Customer) (total : ℤ) (hc : FitsRow c v) (hfree : FreeFrom env tenantId index v)
    (hlarge : ¬DebtorFits dto c) :
    postgres.eval (adjustDebtors env tenantId userId dto index (c :: debtors) total) v =
      .error outOfRange := by
  have hsum := not_le.1 (mt debtorFits_iff.2 hlarge)
  have hbalance := hc.balance
  have hpos : 0 < adjustmentOf dto c.balance_cents := by omega
  have hid := (hfree (2 * index) le_rfl).1
  have hkey := (hfree (2 * index + 1) (by omega)).2
  rw [adjustDebtors, if_neg (not_le.2 hpos)]
  by_cases hamount : maxInt4 < adjustmentOf dto c.balance_cents
  · exact eval_insert_of_large (v := v) (adjustmentRow env tenantId userId dto index c) hid
      hkey hamount
  · refine (eval_insert_of_free (v := v) (adjustmentRow env tenantId userId dto index c) hid
      hkey ((int4_iff hpos.le).2 (not_lt.1 hamount))).trans ?_
    exact eval_save_of_large (v := putTransaction _ v) (adjusted dto c) hc.found hbalance hsum

end Debtor

/-- The loop over debtors in range ends when all of them stay there, and else fails. -/
theorem adjustDebtors_overflows (tenantId userId : Uuid) {dto : InflationAdjustmentDto}
    (hinj : Function.Injective env.fresh) :
    ∀ (debtors : List Customer) (index : ℕ) (total : ℤ) (v : Db), (debtors.map (·.id)).Nodup →
      (∀ c ∈ debtors, FitsRow c v) → FreeFrom env tenantId index v →
      ((∀ c ∈ debtors, DebtorFits dto c) → ∃ total' v', v'.batches = v.batches ∧
        postgres.eval (adjustDebtors env tenantId userId dto index debtors total) v =
          .ok (total', v')) ∧
      ((∃ c ∈ debtors, ¬DebtorFits dto c) →
        postgres.eval (adjustDebtors env tenantId userId dto index debtors total) v =
          .error outOfRange) := by
  intro debtors
  induction debtors with
  | nil =>
    intro index total v _ _ _
    exact ⟨fun _ ↦ ⟨total, v, rfl, rfl⟩, by rintro ⟨c, hc, -⟩; exact absurd hc List.not_mem_nil⟩
  | cons c debtors ih =>
    intro index total v hnodup hrows hfree
    obtain ⟨hdistinct, hnodup⟩ := List.nodup_cons.1 hnodup
    have hc := hrows c List.mem_cons_self
    have hrest := fun c' (hc' : c' ∈ debtors) ↦ hrows c' (List.mem_cons_of_mem _ hc')
    by_cases hfits : DebtorFits dto c
    · simp only [List.forall_mem_cons, List.exists_mem_cons_iff, hfits, true_and,
        not_true_eq_false, false_or]
      by_cases hle : adjustmentOf dto c.balance_cents ≤ 0
      · rw [adjustDebtors, if_pos hle]
        exact ih (index + 1) total v hnodup hrest hfree.succ
      · rw [eval_adjust_of_fits hc hfree (not_le.1 hle) hfits]
        refine ih (index + 1) _ _ hnodup (fun c' hc' ↦ ?_) (hfree.posted hinj)
        have hmem : c'.id ∈ debtors.map (·.id) := List.mem_map_of_mem hc'
        have hne : c'.id ≠ c.id := ne_of_mem_of_not_mem hmem hdistinct
        have hrow := hrest c' hc'
        exact { hrow with
          found := (find_putCustomer_of_ne (adjusted dto c) _ hne).trans hrow.found }
    · have hfails := eval_adjust_of_large userId debtors total hc
        hfree hfits
      exact ⟨fun h ↦ (hfits (h c List.mem_cons_self)).elim, fun _ ↦ hfails⟩

/-- A new batch keeps every debtor in range, and the column holds the number of them. -/
def BatchFits (d : Db) (tenantId : Uuid) (dto : InflationAdjustmentDto) : Prop :=
  d.batchByKey tenantId dto.idempotency_key = none →
    (∀ c ∈ d.customersOf tenantId, 0 < c.balance_cents → DebtorFits dto c) ∧
      ((d.customersOf tenantId).filter fun c ↦ 0 < c.balance_cents).length ≤ maxInt4

theorem eval_insertBatch_of_free (row : IdempotentBatchOperation) {f : Unit → Script α}
    (hid : v.batches.find row.id = none)
    (hkey : v.batchByKey row.tenant_id row.idempotency_key = none) :
    postgres.eval (query (.insertBatch row) >>= f) v =
      if Int4 row.affected_customers then
        postgres.eval (f ()) { v with batches := v.batches.insert row }
      else .error outOfRange := by
  rw [Engine.eval_bind, eval_query]
  simp only [Sql.exec, Sql.writing]
  rw [if_neg (by simp [hid, hkey])]
  split <;> rfl

theorem applyInflationAdjustment_overflows (hd : FitsColumns d) (hunused : env.Unused d)
    (hinj : Function.Injective env.fresh) (hbatches : ∀ n, d.batches.find (env.fresh n) = none)
    (userId : Uuid) (dto : InflationAdjustmentDto) :
    postgres.eval (applyInflationAdjustment env tenantId userId dto) d ≠ .error outOfRange ↔
      BatchFits d tenantId dto := by
  rw [applyInflationAdjustment, Engine.eval_bind, eval_query]
  simp only [Sql.exec, Except.map, ok_bind, Engine.view_nil, BatchFits]
  cases hkey : d.batchByKey tenantId dto.idempotency_key with
  | some existing => simp
  | none =>
    have hperm := lockedCustomers_perm env d tenantId
    simp only [forall_true_left]
    rw [Engine.eval_bind, eval_query]
    simp only [Sql.exec, Except.map, ok_bind, Engine.view_nil]
    rw [Engine.eval_bind, eval_lockCustomers, ok_bind]
    set customers := (env.scan ((d.customersOf tenantId).map (·.id))).filterMap (d.customer tenantId)
      with hcustomers
    set debtors := customers.filter fun c ↦ c.balance_cents > 0 with hdebtors
    have hmem : ∀ c, c ∈ debtors ↔ c ∈ d.customersOf tenantId ∧ 0 < c.balance_cents := fun c ↦ by
      rw [hdebtors, List.mem_filter, hperm.mem_iff, decide_eq_true_iff, gt_iff_lt]
    have hlength : debtors.length =
        ((d.customersOf tenantId).filter fun c ↦ 0 < c.balance_cents).length :=
      (hperm.filter _).length_eq
    have hnodup : (debtors.map (·.id)).Nodup :=
      ((hperm.map _).nodup_iff.2 (nodup_customersOf d tenantId)).sublist (List.filter_sublist.map _)
    have hrows : ∀ c ∈ debtors, FitsRow c d := fun c hc ↦ by
      have hrow := (List.mem_filter.1 ((hmem c).1 hc).1).1
      exact ⟨Table.find_eq_some.2 ⟨hrow, rfl⟩, hd.balances c hrow, (hd.customers c hrow).1.2,
        (hd.customers c hrow).2⟩
    have hall : (∀ c ∈ debtors, DebtorFits dto c) ↔
        ∀ c ∈ d.customersOf tenantId, 0 < c.balance_cents → DebtorFits dto c := by
      simp only [hmem, and_imp]
    obtain ⟨hends, hfails⟩ := adjustDebtors_overflows tenantId userId
      hinj debtors 0 0 d hnodup hrows (.of_unused hunused)
    rw [Engine.eval_bind]
    by_cases hfits : ∀ c ∈ debtors, DebtorFits dto c
    · obtain ⟨total, v, hkept, heval⟩ := hends hfits
      have hid : v.batches.find (env.fresh (2 * debtors.length)) = none := by
        rw [hkept]
        exact hbatches _
      have hfree : v.batchByKey tenantId dto.idempotency_key = none := by
        rw [Db.batchByKey, hkept]
        exact hkey
      have hcount : Int4 debtors.length ↔
          ((d.customersOf tenantId).filter fun c ↦ 0 < c.balance_cents).length ≤ maxInt4 := by
        rw [int4_iff (Int.natCast_nonneg _), hlength]
      rw [heval, ok_bind]
      refine Iff.trans ?_ ((and_iff_right (hall.1 hfits)).trans hcount.symm).symm
      refine (not_congr (Eq.congr_left (eval_insertBatch_of_free (v := v)
        (batchRow env tenantId dto debtors.length total) hid hfree))).trans ?_
      split
      · rename_i hint
        exact ⟨fun _ ↦ hint, fun _ h ↦ by cases h⟩
      · rename_i hlarge
        exact ⟨fun h ↦ (h rfl).elim, fun hint ↦ (hlarge hint).elim⟩
    · rw [hfails (by simpa using hfits), error_bind]
      exact ⟨fun h ↦ (h rfl).elim, fun h ↦ (hfits (hall.2 h.1)).elim⟩

/-! ## Requests served alone -/

/-- When a request on balances stays within the columns; other requests are not described. -/
def StaysInRange (d : Db) : Request → Prop
  | .registerDebt _ _ _ => True
  | .registerPayment _ _ _ => True
  | .registerMixedPayment _ _ _ => True
  | .forgiveDebt _ _ _ => True
  | .reverseTransaction tenantId _ transactionId dto => ReversalFits d tenantId transactionId dto
  | .applyInflationAdjustment tenantId _ dto => BatchFits d tenantId dto
  | .mergeCustomers tenantId dto => MergedFits d tenantId dto
  | _ => False

/-- The operations that compute balances. -/
def ComputesBalances : Request → Prop
  | .registerDebt _ _ _ => True
  | .registerPayment _ _ _ => True
  | .registerMixedPayment _ _ _ => True
  | .forgiveDebt _ _ _ => True
  | .reverseTransaction _ _ _ _ => True
  | .applyInflationAdjustment _ _ _ => True
  | .mergeCustomers _ _ => True
  | _ => False

theorem eval_answer {p : Script α} {f : α → Answer} {e : ServiceError} :
    postgres.eval (p >>= fun a ↦ (pure (f a) : Script Answer)) d = .error e ↔
      postgres.eval p d = .error e := by
  rw [Engine.eval_bind]
  cases postgres.eval p d with
  | error e' => rw [error_bind, Except.error.injEq, Except.error.injEq]
  | ok x => constructor <;> intro h <;> cases h

/-- A request fails on a column exactly when its operation does. -/
theorem overflows_iff {p : Script α} {f : α → Answer} (hp : p.Transactional postgres) :
    (postgres.alone (p >>= fun a ↦ (pure (f a) : Script Answer)) [] d).1 = .error outOfRange ↔
      postgres.eval p d = .error outOfRange := by
  have hanswer : ∀ a, (pure (f a) : Script Answer).ReadsOnly postgres := fun _ ↦ trivial
  rw [Engine.alone_error_iff (hp.bind hanswer), eval_answer]

theorem balances_fit (hd : Reachable d) (hunused : env.Unused d)
    (hinj : Function.Injective env.fresh) (hbatches : ∀ n, d.batches.find (env.fresh n) = none)
    {req : Request} (hreq : ComputesBalances req) : ¬Overflows req env d ↔ StaysInRange d req := by
  have hfits := fitsColumns_of_reachable hd
  cases req with
  | registerDebt tenantId userId dto =>
    rw [Overflows, Request.script, overflows_iff (transactional_debt env tenantId userId dto)]
    exact iff_of_true (registerDebt_fits hfits userId dto) trivial
  | registerPayment tenantId userId dto =>
    rw [Overflows, Request.script, overflows_iff (transactional_payment env tenantId userId dto)]
    exact iff_of_true (registerPayment_fits hfits userId dto) trivial
  | registerMixedPayment tenantId userId dto =>
    have hp := transactional_mixed env toDouble tenantId userId dto
    rw [registerMixedPaymentIn_toDouble] at hp
    rw [Overflows, Request.script, overflows_iff hp]
    exact iff_of_true (registerMixedPayment_fits hfits userId dto) trivial
  | forgiveDebt tenantId userId dto =>
    rw [Overflows, Request.script, overflows_iff (transactional_forgiveness env tenantId userId dto)]
    exact iff_of_true (forgiveDebt_fits hfits userId dto) trivial
  | reverseTransaction tenantId userId transactionId dto =>
    rw [Overflows, Request.script,
      overflows_iff (transactional_reversal env tenantId userId transactionId dto)]
    exact ⟨fits_of_reversal hfits hunused, reversal_fits hfits⟩
  | applyInflationAdjustment tenantId userId dto =>
    have hp := transactional_inflation env toDouble tenantId userId dto
    rw [applyInflationAdjustmentIn_toDouble] at hp
    rw [Overflows, Request.script, overflows_iff hp]
    exact applyInflationAdjustment_overflows hfits hunused hinj hbatches userId dto
  | mergeCustomers tenantId dto =>
    have hp := (commitsLast_merge env tenantId dto).transactional (E := postgres) committing_merge
    refine Iff.trans ?_ (mergeCustomers_overflows env hfits dto)
    rw [Overflows, Engine.alone_error_iff hp, Request.script, eval_answer]
  | _ => exact hreq.elim

theorem balances_fit_takeover :
    ¬Overflows (.mergeCustomers 1 takeover) (sampleEnv 10) owing ↔
      StaysInRange owing (.mergeCustomers 1 takeover) := by
  have hinj : Function.Injective (sampleEnv 10).fresh := fun m n h ↦ by
    have heq : 100 * (m + 1) + 10 = 100 * (n + 1) + 10 := h
    omega
  have hbatches : owing.batches = Table.empty := by decide +kernel
  exact balances_fit reachable_owing (unused_owing (k := 1) (by decide) 0) hinj
    (fun n ↦ by rw [hbatches]; rfl) trivial

/-! ## Two debtors that are nearly at the limit -/

/-- Two customers with the greatest limit and a debt of each up to it. -/
def indebting : Fin 4 → Request
  | 0 => .createCustomer 1 carla
  | 1 => .createCustomer 1 carla
  | 2 => .registerDebt 1 2 (largestDebt 100 7)
  | 3 => .registerDebt 1 2 (largestDebt 101 8)

def bothIndebted : Db :=
  (postgres.run (serve indebting (fun i ↦ sampleEnv i) (Db.opened sampleTenants))
    (turns 0 10 ++ turns 1 10 ++ turns 2 12 ++ turns 3 12)).db

theorem reachable_bothIndebted : Reachable bothIndebted :=
  ⟨Fin 4, inferInstance, indebting, fun i ↦ sampleEnv i, sampleTenants, _,
    freshIds_sample Fin.val_injective (by decide) (by decide), rfl⟩

/-- Neither can take over the other's debt, and no batch can raise the debts by ten percent. -/
theorem balances_overflow : Reachable bothIndebted ∧
    ∀ req ∈ [Request.mergeCustomers 1 takeover,
        .applyInflationAdjustment 1 2 (raiseBy 10 (by norm_num))],
      ComputesBalances req ∧ Overflows req (sampleEnv 10) bothIndebted := by
  refine ⟨reachable_bothIndebted, ?_⟩
  simp only [List.forall_mem_cons, List.not_mem_nil, false_imp_iff, implies_true, and_true]
  exact ⟨⟨trivial, by decide +kernel⟩, trivial, by decide +kernel⟩

end MicroErp.Guarantees
