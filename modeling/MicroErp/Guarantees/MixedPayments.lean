import MicroErp.Commits.Alone
import MicroErp.Commits.Runs
import MicroErp.Services.ExactArithmetic

/-!
# The split of a mixed payment

In exact arithmetic the two rows of a mixed payment always add up, never exceed the two amounts and
stay within half a cent of the exact shares.  A row of nothing arises when a share rounds to zero.
-/

namespace MicroErp.Guarantees

open MicroErp.Commits MicroErp.Concurrency MicroErp.Database MicroErp.Services MicroErp.Storage

/-! ## The shares -/

/-- A share of the amount `part` when `paid` of the total is paid. -/
def exactShare (dto : CreateMixedPaymentDto) (part paid : ℤ) : ℚ :=
  part * paid / dto.total_amount_cents

/-- The rows `cash` and `transfer` split what is paid of the balance `before`. -/
structure FairSplit (dto : CreateMixedPaymentDto) (before after cash transfer : ℤ) : Prop where
  total : cash + transfer = min dto.total_amount_cents before
  paid : before - after = min dto.total_amount_cents before
  cash_le : cash ≤ dto.cash_amount_cents
  transfer_le : transfer ≤ dto.transfer_amount_cents
  cash_near : |cash - exactShare dto dto.cash_amount_cents (min dto.total_amount_cents before)| ≤
    1 / 2
  transfer_near : |transfer - exactShare dto dto.transfer_amount_cents
    (min dto.total_amount_cents before)| ≤ 1 / 2

/-- No row is empty either. -/
structure SoundSplit (dto : CreateMixedPaymentDto) (before after cash transfer : ℤ) : Prop
    extends FairSplit dto before after cash transfer where
  cash_pos : 0 < cash
  transfer_pos : 0 < transfer

/-- The balance covers the total, or both shares of it round to at least one cent. -/
def KeepsBothLegs (dto : CreateMixedPaymentDto) (balanceCents : ℤ) : Prop :=
  dto.total_amount_cents ≤ balanceCents ∨
    (dto.total_amount_cents ≤ 2 * dto.cash_amount_cents * balanceCents ∧
      dto.total_amount_cents < 2 * dto.transfer_amount_cents * balanceCents)

instance (dto : CreateMixedPaymentDto) (balanceCents : ℤ) : Decidable (KeepsBothLegs dto balanceCents) :=
  inferInstanceAs (Decidable (_ ∨ _ ∧ _))

section Shares

variable {dto : CreateMixedPaymentDto} {b : ℤ}

theorem total_pos (dto : CreateMixedPaymentDto) : (0 : ℚ) < dto.total_amount_cents := by
  exact_mod_cast dto.total_valid.1

theorem exactShares_of_le (h : dto.total_amount_cents ≤ b) :
    effectiveSharesIn id dto b = (dto.cash_amount_cents, dto.transfer_amount_cents) := by
  unfold effectiveSharesIn
  simp only
  rw [min_eq_left h, if_neg (lt_irrefl _)]

/-- The cash share of a balance below the total. -/
theorem exactShares_of_lt (h : b < dto.total_amount_cents) :
    effectiveSharesIn id dto b =
      (⌊exactShare dto dto.cash_amount_cents b + 1 / 2⌋,
        b - ⌊exactShare dto dto.cash_amount_cents b + 1 / 2⌋) := by
  unfold effectiveSharesIn
  simp only
  rw [min_eq_right h.le, if_pos h]
  simp only [id, mathRound, exactShare, mul_div_assoc]

theorem exactShare_add (htotal : dto.cash_amount_cents + dto.transfer_amount_cents =
      dto.total_amount_cents) (paid : ℤ) :
    exactShare dto dto.cash_amount_cents paid + exactShare dto dto.transfer_amount_cents paid =
      paid := by
  have hsum : (dto.cash_amount_cents : ℚ) + dto.transfer_amount_cents = dto.total_amount_cents := by
    exact_mod_cast htotal
  have hpos := (total_pos dto).ne'
  unfold exactShare
  rw [← add_div, ← add_mul, hsum]
  field_simp

/-- A share of a balance below the total is at most the amount. -/
theorem exactShare_le {part : ℤ} (hpart : 0 ≤ part) (h : b ≤ dto.total_amount_cents) :
    exactShare dto part b ≤ part := by
  have hb : (b : ℚ) ≤ dto.total_amount_cents := by exact_mod_cast h
  have hp : (0 : ℚ) ≤ part := by exact_mod_cast hpart
  unfold exactShare
  rw [div_le_iff₀ (total_pos dto)]
  exact mul_le_mul_of_nonneg_left hb hp

theorem exactShare_total (part : ℤ) : exactShare dto part dto.total_amount_cents = part := by
  have hpos := (total_pos dto).ne'
  unfold exactShare
  field_simp

theorem fairSplit (htotal : dto.cash_amount_cents + dto.transfer_amount_cents =
      dto.total_amount_cents) :
    FairSplit dto b (max 0 (b - ((effectiveSharesIn id dto b).1 + (effectiveSharesIn id dto b).2)))
      (effectiveSharesIn id dto b).1 (effectiveSharesIn id dto b).2 := by
  rcases le_or_gt dto.total_amount_cents b with hle | hlt
  · rw [exactShares_of_le hle]
    simp only
    constructor
    · omega
    · omega
    · exact le_rfl
    · exact le_rfl
    · rw [min_eq_left hle, exactShare_total]
      norm_num
    · rw [min_eq_left hle, exactShare_total]
      norm_num
  · rw [exactShares_of_lt hlt]
    set x := exactShare dto dto.cash_amount_cents b with hx
    have hfloor : (⌊x + 1 / 2⌋ : ℚ) ≤ x + 1 / 2 := Int.floor_le _
    have hlast : x + 1 / 2 < ⌊x + 1 / 2⌋ + 1 := Int.lt_floor_add_one _
    have hcash : x ≤ dto.cash_amount_cents := exactShare_le dto.cash_valid.1.le hlt.le
    have htransfer : exactShare dto dto.transfer_amount_cents b ≤ dto.transfer_amount_cents :=
      exactShare_le dto.transfer_valid.1.le hlt.le
    have hadd := exactShare_add htotal b
    simp only
    constructor
    · omega
    · omega
    · exact mathRound_le (by linarith)
    · have hge : (b : ℚ) - dto.transfer_amount_cents < ⌊x + 1 / 2⌋ + 1 := by linarith
      have hge' : b - dto.transfer_amount_cents < ⌊x + 1 / 2⌋ + 1 := by exact_mod_cast hge
      omega
    · rw [min_eq_right hlt.le, abs_le]
      constructor <;> linarith
    · rw [min_eq_right hlt.le, abs_le, Int.cast_sub]
      constructor <;> linarith

theorem pos_iff_keepsBothLegs (htotal : dto.cash_amount_cents + dto.transfer_amount_cents =
      dto.total_amount_cents) :
    (0 < (effectiveSharesIn id dto b).1 ∧ 0 < (effectiveSharesIn id dto b).2) ↔
      KeepsBothLegs dto b := by
  have hT := total_pos dto
  rcases le_or_gt dto.total_amount_cents b with hle | hlt
  · rw [exactShares_of_le hle]
    exact ⟨fun _ ↦ Or.inl hle, fun _ ↦ ⟨dto.cash_valid.1, dto.transfer_valid.1⟩⟩
  · rw [exactShares_of_lt hlt]
    have hcash : 0 < ⌊exactShare dto dto.cash_amount_cents b + 1 / 2⌋ ↔
        dto.total_amount_cents ≤ 2 * dto.cash_amount_cents * b := by
      calc 0 < ⌊exactShare dto dto.cash_amount_cents b + 1 / 2⌋
          ↔ ((1 : ℤ) : ℚ) ≤ exactShare dto dto.cash_amount_cents b + 1 / 2 := Int.le_floor
        _ ↔ (1 : ℚ) / 2 ≤ dto.cash_amount_cents * b / dto.total_amount_cents := by
          rw [exactShare]
          constructor <;> intro h <;> push_cast at h ⊢ <;> linarith
        _ ↔ (dto.total_amount_cents : ℚ) ≤ 2 * dto.cash_amount_cents * b := by
          rw [le_div_iff₀ hT]
          constructor <;> intro h <;> linarith
        _ ↔ dto.total_amount_cents ≤ 2 * dto.cash_amount_cents * b := by exact_mod_cast Iff.rfl
    have htransfer : 0 < b - ⌊exactShare dto dto.cash_amount_cents b + 1 / 2⌋ ↔
        dto.total_amount_cents < 2 * dto.transfer_amount_cents * b := by
      have hadd := exactShare_add htotal b
      calc 0 < b - ⌊exactShare dto dto.cash_amount_cents b + 1 / 2⌋
          ↔ exactShare dto dto.cash_amount_cents b + 1 / 2 < b := by rw [sub_pos, Int.floor_lt]
        _ ↔ (1 : ℚ) / 2 < dto.transfer_amount_cents * b / dto.total_amount_cents := by
          rw [← exactShare]
          constructor <;> intro h <;> linarith
        _ ↔ (dto.total_amount_cents : ℚ) < 2 * dto.transfer_amount_cents * b := by
          rw [lt_div_iff₀ hT]
          constructor <;> intro h <;> linarith
        _ ↔ dto.total_amount_cents < 2 * dto.transfer_amount_cents * b := by exact_mod_cast Iff.rfl
    simp only [hcash, htransfer, KeepsBothLegs, not_le.2 hlt, false_or]

end Shares

/-! ## The run of a mixed payment -/

section Run

variable {env : Env} {fl : ℚ → ℚ} {tenantId userId : Uuid} {dto : CreateMixedPaymentDto} {d d' : Db}
  {rows : MixedPayment}

/-- The customer once a mixed payment is taken off its balance. -/
def paidDown (fl : ℚ → ℚ) (dto : CreateMixedPaymentDto) (c : Customer) : Customer :=
  { c with balance_cents := max 0 (c.balance_cents - ((effectiveSharesIn fl dto c.balance_cents).1 +
      (effectiveSharesIn fl dto c.balance_cents).2)) }

/-- A mixed payment under a new key that answers. -/
theorem mixed_of_eval (hnew : d.transactionByKey tenantId dto.idempotency_key = none)
    (h : postgres.eval (registerMixedPaymentIn env fl tenantId userId dto) d = .ok (rows, d')) :
    dto.cash_amount_cents + dto.transfer_amount_cents = dto.total_amount_cents ∧
      ∃ c ∈ d.customer tenantId dto.customer_id,
        rows = ⟨cashRow env tenantId userId dto (effectiveSharesIn fl dto c.balance_cents).1,
          transferRow env tenantId userId dto (effectiveSharesIn fl dto c.balance_cents).2⟩ ∧
        0 < c.balance_cents ∧ d' = putCustomer (paidDown fl dto c)
          (putTransaction rows.transfer (putTransaction rows.cash d)) := by
  unfold registerMixedPaymentIn at h
  simp only at h
  split at h
  · cases h
  rename_i htotal
  refine ⟨not_not.1 htotal, ?_⟩
  rw [Engine.eval_bind, eval_findByIdempotencyKey, ok_bind, hnew, Engine.eval_bind,
    eval_lockCustomer] at h
  cases hc : d.customer tenantId dto.customer_id with
  | none =>
    rw [hc] at h
    cases h
  | some c =>
    rw [hc] at h
    simp only [ok_bind] at h
    split at h
    · cases h
    rename_i hbalance
    have hfound := (find_of_customer hc).1
    obtain ⟨-, h⟩ := of_eval_insertTransaction h
    obtain ⟨-, h⟩ := of_eval_insertTransaction h
    obtain ⟨-, h⟩ := of_eval_saveCustomer h hfound
    cases h
    exact ⟨c, rfl, rfl, not_le.1 hbalance, rfl⟩

theorem transactional_mixed (env : Env) (fl : ℚ → ℚ) (tenantId userId : Uuid)
    (dto : CreateMixedPaymentDto) :
    (registerMixedPaymentIn env fl tenantId userId dto).Transactional postgres := by
  unfold registerMixedPaymentIn
  simp only
  split
  · trivial
  refine Prog.Silent.bind_transactional (silent_query _) fun found ↦ ?_
  cases found with
  | some existing =>
    change (replayMixedPayment existing).ReadsOnly postgres
    unfold replayMixedPayment
    split
    · refine ⟨fun v r ws hexec ↦ ?_, fun _ ↦ trivial⟩
      cases hexec
      rfl
    · trivial
  | none =>
    refine Prog.Silent.bind_transactional (silent_lockCustomer _ _) fun c ↦ ?_
    split
    · trivial
    refine Prog.Silent.bind_transactional (silent_insertTransaction _) fun _ ↦ ?_
    refine Prog.Silent.bind_transactional (silent_insertTransaction _) fun _ ↦ ?_
    exact Prog.Silent.bind_transactional (silent_saveCustomer _) fun _ ↦ trivial

/-- Exactly when neither share rounds to nothing, a new mixed payment is split soundly. -/
theorem mixed_payment_split (hnew : d.transactionByKey tenantId dto.idempotency_key = none)
    (es : List (Event Unit))
    (hok : (postgres.run (Sys.start d fun _ ↦ registerMixedPaymentIn env id tenantId userId dto)
      es).outcome () = some (.ok rows)) :
    ∃ before ∈ d.customer tenantId dto.customer_id,
      ∃ after ∈ (postgres.run (Sys.start d fun _ ↦ registerMixedPaymentIn env id tenantId userId dto)
        es).db.customers.find before.id,
        FairSplit dto before.balance_cents after.balance_cents rows.cash.amount_cents
            rows.transfer.amount_cents ∧
          (SoundSplit dto before.balance_cents after.balance_cents rows.cash.amount_cents
              rows.transfer.amount_cents ↔ KeepsBothLegs dto before.balance_cents) := by
  have heval := Engine.eval_of_answer (transactional_mixed env id tenantId userId dto) hok
  obtain ⟨htotal, c, hc, rfl, hpos, hdb⟩ := mixed_of_eval hnew heval
  have hfair := fairSplit htotal (b := c.balance_cents)
  refine ⟨c, hc, paidDown id dto c, ?_, hfair, ?_⟩
  · rw [hdb]
    exact find_putCustomer (v := putTransaction _ (putTransaction _ d)) (paidDown id dto c)
      (find_of_customer hc).1
  · rw [← pos_iff_keepsBothLegs htotal]
    exact ⟨fun h ↦ ⟨h.cash_pos, h.transfer_pos⟩, fun h ↦ ⟨hfair, h.1, h.2⟩⟩

end Run

/-- An amount in cash and one by transfer against the debt of customer 100. -/
theorem no_description : MaxLength 500 none := rfl

theorem sixty_valid : ValidAmount 60 := by decide

def legs (cash transfer : ℤ) (hcash : ValidAmount cash) (htransfer : ValidAmount transfer)
    (htotal : ValidAmount (cash + transfer)) : CreateMixedPaymentDto :=
  { customer_id := 100, total_amount_cents := cash + transfer, cash_amount_cents := cash,
    transfer_amount_cents := transfer, description := none, idempotency_key := 12,
    total_valid := htotal, cash_valid := hcash, transfer_valid := htransfer,
    description_valid := no_description }

def unevenLegs : CreateMixedPaymentDto := legs 1 299 (by decide) (by decide) (by decide)

def evenLegs : CreateMixedPaymentDto := legs 90 60 (by decide) sixty_valid (by decide)

/-- A third of a cent is recorded as a payment of nothing. -/
theorem mixed_payment_of_nothing : Reachable owing ∧ owing.transactionByKey 1 12 = none ∧
    (((postgres.run (Sys.start owing fun _ : Unit ↦
        registerMixedPaymentIn (sampleEnv 10) id 1 2 unevenLegs)
      (List.replicate 15 (.step ()))).db.transactions.rows.filter fun t ↦ t.type = .PAYMENT).map
        (·.amount_cents)) = [0, 100] ∧
    (((postgres.run (Sys.start owing fun _ : Unit ↦
        registerMixedPayment (sampleEnv 10) 1 2 unevenLegs)
      (List.replicate 15 (.step ()))).db.transactions.rows.filter fun t ↦ t.type = .PAYMENT).map
        (·.amount_cents)) = [0, 100] :=
  ⟨reachable_owing, by decide +kernel, by decide +kernel, by decide +kernel⟩

/-- A payment of 150 settles the debt of 100 in the ratio of its two amounts. -/
theorem mixed_payment_split_even :
    ∃ before ∈ owing.customer 1 100,
      ∃ after ∈ (postgres.run (Sys.start owing fun _ : Unit ↦
          registerMixedPaymentIn (sampleEnv 10) id 1 2 evenLegs)
        (List.replicate 15 (.step ()))).db.customers.find before.id,
        FairSplit evenLegs before.balance_cents after.balance_cents 60 40 ∧
          (SoundSplit evenLegs before.balance_cents after.balance_cents 60 40 ↔
            KeepsBothLegs evenLegs before.balance_cents) := by
  have hnew : owing.transactionByKey 1 evenLegs.idempotency_key = none := by decide +kernel
  have hok : (postgres.run (Sys.start owing fun _ : Unit ↦
      registerMixedPaymentIn (sampleEnv 10) id 1 2 evenLegs) (List.replicate 15 (.step ()))).outcome
        () = some (.ok ⟨cashRow (sampleEnv 10) 1 2 evenLegs 60,
          transferRow (sampleEnv 10) 1 2 evenLegs 40⟩) := by
    decide +kernel
  exact mixed_payment_split hnew _ hok

end MicroErp.Guarantees
