import MicroErp.Services.Rounding

/-!
# The computations over another arithmetic

The two operations that compute with fractions, over a rounding `fl` of each product and quotient.
With `toDouble` they are what JavaScript computes, with `id` what exact arithmetic would.
-/

namespace MicroErp.Services

open MicroErp.Concurrency MicroErp.Database

variable (env : Env) (fl : ℚ → ℚ)

/-! ## registerMixedPayment -/

def effectiveSharesIn (dto : CreateMixedPaymentDto) (balanceCents : ℤ) : ℤ × ℤ :=
  let totalEffective := min dto.total_amount_cents balanceCents
  if totalEffective < dto.total_amount_cents then
    let ratio := fl (totalEffective / dto.total_amount_cents)
    let cashEffective := mathRound (fl (dto.cash_amount_cents * ratio))
    (cashEffective, totalEffective - cashEffective)
  else (dto.cash_amount_cents, dto.transfer_amount_cents)

def registerMixedPaymentIn (tenantId userId : Uuid) (dto : CreateMixedPaymentDto) :
    Script MixedPayment := do
  let cash := dto.cash_amount_cents
  let transfer := dto.transfer_amount_cents
  let total := dto.total_amount_cents
  if cash + transfer ≠ total then
    Prog.fail (.unprocessableEntity
      s!"La suma de efectivo ({cash}) + transferencia ({transfer}) no coincide con el total ({total})")
  else
    match ← findByIdempotencyKey tenantId dto.idempotency_key with
    | some existing =>
      Prog.commitTransaction
      replayMixedPayment existing
    | none =>
      let customer ← lockCustomer tenantId dto.customer_id
      if customer.balance_cents ≤ 0 then
        Prog.fail (.unprocessableEntity "El cliente no tiene deuda pendiente")
      else
        let shares := effectiveSharesIn fl dto customer.balance_cents
        let cashTx := cashRow env tenantId userId dto shares.1
        insertTransaction cashTx
        let transferTx := transferRow env tenantId userId dto shares.2
        insertTransaction transferTx
        saveCustomer { customer with
          balance_cents := max 0 (customer.balance_cents - (shares.1 + shares.2)) }
        Prog.commitTransaction
        pure ⟨cashTx, transferTx⟩

theorem registerMixedPaymentIn_toDouble (tenantId userId : Uuid) (dto : CreateMixedPaymentDto) :
    registerMixedPaymentIn env toDouble tenantId userId dto =
      registerMixedPayment env tenantId userId dto := rfl

/-! ## applyInflationAdjustment -/

def adjustmentIn (dto : InflationAdjustmentDto) (balanceCents : ℤ) : ℤ :=
  mathRound (fl (fl (balanceCents * dto.percentage) / 100))

def adjustmentRowIn (tenantId userId : Uuid) (dto : InflationAdjustmentDto) (index : ℕ)
    (customer : Customer) : Transaction :=
  { adjustmentRow env tenantId userId dto index customer with
    amount_cents := adjustmentIn fl dto customer.balance_cents }

def adjustDebtorsIn (tenantId userId : Uuid) (dto : InflationAdjustmentDto) :
    ℕ → List Customer → ℤ → Script ℤ
  | _, [], totalAdjustment => pure totalAdjustment
  | index, customer :: debtors, totalAdjustment => do
    let adjustmentCents := adjustmentIn fl dto customer.balance_cents
    if adjustmentCents ≤ 0 then
      adjustDebtorsIn tenantId userId dto (index + 1) debtors totalAdjustment
    else
      insertTransaction (adjustmentRowIn env fl tenantId userId dto index customer)
      saveCustomer { customer with balance_cents := customer.balance_cents + adjustmentCents }
      adjustDebtorsIn tenantId userId dto (index + 1) debtors (totalAdjustment + adjustmentCents)

def applyInflationAdjustmentIn (tenantId userId : Uuid) (dto : InflationAdjustmentDto) :
    Script InflationResult := do
  match ← query (.findBatch tenantId dto.idempotency_key) with
  | some existingBatch =>
    Prog.commitTransaction
    pure ⟨existingBatch.affected_customers, existingBatch.total_adjustment_cents⟩
  | none =>
    let ids ← query (.selectCustomers tenantId)
    let customers ← lockCustomers tenantId (env.scan ids)
    let debtors := customers.filter fun c ↦ c.balance_cents > 0
    let totalAdjustment ← adjustDebtorsIn env fl tenantId userId dto 0 debtors 0
    query (.insertBatch (batchRow env tenantId dto debtors.length totalAdjustment))
    Prog.commitTransaction
    pure ⟨debtors.length, totalAdjustment⟩

theorem adjustDebtorsIn_toDouble (tenantId userId : Uuid) (dto : InflationAdjustmentDto) (index : ℕ)
    (debtors : List Customer) (total : ℤ) :
    adjustDebtorsIn env toDouble tenantId userId dto index debtors total =
      adjustDebtors env tenantId userId dto index debtors total := by
  induction debtors generalizing index total with
  | nil => rfl
  | cons customer debtors ih =>
    unfold adjustDebtorsIn adjustDebtors
    simp only [ih]
    rfl

theorem applyInflationAdjustmentIn_toDouble (tenantId userId : Uuid) (dto : InflationAdjustmentDto) :
    applyInflationAdjustmentIn env toDouble tenantId userId dto =
      applyInflationAdjustment env tenantId userId dto := by
  have hdebtors : adjustDebtorsIn env toDouble = adjustDebtors env := by
    funext tenantId userId dto index debtors total
    exact adjustDebtorsIn_toDouble env tenantId userId dto index debtors total
  unfold applyInflationAdjustmentIn
  rw [hdebtors]
  rfl

end MicroErp.Services
