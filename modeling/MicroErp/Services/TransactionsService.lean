import MicroErp.Services.Dto
import MicroErp.Services.Runtime

/-!
# TransactionsService

The operations that write the ledger.  Each one is a single database transaction: the statements
up to `commitTransaction`, or a rollback when something throws.
-/

namespace MicroErp.Services

open MicroErp.Concurrency MicroErp.Database

variable (env : Env)

def findByIdempotencyKey (tenantId idempotencyKey : Uuid) : Script (Option Transaction) :=
  query (.findTransactionByKey tenantId idempotencyKey)

def lockCustomer (tenantId customerId : Uuid) : Script Customer := do
  match ← query (.lockCustomer tenantId customerId) with
  | none => Prog.fail (.notFound "Cliente no encontrado")
  | some customer => pure customer

/-- A row with the defaults of the columns that its creator does not set. -/
def newTransaction (id tenantId customerId userId : Uuid) (type : TransactionType)
    (amountCents : ℤ) (description : Option String) (idempotencyKey : Uuid) : Transaction where
  id := id
  tenant_id := tenantId
  customer_id := customerId
  user_id := userId
  type := type
  amount_cents := amountCents
  description := description
  payment_method := none
  reference_group_id := none
  idempotency_key := idempotencyKey
  reversed_transaction_id := none
  is_reversed := false
  cash_register_log_id := none
  created_at := env.now

def debtRow (tenantId userId : Uuid) (dto : CreateTransactionDto) : Transaction :=
  newTransaction env (env.fresh 0) tenantId dto.customer_id userId .DEBT dto.amount_cents
    dto.description dto.idempotency_key

def registerDebt (tenantId userId : Uuid) (dto : CreateTransactionDto) : Script Transaction := do
  match ← findByIdempotencyKey tenantId dto.idempotency_key with
  | some existing =>
    Prog.commitTransaction
    pure existing
  | none =>
    let customer ← lockCustomer tenantId dto.customer_id
    if customer.is_active = false then
      Prog.fail (.forbidden "Cliente bloqueado. No se pueden registrar nuevas deudas")
    else
      let newBalance := customer.balance_cents + dto.amount_cents
      if newBalance > customer.credit_limit_cents then
        let balance := customer.balance_cents
        let limit := customer.credit_limit_cents
        Prog.fail (.unprocessableEntity
          s!"Excede el límite de crédito. Saldo actual: {balance} centavos, límite: {limit} centavos")
      else
        let transaction := debtRow env tenantId userId dto
        insertTransaction transaction
        saveCustomer { customer with balance_cents := newBalance }
        Prog.commitTransaction
        pure transaction

def paymentRow (tenantId userId : Uuid) (dto : CreatePaymentDto) (effectiveAmount : ℤ) :
    Transaction :=
  { newTransaction env (env.fresh 0) tenantId dto.customer_id userId .PAYMENT effectiveAmount
      dto.description dto.idempotency_key with
    payment_method := some (dto.payment_method.getD .CASH) }

def registerPayment (tenantId userId : Uuid) (dto : CreatePaymentDto) : Script Transaction := do
  match ← findByIdempotencyKey tenantId dto.idempotency_key with
  | some existing =>
    Prog.commitTransaction
    pure existing
  | none =>
    let customer ← lockCustomer tenantId dto.customer_id
    let effectiveAmount := min dto.amount_cents customer.balance_cents
    if effectiveAmount ≤ 0 then
      Prog.fail (.unprocessableEntity "El cliente no tiene deuda pendiente")
    else
      let transaction := paymentRow env tenantId userId dto effectiveAmount
      insertTransaction transaction
      saveCustomer { customer with balance_cents := customer.balance_cents - effectiveAmount }
      Prog.commitTransaction
      pure transaction

/-- The two rows of a mixed payment. -/
structure MixedPayment where
  cash : Transaction
  transfer : Transaction
  deriving DecidableEq

/-- The shares of a mixed payment that a balance still allows, cash first. -/
def effectiveShares (dto : CreateMixedPaymentDto) (balanceCents : ℤ) : ℤ × ℤ :=
  let totalEffective := min dto.total_amount_cents balanceCents
  if totalEffective < dto.total_amount_cents then
    let ratio := toDouble (totalEffective / dto.total_amount_cents)
    let cashEffective := mathRound (toDouble (dto.cash_amount_cents * ratio))
    (cashEffective, totalEffective - cashEffective)
  else (dto.cash_amount_cents, dto.transfer_amount_cents)

theorem effectiveShares_add {dto : CreateMixedPaymentDto}
    (htotal : dto.cash_amount_cents + dto.transfer_amount_cents = dto.total_amount_cents)
    (balanceCents : ℤ) :
    (effectiveShares dto balanceCents).1 + (effectiveShares dto balanceCents).2 =
      min dto.total_amount_cents balanceCents := by
  unfold effectiveShares
  simp only
  split <;> simp only <;> omega

def cashRow (tenantId userId : Uuid) (dto : CreateMixedPaymentDto) (cashEffective : ℤ) :
    Transaction :=
  { newTransaction env (env.fresh 1) tenantId dto.customer_id userId .PAYMENT cashEffective
      (dto.description.getD "Pago mixto — efectivo") dto.idempotency_key with
    payment_method := some .CASH
    reference_group_id := some (env.fresh 0) }

/-- The second row of a mixed payment has a key of its own. -/
def transferRow (tenantId userId : Uuid) (dto : CreateMixedPaymentDto) (transferEffective : ℤ) :
    Transaction :=
  { newTransaction env (env.fresh 2) tenantId dto.customer_id userId .PAYMENT transferEffective
      (dto.description.getD "Pago mixto — transferencia") (env.fresh 3) with
    payment_method := some .TRANSFER
    reference_group_id := some (env.fresh 0) }

/-- The first row of the group with this payment method, or the row that was looked up. -/
def legOf (group : List Transaction) (method : PaymentMethod) (existing : Transaction) :
    Transaction :=
  (group.find? fun t ↦ t.payment_method = some method).getD existing

/-- The rows that a replay answers, from the group of the row found under the key. -/
def replayMixedPayment (existing : Transaction) : Script MixedPayment :=
  match existing.reference_group_id with
  | some groupId => do
    let groupTxs ← query (.findTransactionsByGroup groupId)
    pure ⟨legOf groupTxs .CASH existing, legOf groupTxs .TRANSFER existing⟩
  | none => pure ⟨legOf [existing] .CASH existing, legOf [existing] .TRANSFER existing⟩

def registerMixedPayment (tenantId userId : Uuid) (dto : CreateMixedPaymentDto) :
    Script MixedPayment := do
  let cash := dto.cash_amount_cents
  let transfer := dto.transfer_amount_cents
  let total := dto.total_amount_cents
  if cash + transfer ≠ total then
    Prog.fail (.unprocessableEntity
      s!"La suma de efectivo ({cash}) + transferencia ({transfer}) no coincide con el total ({total})")
  else
    match ← findByIdempotencyKey tenantId dto.idempotency_key with
    | some existing =>
      Prog.commitTransaction
      replayMixedPayment existing
    | none =>
      let customer ← lockCustomer tenantId dto.customer_id
      if customer.balance_cents ≤ 0 then
        Prog.fail (.unprocessableEntity "El cliente no tiene deuda pendiente")
      else
        let shares := effectiveShares dto customer.balance_cents
        let cashTx := cashRow env tenantId userId dto shares.1
        insertTransaction cashTx
        let transferTx := transferRow env tenantId userId dto shares.2
        insertTransaction transferTx
        saveCustomer { customer with
          balance_cents := max 0 (customer.balance_cents - (shares.1 + shares.2)) }
        Prog.commitTransaction
        pure ⟨cashTx, transferTx⟩

/-- The balance after a row of this type and amount is reversed. -/
def balanceAfterReversal (type : TransactionType) (amountCents balanceCents : ℤ) : ℤ :=
  if type = .DEBT ∨ type = .INFLATION_ADJUSTMENT then max 0 (balanceCents - amountCents)
  else max 0 (balanceCents + amountCents)

def reversalRow (tenantId userId : Uuid) (dto : ReverseTransactionDto) (original : Transaction) :
    Transaction :=
  let originalId := uuidText original.id
  { newTransaction env (env.fresh 0) tenantId original.customer_id userId .REVERSAL
      original.amount_cents (dto.description.getD s!"Anulación de transacción {originalId}")
      dto.idempotency_key with
    reversed_transaction_id := some original.id }

def reverseTransaction (tenantId userId transactionId : Uuid) (dto : ReverseTransactionDto) :
    Script Transaction := do
  match ← findByIdempotencyKey tenantId dto.idempotency_key with
  | some existing =>
    Prog.commitTransaction
    pure existing
  | none =>
    match ← query (.findTransaction tenantId transactionId) with
    | none => Prog.fail (.notFound "Transacción no encontrada")
    | some original =>
      if original.is_reversed then Prog.fail (.conflict "Esta transacción ya fue anulada")
      else
        let customer ← lockCustomer tenantId original.customer_id
        let reversal := reversalRow env tenantId userId dto original
        insertTransaction reversal
        saveCustomer { customer with
          balance_cents :=
            balanceAfterReversal original.type original.amount_cents customer.balance_cents }
        saveTransaction { original with is_reversed := true }
        Prog.commitTransaction
        pure reversal

def forgivenessRow (tenantId userId : Uuid) (dto : ForgiveDebtDto) (forgivenAmount : ℤ) :
    Transaction :=
  newTransaction env (env.fresh 0) tenantId dto.customer_id userId .FORGIVENESS forgivenAmount
    dto.description dto.idempotency_key

def forgiveDebt (tenantId userId : Uuid) (dto : ForgiveDebtDto) : Script Transaction := do
  match ← findByIdempotencyKey tenantId dto.idempotency_key with
  | some existing =>
    Prog.commitTransaction
    pure existing
  | none =>
    let customer ← lockCustomer tenantId dto.customer_id
    if customer.balance_cents ≤ 0 then
      Prog.fail (.unprocessableEntity "El cliente no tiene deuda pendiente para condonar")
    else
      let transaction := forgivenessRow env tenantId userId dto customer.balance_cents
      insertTransaction transaction
      saveCustomer { customer with balance_cents := 0 }
      Prog.commitTransaction
      pure transaction

/-- What an inflation batch answers. -/
structure InflationResult where
  affected_customers : ℤ
  total_adjustment_cents : ℤ
  deriving DecidableEq

/-- Lock the customers one by one; a row that is gone is skipped. -/
def lockCustomers (tenantId : Uuid) : List Uuid → Script (List Customer)
  | [] => pure []
  | id :: ids => do
    let row ← query (.lockCustomer tenantId id)
    let rows ← lockCustomers tenantId ids
    pure (row.toList ++ rows)

/-- `Math.round((balance * percentage) / 100)`. -/
def adjustmentOf (dto : InflationAdjustmentDto) (balanceCents : ℤ) : ℤ :=
  mathRound (toDouble (toDouble (balanceCents * dto.percentage) / 100))

def adjustmentRow (tenantId userId : Uuid) (dto : InflationAdjustmentDto) (index : ℕ)
    (customer : Customer) : Transaction :=
  let percentage := env.numberText dto.percentage
  newTransaction env (env.fresh (2 * index)) tenantId customer.id userId .INFLATION_ADJUSTMENT
    (adjustmentOf dto customer.balance_cents) (some s!"Ajuste por inflación: {percentage}%")
    (env.fresh (2 * index + 1))

/-- The loop over the debtors, from the one with this index on. -/
def adjustDebtors (tenantId userId : Uuid) (dto : InflationAdjustmentDto) :
    ℕ → List Customer → ℤ → Script ℤ
  | _, [], totalAdjustment => pure totalAdjustment
  | index, customer :: debtors, totalAdjustment => do
    let adjustmentCents := adjustmentOf dto customer.balance_cents
    if adjustmentCents ≤ 0 then adjustDebtors tenantId userId dto (index + 1) debtors totalAdjustment
    else
      insertTransaction (adjustmentRow env tenantId userId dto index customer)
      saveCustomer { customer with balance_cents := customer.balance_cents + adjustmentCents }
      adjustDebtors tenantId userId dto (index + 1) debtors (totalAdjustment + adjustmentCents)

/-- The row that seals the batch, with the index after the last debtor's for its id. -/
def batchRow (tenantId : Uuid) (dto : InflationAdjustmentDto) (debtors : ℕ)
    (totalAdjustment : ℤ) : IdempotentBatchOperation where
  id := env.fresh (2 * debtors)
  tenant_id := tenantId
  idempotency_key := dto.idempotency_key
  operation_type := .INFLATION_ADJUSTMENT
  affected_customers := debtors
  total_adjustment_cents := totalAdjustment
  created_at := env.now

def applyInflationAdjustment (tenantId userId : Uuid) (dto : InflationAdjustmentDto) :
    Script InflationResult := do
  match ← query (.findBatch tenantId dto.idempotency_key) with
  | some existingBatch =>
    Prog.commitTransaction
    pure ⟨existingBatch.affected_customers, existingBatch.total_adjustment_cents⟩
  | none =>
    let ids ← query (.selectCustomers tenantId)
    let customers ← lockCustomers tenantId (env.scan ids)
    let debtors := customers.filter fun c ↦ c.balance_cents > 0
    let totalAdjustment ← adjustDebtors env tenantId userId dto 0 debtors 0
    query (.insertBatch (batchRow env tenantId dto debtors.length totalAdjustment))
    Prog.commitTransaction
    pure ⟨debtors.length, totalAdjustment⟩

end MicroErp.Services
