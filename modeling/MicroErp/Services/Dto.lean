import MicroErp.Database.Entities

/-!
# Request bodies

The DTO classes with what their validators check as fields, so that a body the validation pipe
rejects cannot be built.  A field that a class marks optional is an `Option`; `null` and an absent
field are told apart only in `UpdateCustomerDto`, where the service does.
-/

namespace MicroErp.Services

open MicroErp.Database

def maxAmountCents : ℤ := 2000000000

/-- What `@IsInt`, `@IsPositive` and `@Max(MAX_AMOUNT_CENTS)` let through. -/
def ValidAmount (amount : ℤ) : Prop := 0 < amount ∧ amount ≤ maxAmountCents

instance (amount : ℤ) : Decidable (ValidAmount amount) := inferInstanceAs (Decidable (_ ∧ _))

/-- What `@IsOptional`, `@IsString` and `@MaxLength(max)` let through. -/
def MaxLength (max : ℕ) (text : Option String) : Prop := text.all fun s ↦ s.length ≤ max

instance (max : ℕ) (text : Option String) : Decidable (MaxLength max text) :=
  inferInstanceAs (Decidable (_ = true))

structure CreateTransactionDto where
  customer_id : Uuid
  amount_cents : ℤ
  description : Option String
  idempotency_key : Uuid
  amount_valid : ValidAmount amount_cents := by decide
  description_valid : MaxLength 500 description := by decide

structure CreatePaymentDto where
  customer_id : Uuid
  amount_cents : ℤ
  description : Option String
  idempotency_key : Uuid
  payment_method : Option PaymentMethod
  amount_valid : ValidAmount amount_cents := by decide
  description_valid : MaxLength 500 description := by decide

structure CreateMixedPaymentDto where
  customer_id : Uuid
  total_amount_cents : ℤ
  cash_amount_cents : ℤ
  transfer_amount_cents : ℤ
  description : Option String
  idempotency_key : Uuid
  total_valid : ValidAmount total_amount_cents := by decide
  cash_valid : ValidAmount cash_amount_cents := by decide
  transfer_valid : ValidAmount transfer_amount_cents := by decide
  description_valid : MaxLength 500 description := by decide

structure ReverseTransactionDto where
  idempotency_key : Uuid
  description : Option String
  description_valid : MaxLength 500 description := by decide

structure ForgiveDebtDto where
  customer_id : Uuid
  description : String
  idempotency_key : Uuid
  description_valid : MaxLength 500 (some description) := by decide

structure InflationAdjustmentDto where
  percentage : ℚ
  idempotency_key : Uuid
  percentage_valid : 0 < percentage ∧ percentage ≤ 1000 := by norm_num

structure CreateCustomerDto where
  full_name : String
  phone : Option String
  dni : Option String
  credit_limit_cents : Option ℤ
  idempotency_key : Option Uuid
  full_name_valid : 2 ≤ full_name.length ∧ full_name.length ≤ 255 := by decide
  phone_valid : MaxLength 50 phone := by decide
  dni_valid : MaxLength 30 dni := by decide
  credit_limit_valid : credit_limit_cents.all fun n ↦ 0 ≤ n ∧ n ≤ maxAmountCents := by decide

/-- A field is absent, `null` or a value.  The format of `email` is not modelled. -/
structure UpdateCustomerDto where
  full_name : Option (Option String)
  phone : Option (Option String)
  dni : Option (Option String)
  address : Option (Option String)
  email : Option (Option String)
  notes : Option (Option String)
  tags : Option (Option (List String))
  full_name_valid : full_name.join.all fun s ↦ 2 ≤ s.length ∧ s.length ≤ 255 := by decide
  phone_valid : MaxLength 50 phone.join := by decide
  dni_valid : MaxLength 30 dni.join := by decide
  address_valid : MaxLength 255 address.join := by decide

structure UpdateCreditLimitDto where
  credit_limit_cents : ℤ
  credit_limit_valid : 0 ≤ credit_limit_cents ∧ credit_limit_cents ≤ maxAmountCents := by decide

structure UpdatePromiseDto where
  next_payment_promise : Option Date

structure MergeCustomersDto where
  primary_id : UuidText
  secondary_id : UuidText

structure OpenTurnDto where
  opening_cash_cents : Option ℤ
  opening_cash_valid : opening_cash_cents.all fun n ↦ 0 ≤ n := by decide

/-- The service does not read the `opening_cash_cents` that this body may also carry. -/
structure CloseTurnDto where
  actual_cash_cents : ℤ
  note : Option String
  actual_cash_valid : 0 ≤ actual_cash_cents := by decide
  note_valid : MaxLength 500 note := by decide

/-- Each field may be absent, `null` or a value. -/
structure UpdateSettingsDto where
  payment_alias : Option (Option String) := none
  currency_symbol : Option (Option String) := none
  ticket_header : Option (Option String) := none
  auto_block_overdue_days : Option (Option ℤ) := none
  enabled_payment_methods : Option (Option (List PaymentMethod)) := none
  default_credit_limit_cents : Option (Option ℤ) := none
  payment_alias_valid : MaxLength 100 payment_alias.join := by decide
  currency_symbol_valid : MaxLength 10 currency_symbol.join := by decide
  ticket_header_valid : MaxLength 255 ticket_header.join := by decide
  auto_block_overdue_days_valid : ∀ days ∈ auto_block_overdue_days.join, 1 ≤ days := by decide
  default_credit_limit_cents_valid : ∀ cents ∈ default_credit_limit_cents.join, 0 ≤ cents := by
    decide

end MicroErp.Services
