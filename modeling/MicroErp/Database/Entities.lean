import MicroErp.Storage.Table
import Mathlib

/-!
# Entities

The rows of the tables that the money, customer, cash and tenant services read and write, with the columns
of the entity classes.  `updated_at` is left out: no service reads it.
-/

namespace MicroErp.Database

open MicroErp.Storage

/-- A UUID as PostgreSQL stores and compares it. -/
abbrev Uuid := ℕ

/-- A UUID as a request spells it.  The validators accept hexadecimal letters of either case;
bit `k` of `capitals` says that digit `k` is written in capitals. -/
structure UuidText where
  value : Uuid
  capitals : ℕ
  deriving DecidableEq

/-- The character codes of the 32 digits, as string comparison sees them. -/
def UuidText.chars (text : UuidText) : List ℕ :=
  (List.range 32).reverse.map fun k ↦
    let digit := text.value / 16 ^ k % 16
    if digit < 10 then 48 + digit else if text.capitals.testBit k then 55 + digit else 87 + digit

abbrev Timestamp := ℤ

/-- A calendar day, counted from a fixed one. -/
abbrev Date := ℤ

inductive TransactionType where
  | DEBT
  | PAYMENT
  | REVERSAL
  | INFLATION_ADJUSTMENT
  | FORGIVENESS
  deriving DecidableEq, Repr

inductive PaymentMethod where
  | CASH
  | TRANSFER
  deriving DecidableEq, Repr

inductive CashRegisterStatus where
  | OPEN
  | CLOSED_OK
  | CLOSED_WITH_DISCREPANCY
  deriving DecidableEq, Repr

inductive TenantStatus where
  | TRIAL
  | ACTIVE
  | PAST_DUE
  | SUSPENDED
  | CANCELLED
  deriving DecidableEq, Repr

/-- A value of the `settings` object; arrays and objects are kept as their text. -/
inductive JsonValue where
  | null
  | bool (b : Bool)
  | number (q : ℚ)
  | string (s : String)
  | other (text : String)
  deriving DecidableEq

structure Tenant where
  id : Uuid
  tenant_name : String
  subscription_plan : String
  subscription_expires_at : Option Timestamp
  status : TenantStatus
  mp_subscription_id : Option String
  settings : List (String × JsonValue)
  active_cash_shift_id : Option Uuid
  created_at : Timestamp
  deriving DecidableEq

structure Customer where
  id : Uuid
  tenant_id : Uuid
  full_name : String
  phone : Option String
  dni : Option String
  credit_limit_cents : ℤ
  balance_cents : ℤ
  is_active : Bool
  next_payment_promise : Option Date
  is_overdue : Bool
  auto_block_on_limit : Bool
  address : Option String
  email : Option String
  notes : Option String
  tags : Option (List String)
  idempotency_key : Option Uuid
  created_at : Timestamp
  deriving DecidableEq

/-- The columns of a transaction that no operation is meant to change. -/
structure Transaction.Core where
  id : Uuid
  tenant_id : Uuid
  user_id : Uuid
  type : TransactionType
  amount_cents : ℤ
  description : Option String
  payment_method : Option PaymentMethod
  reference_group_id : Option Uuid
  idempotency_key : Uuid
  reversed_transaction_id : Option Uuid
  created_at : Timestamp
  deriving DecidableEq

structure Transaction extends Transaction.Core where
  customer_id : Uuid
  is_reversed : Bool
  cash_register_log_id : Option Uuid
  deriving DecidableEq

structure IdempotentBatchOperation where
  id : Uuid
  tenant_id : Uuid
  idempotency_key : Uuid
  operation_type : TransactionType
  affected_customers : ℤ
  total_adjustment_cents : ℤ
  created_at : Timestamp
  deriving DecidableEq

structure CashRegisterLog where
  id : Uuid
  tenant_id : Uuid
  user_id : Uuid
  opened_at : Timestamp
  closed_at : Option Timestamp
  opening_cash_cents : ℤ
  expected_cash_cents : Option ℤ
  actual_cash_cents : Option ℤ
  discrepancy_cents : Option ℤ
  note : Option String
  status : CashRegisterStatus
  created_at : Timestamp
  deriving DecidableEq

structure BillingEvent where
  id : Uuid
  external_payment_id : String
  tenant_id : Uuid
  provider : String
  amount_cents : ℤ
  currency : String
  raw_payload : JsonValue
  processed_at : Timestamp
  deriving DecidableEq

instance : Keyed Tenant Uuid := ⟨Tenant.id⟩
instance : Keyed Customer Uuid := ⟨Customer.id⟩
instance : Keyed Transaction Uuid := ⟨fun t ↦ t.id⟩
instance : Keyed IdempotentBatchOperation Uuid := ⟨IdempotentBatchOperation.id⟩
instance : Keyed CashRegisterLog Uuid := ⟨CashRegisterLog.id⟩
instance : Keyed BillingEvent Uuid := ⟨BillingEvent.id⟩

@[simp] theorem Tenant.key_eq (t : Tenant) : Keyed.key t = t.id := rfl

@[simp] theorem Customer.key_eq (c : Customer) : Keyed.key c = c.id := rfl

@[simp] theorem Transaction.key_eq (t : Transaction) : Keyed.key t = t.id := rfl

@[simp] theorem IdempotentBatchOperation.key_eq (b : IdempotentBatchOperation) :
    Keyed.key b = b.id := rfl

@[simp] theorem CashRegisterLog.key_eq (s : CashRegisterLog) : Keyed.key s = s.id := rfl

@[simp] theorem BillingEvent.key_eq (b : BillingEvent) : Keyed.key b = b.id := rfl

end MicroErp.Database
