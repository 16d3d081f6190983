import MicroErp.Services.Histories

/-!
# NotificationsService

The summary of a customer's debt behind a public link.  The token of the link names the tenant and
the customer, and it is all that the caller has to show.
-/

namespace MicroErp.Services

open MicroErp.Database

/-- The claims of a link, `type` being absent in tokens of another kind. -/
structure SummaryTokenPayload where
  tenant_id : Uuid
  customer_id : Uuid
  type : Option String
  deriving DecidableEq

structure RecentDebt where
  amount_cents : ℤ
  description : Option String
  created_at : Timestamp
  deriving DecidableEq

structure RecentPayment where
  amount_cents : ℤ
  created_at : Timestamp
  deriving DecidableEq

structure PublicDebtSummary where
  business_name : String
  customer_name : String
  balance_cents : ℤ
  recent_debts : List RecentDebt
  recent_payments : List RecentPayment
  payment_alias : Option String
  deriving DecidableEq

/-- The payload of a link; it is signed for 72 hours. -/
def generateSummaryLink (tenantId customerId : Uuid) (db : Db) :
    Except ServiceError SummaryTokenPayload :=
  match db.customer tenantId customerId with
  | none => .error (.notFound "Cliente no encontrado")
  | some _ => .ok ⟨tenantId, customerId, some "summary"⟩

/-- `settings?.payment_alias`, if it is a string. -/
def paymentAlias (settings : List (String × JsonValue)) : Option String :=
  match settings.lookup "payment_alias" with
  | some (.string text) => some text
  | _ => none

/-- The latest rows of a customer of this type that are not reversed. -/
def recentOf (order : TransactionOrder) (tenantId customerId : Uuid) (type : TransactionType)
    (take : ℕ) (db : Db) : List Transaction :=
  order.page take 0 ((db.transactionsOf tenantId customerId).filter fun t ↦
    t.type = type ∧ t.is_reversed = false)

inductive SummaryError where
  | unauthorized (message : String)
  | notFound (message : String)
  deriving DecidableEq, Repr

/-- `payload` is what `jwtService.verify` answers for the token, if it does not throw. -/
def getPublicSummary (order : TransactionOrder) (payload : Option SummaryTokenPayload) (db : Db) :
    Except SummaryError PublicDebtSummary :=
  match payload with
  | none => .error (.unauthorized "Enlace inválido o expirado")
  | some payload =>
    if payload.type ≠ some "summary" then .error (.unauthorized "Token inválido")
    else
      let recentDebts := recentOf order payload.tenant_id payload.customer_id .DEBT 5 db
      let recentPayments := recentOf order payload.tenant_id payload.customer_id .PAYMENT 2 db
      match db.tenants.find payload.tenant_id, db.customer payload.tenant_id payload.customer_id with
      | some tenant, some customer =>
          .ok {
            business_name := tenant.tenant_name
            customer_name := customer.full_name
            balance_cents := customer.balance_cents
            recent_debts := recentDebts.map fun t ↦ ⟨t.amount_cents, t.description, t.created_at⟩
            recent_payments := recentPayments.map fun t ↦ ⟨t.amount_cents, t.created_at⟩
            payment_alias := paymentAlias tenant.settings }
      | _, _ => .error (.notFound "Datos no encontrados")

end MicroErp.Services
