import MicroErp.Services.CashRegisterService

/-!
# TenantsService, BillingService and SaasCronService

The other operations on the rows of the tenants: their settings, the payments of their
subscription, and the nightly job that suspends those that do not pay.
-/

namespace MicroErp.Services

open MicroErp.Concurrency MicroErp.Database

variable (env : Env)

/-! ## TenantsService -/

/-- Assign a key of an object: in place, or at the end if the key is new. -/
def assignKey (object : List (String × JsonValue)) (key : String) (value : JsonValue) :
    List (String × JsonValue) :=
  if key ∈ object.map Prod.fst then object.map fun x ↦ if x.1 = key then (key, value) else x
  else object ++ [(key, value)]

/-- A field of the body that is not `undefined` is assigned. -/
def assignField (object : List (String × JsonValue)) (key : String)
    (value : Option (Option String)) : List (String × JsonValue) :=
  match value with
  | none => object
  | some none => assignKey object key .null
  | some (some text) => assignKey object key (.string text)

def updatedSettings (settings : List (String × JsonValue)) (dto : UpdateSettingsDto) :
    List (String × JsonValue) :=
  let settings := assignField settings "payment_alias" dto.payment_alias
  let settings := assignField settings "currency_symbol" dto.currency_symbol
  assignField settings "ticket_header" dto.ticket_header

/-- What `updateSettings` answers. -/
structure SettingsResult where
  tenant_name : String
  settings : List (String × JsonValue)
  deriving DecidableEq

def getSettings (tenantId : Uuid) (db : Db) : Except ServiceError SettingsResult :=
  match db.tenants.find tenantId with
  | none => .error (.notFound "Comercio no encontrado")
  | some tenant => .ok ⟨tenant.tenant_name, tenant.settings⟩

def updateSettings (tenantId : Uuid) (dto : UpdateSettingsDto) : Script SettingsResult := do
  match ← query (.lockTenant tenantId) with
  | none => Prog.fail (.notFound "Comercio no encontrado")
  | some tenant =>
    let tenant := { tenant with settings := updatedSettings tenant.settings dto }
    saveTenant tenant
    Prog.commitTransaction
    pure ⟨tenant.tenant_name, tenant.settings⟩

/-! ## BillingService -/

def billingEventRow (tenantId : Uuid) (externalPaymentId : String) (rawPayload : JsonValue) :
    BillingEvent where
  id := env.fresh 0
  external_payment_id := externalPaymentId
  tenant_id := tenantId
  provider := "mercadopago"
  amount_cents := 3000
  currency := "ARS"
  raw_payload := rawPayload
  processed_at := env.now

/-- The tenant after one more paid month. -/
def creditMonth (tenant : Tenant) : Tenant :=
  { tenant with
    status := .ACTIVE
    subscription_expires_at :=
      some (addDays (tenant.subscription_expires_at.getD env.clock) 30) }

/-- `subscriptionId` is the `data.subscription_id` of the payload. -/
def processPayment (externalPaymentId : String) (subscriptionId : Option String)
    (rawPayload : JsonValue) : Script Unit := do
  match ← query (.findBillingEvent externalPaymentId) with
  | some _ => Prog.commitTransaction
  | none =>
    match ← query (.lockSubscription ((truthy subscriptionId).getD "test_sub_id")) with
    | none => Prog.commitTransaction
    | some tenant =>
      query (.insertBillingEvent (billingEventRow env tenant.id externalPaymentId rawPayload))
      query (.keyShare [.tenant tenant.id])
      saveTenant (creditMonth env tenant)
      Prog.commitTransaction

/-! ## SaasCronService -/

def suspendTenants : List Tenant → Script Unit
  | [] => pure ()
  | tenant :: expiredTenants => do
    saveTenant { tenant with status := .SUSPENDED }
    suspendTenants expiredTenants

/-- The tenants are read before the transaction begins and without a lock.  An error is logged and
not thrown; here it is the outcome of the job. -/
def processSaaSExpirations : Script Unit := do
  let expiredTenants ← query (.findExpiredTenants (addDays env.clock (-3)))
  if expiredTenants = [] then pure ()
  else
    suspendTenants (env.ordered (·.id) expiredTenants)
    Prog.commitTransaction

end MicroErp.Services
