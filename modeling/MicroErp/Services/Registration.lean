import MicroErp.Database.Registrations
import MicroErp.Services.Webhooks

/-!
# The life of a tenant

`AuthService.register`, and the runs in which tenants register, pay, and are looked at by the
nightly job, one call after another.
-/

namespace MicroErp.Services

open MicroErp.Concurrency MicroErp.Database MicroErp.Storage

abbrev InstallationScript := Prog InstallationSql InstallationSql.Ans ServiceError

abbrev installationQuery (o : InstallationSql) : InstallationScript o.Ans := Prog.issue o

structure RegisterTenantDto where
  tenant_name : String
  email : String
  password : String
  name : String
  phone : Option String

/-- A new tenant, with the defaults of the table. -/
def tenantRow (env : Env) (dto : RegisterTenantDto) : Tenant where
  id := env.fresh 0
  tenant_name := dto.tenant_name
  subscription_plan := "FREE"
  subscription_expires_at := none
  status := .TRIAL
  mp_subscription_id := none
  settings := []
  active_cash_shift_id := none
  created_at := env.now

/-- The first user of a tenant is its administrator. -/
def adminRow (env : Env) (hash : String → String) (dto : RegisterTenantDto) : User where
  id := env.fresh 1
  tenant_id := env.fresh 0
  email := dto.email
  password_hash := hash dto.password
  name := dto.name
  phone := dto.phone
  role := .ADMIN
  is_active := true
  token_version := 0
  password_changed_at := none

def register (env : Env) (hash : String → String) (dto : RegisterTenantDto) :
    InstallationScript String := do
  match ← installationQuery (.findUserByEmail dto.email) with
  | some _ => Prog.fail (.conflict "El email ya está registrado")
  | none =>
    installationQuery (.insertTenant (tenantRow env dto))
    installationQuery (.insertUser (adminRow env hash dto))
    Prog.commitTransaction
    pure "Comercio registrado exitosamente"

/-- An operation on the other tables. -/
def onTables {α : Type} : Script α → InstallationScript α
  | .ret a => .ret a
  | .fail e => .fail e
  | .stmt o k => .stmt (.on o) fun r ↦ onTables (k r)
  | .commit k => .commit (onTables k)

/-! ## Runs -/

inductive SaasCall where
  /-- `hash` is `bcrypt.hash` with the salt of this call. -/
  | register (hash : String → String) (dto : RegisterTenantDto)
  | processPayment (call : PaymentCall)
  | processSaaSExpirations

def SaasCall.script (env : Env) : SaasCall → InstallationScript Answer
  | register hash dto => Services.register env hash dto >>= fun _ ↦ pure .done
  | processPayment call => onTables (call.request.script env)
  | processSaaSExpirations => onTables (Request.processSaaSExpirations.script env)

/-- The calls one after another, each with its own time. -/
def servedCalls (d : Installation) (calls : List (SaasCall × Env)) : Installation :=
  calls.foldl (fun d x ↦ (installed.alone (x.1.script x.2) [] d).2) d

/-- An installation without tenants. -/
def newInstallation : Installation := ⟨Db.opened Table.empty, Table.empty⟩

end MicroErp.Services
