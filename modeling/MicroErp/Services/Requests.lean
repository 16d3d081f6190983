import MicroErp.Services.CustomersService
import MicroErp.Services.OverdueCronService
import MicroErp.Services.TenantsService

/-!
# Requests

Every writing operation of the services as one type, the bulk updates of the cron jobs among them,
and the system that serves any number of them at once.
-/

namespace MicroErp.Services

open MicroErp.Concurrency MicroErp.Database MicroErp.Storage

inductive Request where
  | registerDebt (tenantId userId : Uuid) (dto : CreateTransactionDto)
  | registerPayment (tenantId userId : Uuid) (dto : CreatePaymentDto)
  | registerMixedPayment (tenantId userId : Uuid) (dto : CreateMixedPaymentDto)
  | reverseTransaction (tenantId userId transactionId : Uuid) (dto : ReverseTransactionDto)
  | forgiveDebt (tenantId userId : Uuid) (dto : ForgiveDebtDto)
  | applyInflationAdjustment (tenantId userId : Uuid) (dto : InflationAdjustmentDto)
  | createCustomer (tenantId : Uuid) (dto : CreateCustomerDto)
  | updateCustomer (tenantId customerId : Uuid) (dto : UpdateCustomerDto)
  | updateCreditLimit (tenantId customerId : Uuid) (dto : UpdateCreditLimitDto)
  | toggleBlock (tenantId customerId : Uuid)
  | updatePromise (tenantId customerId : Uuid) (dto : UpdatePromiseDto)
  | mergeCustomers (tenantId : Uuid) (dto : MergeCustomersDto)
  | openTurn (tenantId userId : Uuid) (dto : OpenTurnDto)
  | closeTurn (tenantId : Uuid) (dto : CloseTurnDto)
  | updateSettings (tenantId : Uuid) (dto : UpdateSettingsDto)
  | processPayment (externalPaymentId : String) (subscriptionId : Option String)
      (rawPayload : JsonValue)
  | processSaaSExpirations
  | processOverdueCustomers (today : Date)
  | processAutoBlocks (tenantId : Uuid) (cutoffDate : Date)
  | processAutoBlockOnLimit

inductive Answer where
  | transaction (row : Transaction)
  | mixed (rows : MixedPayment)
  | inflation (result : InflationResult)
  | customer (row : Customer)
  | edited (row : AssignedCustomer)
  | shift (row : CashRegisterLog)
  | settings (result : SettingsResult)
  | processed (count : ℕ)
  | done
  deriving DecidableEq

namespace Request

/-- What serving the request runs. -/
def script (env : Env) : Request → Script Answer
  | registerDebt tenantId userId dto =>
      Services.registerDebt env tenantId userId dto >>= fun a ↦ pure (.transaction a)
  | registerPayment tenantId userId dto =>
      Services.registerPayment env tenantId userId dto >>= fun a ↦ pure (.transaction a)
  | registerMixedPayment tenantId userId dto =>
      Services.registerMixedPayment env tenantId userId dto >>= fun a ↦ pure (.mixed a)
  | reverseTransaction tenantId userId transactionId dto =>
      Services.reverseTransaction env tenantId userId transactionId dto >>= fun a ↦
        pure (.transaction a)
  | forgiveDebt tenantId userId dto =>
      Services.forgiveDebt env tenantId userId dto >>= fun a ↦ pure (.transaction a)
  | applyInflationAdjustment tenantId userId dto =>
      Services.applyInflationAdjustment env tenantId userId dto >>= fun a ↦ pure (.inflation a)
  | createCustomer tenantId dto =>
      Services.createCustomer env tenantId dto >>= fun a ↦ pure (.customer a)
  | updateCustomer tenantId customerId dto =>
      Services.updateCustomer tenantId customerId dto >>= fun a ↦ pure (.edited a)
  | updateCreditLimit tenantId customerId dto =>
      Services.updateCreditLimit tenantId customerId dto >>= fun a ↦ pure (.customer a)
  | toggleBlock tenantId customerId =>
      Services.toggleBlock tenantId customerId >>= fun a ↦ pure (.customer a)
  | updatePromise tenantId customerId dto =>
      Services.updatePromise tenantId customerId dto >>= fun a ↦ pure (.customer a)
  | mergeCustomers tenantId dto =>
      Services.mergeCustomers env tenantId dto >>= fun a ↦ pure (.customer a)
  | openTurn tenantId userId dto =>
      Services.openTurn env tenantId userId dto >>= fun a ↦ pure (.shift a)
  | closeTurn tenantId dto =>
      Services.closeTurn env tenantId dto >>= fun a ↦ pure (.shift a)
  | updateSettings tenantId dto =>
      Services.updateSettings tenantId dto >>= fun a ↦ pure (.settings a)
  | processPayment externalPaymentId subscriptionId rawPayload =>
      Services.processPayment env externalPaymentId subscriptionId rawPayload >>= fun _ ↦
        pure .done
  | processSaaSExpirations => Services.processSaaSExpirations env >>= fun _ ↦ pure .done
  | processOverdueCustomers today =>
      Services.processOverdueCustomers env today >>= fun a ↦ pure (.processed a)
  | processAutoBlocks tenantId cutoffDate =>
      Services.processAutoBlocks env tenantId cutoffDate >>= fun _ ↦ pure .done
  | processAutoBlockOnLimit => Services.processAutoBlockOnLimit env >>= fun _ ↦ pure .done

/-- The slot of the request in the unique index of the transactions. -/
def transactionKey : Request → Option (Uuid × Uuid)
  | registerDebt tenantId _ dto => some (tenantId, dto.idempotency_key)
  | registerPayment tenantId _ dto => some (tenantId, dto.idempotency_key)
  | registerMixedPayment tenantId _ dto => some (tenantId, dto.idempotency_key)
  | reverseTransaction tenantId _ _ dto => some (tenantId, dto.idempotency_key)
  | forgiveDebt tenantId _ dto => some (tenantId, dto.idempotency_key)
  | _ => none

/-- The slot of the request in the unique index of the batches. -/
def batchKey : Request → Option (Uuid × Uuid)
  | applyInflationAdjustment tenantId _ dto => some (tenantId, dto.idempotency_key)
  | _ => none

/-- The slot of the request in the unique index of the customers. -/
def customerKey : Request → Option (Uuid × Uuid)
  | createCustomer tenantId dto => dto.idempotency_key.map fun key ↦ (tenantId, key)
  | _ => none

end Request

/-! ## The running service -/

/-- The generated identifiers are new to the database. -/
def Env.Unused (env : Env) (d : Db) : Prop :=
  ∀ t ∈ d.transactions.rows, ∀ n,
    t.id ≠ env.fresh n ∧ t.idempotency_key ≠ env.fresh n ∧
      t.reference_group_id ≠ some (env.fresh n)

section Sessions

variable {ι : Type} (req : ι → Request) (env : ι → Env)

/-- `randomUUID` never gives an identifier twice, nor one that a client chose as a key. -/
structure FreshIds : Prop where
  distinct : ∀ i j m n, (env i).fresh m = (env j).fresh n → i = j ∧ m = n
  keys : ∀ i j n, ∀ slot ∈ (req j).transactionKey, slot.2 ≠ (env i).fresh n

/-- One session for each request, all at their beginning. -/
def serve (d : Db) :
    Sys ι Sql Sql.Ans Db Write LockName ServiceError Answer :=
  Sys.start d fun i ↦ (req i).script (env i)

end Sessions

/-- A database in which the tenants have nothing yet. -/
def Db.opened (tenants : Table Tenant) : Db where
  tenants := tenants
  customers := Table.empty
  transactions := Table.empty
  batches := Table.empty
  shifts := Table.empty
  billingEvents := Table.empty

/-- The database is what some interleaving of some requests has committed so far. -/
def Reachable (d : Db) : Prop :=
  ∃ (ι : Type) (_ : DecidableEq ι) (req : ι → Request) (env : ι → Env) (tenants : Table Tenant)
    (es : List (Event ι)),
    FreshIds req env ∧ d = (postgres.run (serve req env (Db.opened tenants)) es).db

end MicroErp.Services
