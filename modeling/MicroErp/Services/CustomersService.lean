import MicroErp.Services.TransactionsService

/-!
# CustomersService

The operations on customers.  Those without an explicit transaction commit each statement on its
own, so a single write is followed by its commit.
-/

namespace MicroErp.Services

open MicroErp.Concurrency MicroErp.Database

variable (env : Env)

/-- A customer with the defaults of the columns that `create` does not set. -/
def newCustomer (tenantId : Uuid) (dto : CreateCustomerDto) : Customer where
  id := env.fresh 0
  tenant_id := tenantId
  full_name := dto.full_name
  phone := dto.phone
  dni := dto.dni
  credit_limit_cents := dto.credit_limit_cents.getD 0
  balance_cents := 0
  is_active := true
  next_payment_promise := none
  is_overdue := false
  auto_block_on_limit := false
  address := none
  email := none
  notes := none
  tags := none
  idempotency_key := dto.idempotency_key
  created_at := env.now

/-- Refuse a value that `find` finds at a customer; no value, no look-up. -/
def rejectDuplicate (value : Option String) (find : String → Script (Option Customer))
    (message : String) : Script Unit :=
  match value with
  | none => pure ()
  | some v => do
    match ← find v with
    | some _ => Prog.fail (.conflict message)
    | none => pure ()

def createCustomer (tenantId : Uuid) (dto : CreateCustomerDto) : Script Customer := do
  let existing ← match dto.idempotency_key with
    | none => pure none
    | some key => query (.findCustomerByKey tenantId key)
  match existing with
  | some existing => pure existing
  | none =>
    rejectDuplicate (truthy dto.phone) (fun phone ↦ query (.findCustomerByPhone tenantId none phone))
      "Ya existe un cliente con ese teléfono en tu comercio"
    rejectDuplicate (truthy dto.dni) (fun dni ↦ query (.findCustomerByDni tenantId none dni))
      "Ya existe un cliente con ese DNI en tu comercio"
    let customer := newCustomer env tenantId dto
    query (.insertCustomer customer)
    query (.keyShare [.tenant tenantId])
    Prog.commitTransaction
    pure customer

def findCustomerOrFail (tenantId customerId : Uuid) : Script Customer := do
  match ← query (.findCustomer tenantId customerId) with
  | none => Prog.fail (.notFound "Cliente no encontrado")
  | some customer => pure customer

/-- `customerRepository.save` of a loaded customer: its own transaction. -/
def saveCustomerAlone (customer : Customer) : Script Customer := do
  saveCustomer customer
  Prog.commitTransaction
  pure customer

/-- A loaded customer to which a body was assigned.  Where the body lacks a field the column is
undefined. -/
structure AssignedCustomer where
  /-- The other columns. -/
  loaded : Customer
  full_name : Option String
  phone : Option (Option String)
  dni : Option (Option String)
  address : Option (Option String)
  email : Option (Option String)
  notes : Option (Option String)
  tags : Option (Option (List String))
  deriving DecidableEq

/-- `Object.assign(customer, dto)`, for a body that does not set `full_name` to `null`.  The fields
that the request lacks are properties of the body, too, and undefined. -/
def assignCustomer (customer : Customer) (dto : UpdateCustomerDto) : AssignedCustomer where
  loaded := customer
  full_name := dto.full_name.join
  phone := dto.phone
  dni := dto.dni
  address := dto.address
  email := dto.email
  notes := dto.notes
  tags := dto.tags

namespace AssignedCustomer

/-- The columns as `save` compares them with the row that it reads again; those that are undefined
are left out. -/
def compared (customer : AssignedCustomer) (reread : Customer) : Customer :=
  { customer.loaded with
    full_name := customer.full_name.getD reread.full_name
    phone := customer.phone.getD reread.phone
    dni := customer.dni.getD reread.dni
    address := customer.address.getD reread.address
    email := customer.email.getD reread.email
    notes := customer.notes.getD reread.notes
    tags := customer.tags.getD reread.tags }

/-- What an `UPDATE` leaves in memory: the undefined columns are `null` if they may be. -/
def updated (customer : AssignedCustomer) : AssignedCustomer :=
  { customer with
    phone := some customer.phone.join
    dni := some customer.dni.join
    address := some customer.address.join
    email := some customer.email.join
    notes := some customer.notes.join
    tags := some customer.tags.join }

end AssignedCustomer

/-- `customerRepository.save` of a customer with undefined columns: its own transaction. -/
def saveAssignedAlone (customer : AssignedCustomer) : Script AssignedCustomer := do
  match ← query (.rereadCustomer customer.loaded) with
  | none => Prog.fail .entityNotFound
  | some reread =>
    if customer.compared reread = reread then do
      Prog.commitTransaction
      pure customer
    else do
      query (.updateCustomer (customer.compared reread) reread)
      Prog.commitTransaction
      pure customer.updated

def updateCustomer (tenantId customerId : Uuid) (dto : UpdateCustomerDto) :
    Script AssignedCustomer := do
  let customer ← findCustomerOrFail tenantId customerId
  rejectDuplicate dto.phone.join (fun phone ↦ query (.findCustomerByPhone tenantId (some customerId) phone))
    "Ya existe otro cliente con ese teléfono en tu comercio"
  rejectDuplicate dto.dni.join (fun dni ↦ query (.findCustomerByDni tenantId (some customerId) dni))
    "Ya existe otro cliente con ese DNI en tu comercio"
  rejectDuplicate dto.email.join (fun email ↦ query (.findCustomerByEmail tenantId (some customerId) email))
    "Ya existe otro cliente con ese email en tu comercio"
  -- the column is `NOT NULL`, so `save` fails on a `null`
  if dto.full_name = some none then Prog.fail (.queryFailed .notNullViolation)
  else saveAssignedAlone (assignCustomer customer dto)

def updateCreditLimit (tenantId customerId : Uuid) (dto : UpdateCreditLimitDto) :
    Script Customer := do
  let customer ← lockCustomer tenantId customerId
  let customer := { customer with credit_limit_cents := dto.credit_limit_cents }
  saveCustomer customer
  Prog.commitTransaction
  pure customer

def toggleBlock (tenantId customerId : Uuid) : Script Customer := do
  let customer ← findCustomerOrFail tenantId customerId
  saveCustomerAlone { customer with is_active := !customer.is_active }

def updatePromise (tenantId customerId : Uuid) (dto : UpdatePromiseDto) : Script Customer := do
  let customer ← findCustomerOrFail tenantId customerId
  saveCustomerAlone { customer with next_payment_promise := dto.next_payment_promise }

/-- Each row of the bulk `UPDATE ... SET customer_id`. -/
def moveTransactions (tenantId secondaryId primaryId : Uuid) : List Uuid → Script Unit
  | [] => pure ()
  | id :: ids => do
    query (.moveTransaction tenantId secondaryId primaryId id)
    moveTransactions tenantId secondaryId primaryId ids

/-- One of the two locks of a merge. -/
def lockMerged (tenantId : Uuid) (dto : MergeCustomersDto) (id : UuidText) : Script Customer := do
  match ← query (.lockCustomer tenantId id.value) with
  | none => Prog.fail (.notFound (if id.chars = dto.primary_id.chars then "Cliente principal no encontrado"
      else "Cliente secundario no encontrado"))
  | some customer => pure customer

def mergeCustomers (tenantId : Uuid) (dto : MergeCustomersDto) : Script Customer := do
  if dto.primary_id.chars = dto.secondary_id.chars then
    Prog.fail (.unprocessableEntity "No se puede fusionar un cliente consigo mismo")
  else
    let ids := if dto.primary_id.chars < dto.secondary_id.chars
      then (dto.primary_id, dto.secondary_id) else (dto.secondary_id, dto.primary_id)
    let first ← lockMerged tenantId dto ids.1
    let second ← lockMerged tenantId dto ids.2
    let primary := if dto.primary_id.chars = ids.1.chars then first else second
    let secondary := if dto.primary_id.chars = ids.1.chars then second else first
    let rows ← query (.selectTransactionsOf tenantId secondary.id)
    moveTransactions tenantId secondary.id primary.id (env.scan rows)
    let primary := { primary with
      balance_cents := primary.balance_cents + secondary.balance_cents
      credit_limit_cents := max primary.credit_limit_cents secondary.credit_limit_cents }
    saveCustomer primary
    saveCustomer { secondary with is_active := false, balance_cents := 0 }
    Prog.commitTransaction
    pure primary

end MicroErp.Services
