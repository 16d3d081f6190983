import MicroErp.Services.DashboardService
import MicroErp.Storage.Csv
import MicroErp.Storage.Paging

/-!
# CSV exports

The file of debtors that `ExportService` streams and the file of customers of `CustomersService`,
with the texts that JavaScript makes of their numbers and dates.
-/

namespace MicroErp.Services

open MicroErp.Database MicroErp.Storage

/-! ## Texts of numbers and dates -/

def padStart (text : String) (length : ℕ) (c : Char) : String :=
  String.ofList (List.replicate (length - text.length) c ++ text.toList)

/-- `toFixed(2)`, for numbers below `1e21`: the nearest number of hundredths, the larger one of two. -/
def toFixed2 (x : ℚ) : String :=
  let n := (mathRound (|x| * 100)).toNat
  (if x < 0 then "-" else "") ++ toString (n / 100) ++ "." ++ padStart (toString (n % 100)) 2 '0'

/-- The year, month and day of a date, when dates are counted from 1 January 1970. -/
def civil (date : Date) : ℤ × ℕ × ℕ :=
  -- counted from 1 March 0000, in eras of 400 years
  let days := date + 719468
  let dayOfEra := (days % 146097).toNat
  let yearOfEra := (dayOfEra - dayOfEra / 1460 + dayOfEra / 36524 - dayOfEra / 146096) / 365
  let dayOfYear := dayOfEra - (365 * yearOfEra + yearOfEra / 4 - yearOfEra / 100)
  let month := (5 * dayOfYear + 2) / 153
  let year := yearOfEra + days / 146097 * 400
  (if month < 10 then year else year + 1, if month < 10 then month + 3 else month - 9,
    dayOfYear - (153 * month + 2) / 5 + 1)

/-- `toISOString().split('T')[0]`. -/
def toISODate (date : Date) : String :=
  let (year, month, day) := civil date
  let yearText :=
    if 0 ≤ year ∧ year ≤ 9999 then padStart (toString year.toNat) 4 '0'
    else (if year < 0 then "-" else "+") ++ padStart (toString year.natAbs) 6 '0'
  yearText ++ "-" ++ padStart (toString month) 2 '0' ++ "-" ++ padStart (toString day) 2 '0'

/-- `toLocaleDateString('es-AR')`, for the years that a column of dates holds. -/
def toLocaleDateString (t : Timestamp) : String :=
  let (year, month, day) := civil (t / 86400000)
  toString day ++ "/" ++ toString month ++ "/" ++ toString year

example : toISODate 20513 = "2026-03-01" ∧ toISODate (-719162) = "0001-01-01" := by decide

/-! ## ExportService -/

/-- A value with a comma, a quote or a line feed goes between quotes, with its quotes doubled. -/
def escapeCsv (value : String) : String :=
  if ',' ∈ value.toList ∨ '"' ∈ value.toList ∨ '\n' ∈ value.toList then
    "\"" ++ String.ofList (Csv.escape value.toList) ++ "\""
  else value

/-- The remainder has the sign of `cents`. -/
def centsToDecimal (cents : ℤ) : String :=
  let integer := ⌊toDouble (cents / 100)⌋
  let decimal := cents.tmod 100
  toString integer ++ "." ++ padStart (toString decimal) 2 '0'

/-- The columns of the file of debtors. -/
def debtorColumns (c : Customer) : List String :=
  [escapeCsv c.full_name, escapeCsv (c.phone.getD ""), escapeCsv (c.dni.getD ""),
    centsToDecimal c.balance_cents, centsToDecimal c.credit_limit_cents,
    if c.is_active then "Activo" else "Bloqueado",
    (c.next_payment_promise.map toISODate).getD ""]

/-- The order of the debtors with equal balances is open. -/
abbrev DebtorOrder := OrderByDesc fun c : Customer ↦ c.balance_cents

/-- The chunks that are pushed, the first one with the byte order mark. -/
def createDebtorsStream (order : DebtorOrder) (tenantId : Uuid) (db : Db) : List String :=
  ("\uFEFF" ++ "Nombre,Teléfono,DNI,Deuda ($),Límite Crédito ($),Estado,Promesa de Pago\n") ::
    (order.sort (db.customersOf tenantId)).flatMap fun c ↦
      if c.balance_cents ≤ 0 then [] else [",".intercalate (debtorColumns c) ++ "\n"]

/-! ## CustomersService -/

/-- How a query answers `ORDER BY full_name ASC` in the collation of the database. -/
structure NameOrder where
  sort : List Customer → List Customer
  perm : ∀ rows, (sort rows).Perm rows

def findAllByTenant (order : NameOrder) (tenantId : Uuid) (db : Db) : List Customer :=
  order.sort (db.customersOf tenantId)

def findOne (tenantId customerId : Uuid) (db : Db) : Except ServiceError Customer :=
  match db.customer tenantId customerId with
  | none => .error (.notFound "Cliente no encontrado")
  | some customer => .ok customer

/-- The header of the file of customers. -/
def customerHeader : List String :=
  ["Nombre", "Teléfono", "DNI", "Email", "Dirección", "Deuda ($)", "Límite ($)", "Estado",
    "En Mora", "Promesa de Pago", "Creado"]

/-- The columns of the file of customers; `zone` is how far the local time is ahead of UTC, in which
`new Date` takes a date. -/
def customerColumns (zone : ℤ) (c : Customer) : List String :=
  ["\"" ++ c.full_name ++ "\"", c.phone.getD "", c.dni.getD "", c.email.getD "",
    "\"" ++ c.address.getD "" ++ "\"", toFixed2 (toDouble (c.balance_cents / 100)),
    toFixed2 (toDouble (c.credit_limit_cents / 100)),
    if c.is_active then "Activo" else "Bloqueado", if c.is_overdue then "Sí" else "No",
    (c.next_payment_promise.map fun day ↦ toLocaleDateString (midnight day + zone)).getD "",
    toLocaleDateString c.created_at]

def exportCsv (order : NameOrder) (zone : ℤ) (tenantId : Uuid) (db : Db) : String :=
  let header := ",".intercalate customerHeader
  let rows := (order.sort (db.customersOf tenantId)).map fun c ↦
    ",".intercalate (customerColumns zone c)
  "\n".intercalate (header :: rows)

end MicroErp.Services
