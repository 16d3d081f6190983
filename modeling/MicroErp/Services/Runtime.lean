import MicroErp.Database.Sql

/-!
# What the services run on

The clock, the random identifiers and the scan order of one request, the arithmetic of JavaScript
numbers, and the operations of the entity manager as programs of statements.
-/

namespace MicroErp.Services

open MicroErp.Concurrency MicroErp.Database

/-! ## The environment of a request -/

/-- What a request takes from outside. -/
structure Env where
  /-- `now()` of the database, the start of the transaction. -/
  now : Timestamp
  /-- `new Date()` in the service. -/
  clock : Timestamp
  /-- The identifiers that `randomUUID` and `uuid_generate_v4` give, in the order of use. -/
  fresh : ℕ → Uuid
  /-- The order in which a statement without `ORDER BY` meets its rows. -/
  scan : List Uuid → List Uuid
  scan_perm : ∀ ids, (scan ids).Perm ids
  /-- How JavaScript prints a number. -/
  numberText : ℚ → String

/-- Rows in the order in which a statement without `ORDER BY` answers them. -/
def Env.ordered {α : Type} (env : Env) (key : α → Uuid) (rows : List α) : List α :=
  (env.scan (rows.map key)).filterMap fun id ↦ rows.find? fun r ↦ key r = id

theorem Env.mem_of_mem_ordered {α : Type} {env : Env} {key : α → Uuid} {rows : List α} {r : α}
    (h : r ∈ env.ordered key rows) : r ∈ rows := by
  obtain ⟨id, -, hfind⟩ := List.mem_filterMap.1 h
  exact List.mem_of_find?_eq_some hfind

/-- An order that repeats no key. -/
theorem Env.nodup_ordered {α : Type} {env : Env} {key : α → Uuid} {rows : List α}
    (h : (rows.map key).Nodup) : ((env.ordered key rows).map key).Nodup := by
  have hsub : ∀ ids : List Uuid, (((ids.filterMap fun id ↦ rows.find? fun r ↦ key r = id).map
      key).Sublist ids) := by
    intro ids
    induction ids with
    | nil => exact List.Sublist.slnil
    | cons id ids ih =>
      rw [List.filterMap_cons]
      split
      · exact ih.cons id
      · rename_i r hfind
        have hkey : key r = id := by simpa using List.find?_some hfind
        rw [List.map_cons, hkey]
        exact ih.cons_cons id
  exact ((env.scan_perm _).nodup_iff.2 h).sublist (hsub _)

/-! ## Values -/

/-- An empty string is falsy. -/
def truthy (text : Option String) : Option String := text.filter fun s ↦ s ≠ ""

theorem truthy_eq_some {text : Option String} {s : String} :
    truthy text = some s ↔ text = some s ∧ s ≠ "" := by
  rw [truthy, Option.filter_eq_some_iff, decide_eq_true_eq]

/-- `setDate(getDate() + n)`, in a time zone without daylight saving; times are in milliseconds. -/
def addDays (t : Timestamp) (n : ℤ) : Timestamp := t + n * 86400000

/-! ## Numbers -/

/-- The nearest double, ties to even; the exponent is not bounded. -/
def toDouble (q : ℚ) : ℚ :=
  let ulp : ℚ := 2 ^ (Int.log 2 |q| - 52)
  let n := ⌊q / ulp⌋
  let rest := q / ulp - n
  if rest < 1 / 2 ∨ (rest = 1 / 2 ∧ n % 2 = 0) then n * ulp else (n + 1) * ulp

/-- `Math.round`: ties go up. -/
def mathRound (q : ℚ) : ℤ := ⌊q + 1 / 2⌋

/-- How PostgreSQL prints a UUID. -/
def uuidText (id : Uuid) : String :=
  let digits := (UuidText.mk id 0).chars.map Char.ofNat
  String.ofList (digits.take 8 ++ ['-'] ++ (digits.drop 8).take 4 ++ ['-'] ++
    (digits.drop 12).take 4 ++ ['-'] ++ (digits.drop 16).take 4 ++ ['-'] ++ digits.drop 20)

/-! ## The entity manager -/

abbrev Script := Prog Sql Sql.Ans ServiceError

abbrev query (o : Sql) : Script o.Ans := Prog.issue o

/-- `save` of a new transaction: the insert and its foreign-key checks. -/
def insertTransaction (transaction : Transaction) : Script Unit := do
  query (.insertTransaction transaction)
  query (.keyShare ([.tenant transaction.tenant_id, .customer transaction.customer_id,
    .user transaction.user_id] ++
      (transaction.reversed_transaction_id.map LockName.transaction).toList))

/-- `save` of a loaded entity: its row is read again without a lock, and the columns that differ
are updated. -/
def saveEntity {E : Type} [DecidableEq E] (entity : E) (find : Script (Option E))
    (update : E → Script Unit) : Script Unit := do
  match ← find with
  | none => Prog.fail .entityNotFound
  | some reread => if entity = reread then pure () else update reread

def saveTransaction (transaction : Transaction) : Script Unit :=
  saveEntity transaction (query (.rereadTransaction transaction)) fun reread ↦
    query (.updateTransaction transaction reread)

def saveCustomer (customer : Customer) : Script Unit :=
  saveEntity customer (query (.rereadCustomer customer)) fun reread ↦
    query (.updateCustomer customer reread)

def saveTenant (tenant : Tenant) : Script Unit :=
  saveEntity tenant (query (.rereadTenant tenant)) fun reread ↦
    query (.updateTenant tenant reread)

def saveShift (shift : CashRegisterLog) : Script Unit :=
  saveEntity shift (query (.rereadShift shift)) fun reread ↦
    query (.updateShift shift reread)

/-- A save with what follows it. -/
theorem saveEntity_bind {E α : Type} [DecidableEq E] (entity : E) (find : Script (Option E))
    (update : E → Script Unit) (f : Unit → Script α) :
    (saveEntity entity find update >>= f) = find >>= fun row ↦ match row with
      | none => Prog.fail .entityNotFound
      | some reread => if entity = reread then f () else update reread >>= f := by
  unfold saveEntity
  rw [Prog.bind_assoc]
  congr 1
  funext row
  cases row with
  | none => rfl
  | some reread =>
    by_cases h : entity = reread
    · simp only [h, if_true]
      rfl
    · simp only [h, if_false]

end MicroErp.Services
