import MicroErp.Concurrency.Pooled
import MicroErp.Database.Writes

/-!
# The accounts of the users

The table of users, the statements on it, and the audit log, whose rows are inserted on another
connection than the transaction that they report on.
-/

namespace MicroErp.Database

open MicroErp.Concurrency MicroErp.Storage

inductive UserRole where
  | ADMIN
  | CASHIER
  deriving DecidableEq, Repr

/-- A user without the columns `created_at` and `updated_at`. -/
structure User where
  id : Uuid
  tenant_id : Uuid
  email : String
  password_hash : String
  name : String
  phone : Option String
  role : UserRole
  is_active : Bool
  token_version : ℤ
  password_changed_at : Option Timestamp
  deriving DecidableEq

inductive AuditAction where
  | UPDATE_CREDIT_LIMIT
  | TOGGLE_CUSTOMER_BLOCK
  | UPDATE_PROMISE_DATE
  | MARK_OVERDUE
  | MERGE_CUSTOMERS
  | REVERSE_TRANSACTION
  | FORGIVE_DEBT
  | APPLY_INFLATION
  | DEACTIVATE_USER
  | ACTIVATE_USER
  | RESET_PASSWORD
  deriving DecidableEq, Repr

structure AuditLog where
  id : Uuid
  tenant_id : Uuid
  user_id : Option Uuid
  action : AuditAction
  entity_type : String
  entity_id : Uuid
  old_value : Option (List (String × JsonValue))
  new_value : Option (List (String × JsonValue))
  ip_address : Option String
  created_at : Timestamp
  deriving DecidableEq

instance : Keyed User Uuid := ⟨User.id⟩
instance : Keyed AuditLog Uuid := ⟨AuditLog.id⟩

@[simp] theorem User.key_eq (u : User) : Keyed.key u = u.id := rfl

@[simp] theorem AuditLog.key_eq (a : AuditLog) : Keyed.key a = a.id := rfl

structure AccountDb where
  tenants : Table Tenant
  users : Table User
  auditLogs : Table AuditLog
  deriving DecidableEq

/-- The errors of the operations on accounts. -/
inductive AuthError where
  | unauthorized (message : String)
  | forbidden (message : String)
  | notFound (message : String)
  | queryFailed (error : QueryFailedError)
  | foreignKeyViolation
  /-- `save` met no row to update; nothing deletes rows, so this does not arise. -/
  | entityNotFound
  deriving DecidableEq, Repr

/-! ## Statements -/

def User.saved (mem reread latest : User) : User where
  id := latest.id
  tenant_id := savedColumn mem.tenant_id reread.tenant_id latest.tenant_id
  email := savedColumn mem.email reread.email latest.email
  password_hash := savedColumn mem.password_hash reread.password_hash latest.password_hash
  name := savedColumn mem.name reread.name latest.name
  phone := savedColumn mem.phone reread.phone latest.phone
  role := savedColumn mem.role reread.role latest.role
  is_active := savedColumn mem.is_active reread.is_active latest.is_active
  token_version := savedColumn mem.token_version reread.token_version latest.token_version
  password_changed_at :=
    savedColumn mem.password_changed_at reread.password_changed_at latest.password_changed_at

inductive AccountWrite where
  | updateUser (mem reread : User)
  | insertAuditLog (row : AuditLog)

def AccountWrite.apply : AccountWrite → AccountDb → AccountDb
  | updateUser mem reread, d =>
      { d with users := d.users.modify mem.id (User.saved mem reread) }
  | insertAuditLog row, d => { d with auditLogs := d.auditLogs.insert row }

inductive AccountSql where
  | findUser (tenantId id : Uuid)
  /-- `SELECT ... FOR UPDATE` of a user. -/
  | lockUser (id : Uuid)
  | rereadUser (mem : User)
  | updateUser (mem reread : User)
  | insertAuditLog (row : AuditLog)

namespace AccountSql

/-- What a statement answers. -/
@[reducible] def Ans : AccountSql → Type
  | findUser _ _ => Option User
  | lockUser _ => Option User
  | rereadUser _ => Option User
  | updateUser _ _ => Unit
  | insertAuditLog _ => Unit

/-- The insert into the audit log checks its foreign keys. -/
def locks : AccountSql → AccountDb → List (LockName × LockMode)
  | lockUser id, d => Sql.lockFound (d.users.find id) (.user id) .update
  | updateUser mem _, _ => [(.user mem.id, .noKeyUpdate)]
  | insertAuditLog row, _ =>
      (.tenant row.tenant_id, .keyShare) ::
        (row.user_id.map fun userId ↦ (.user userId, .keyShare)).toList
  | _, _ => []

def exec : (o : AccountSql) → AccountDb → Except AuthError (o.Ans × List AccountWrite)
  | findUser tenantId id, d => .ok ((d.users.find id).filter fun u ↦ u.tenant_id = tenantId, [])
  | lockUser id, d => .ok (d.users.find id, [])
  | rereadUser mem, d => .ok (d.users.find mem.id, [])
  | updateUser mem reread, _ =>
      if Int4 mem.token_version then .ok ((), [.updateUser mem reread])
      else .error (.queryFailed .numericValueOutOfRange)
  | insertAuditLog row, d =>
      if (d.auditLogs.find row.id).isSome then .error (.queryFailed .uniqueViolation)
      else if (d.tenants.find row.tenant_id).isSome ∧
          ∀ userId ∈ row.user_id, (d.users.find userId).isSome then
        .ok ((), [.insertAuditLog row])
      else .error .foreignKeyViolation

/-- The audit log is written by a repository, not by the entity manager of a transaction. -/
def outside : AccountSql → Bool
  | insertAuditLog _ => true
  | _ => false

end AccountSql

/-- PostgreSQL under READ COMMITTED, for the statements on accounts. -/
def accounts : Engine AccountSql AccountSql.Ans AccountDb AccountWrite LockName AuthError where
  needs := AccountSql.locks
  exec := AccountSql.exec
  write := AccountWrite.apply
  aborted := .queryFailed .statementAborted

@[simp] theorem accounts_needs (o : AccountSql) (v : AccountDb) :
    accounts.needs o v = o.locks v := rfl

@[simp] theorem accounts_exec (o : AccountSql) (v : AccountDb) : accounts.exec o v = o.exec v := rfl

@[simp] theorem accounts_write (w : AccountWrite) (d : AccountDb) :
    accounts.write w d = w.apply d := rfl

/-! ## Writes under locks -/

/-- The locks under which a write is made. -/
def AccountWrite.locks : AccountWrite → List (LockName × LockMode)
  | updateUser mem _ => [(.user mem.id, .noKeyUpdate)]
  | insertAuditLog _ => []

/-- A statement takes the locks of what it writes. -/
theorem AccountSql.locks_of_exec {o : AccountSql} {v : AccountDb} {r : o.Ans}
    {ws : List AccountWrite} (h : o.exec v = .ok (r, ws)) : ∀ w ∈ ws, w.locks ⊆ o.locks v := by
  cases o with
  | updateUser mem reread =>
    simp only [exec] at h
    split at h
    · cases h
      simp [AccountWrite.locks, locks]
    · cases h
  | insertAuditLog row =>
    simp only [exec] at h
    split at h
    · cases h
    · split at h
      · cases h
        simp [AccountWrite.locks]
      · cases h
  | _ =>
    cases h
    simp

/-- A user whose row is not written keeps it. -/
theorem find_user_view {ws : List AccountWrite} {d : AccountDb} {id : Uuid}
    (h : ∀ mem reread, .updateUser mem reread ∈ ws → mem.id ≠ id) :
    (accounts.view ws d).users.find id = d.users.find id := by
  refine accounts.view_unchanged (fun d ↦ d.users.find id) fun w hw d ↦ ?_
  cases w with
  | updateUser mem reread => exact Table.find_modify_of_ne (h mem reread hw).symm
  | insertAuditLog row => rfl

end MicroErp.Database
