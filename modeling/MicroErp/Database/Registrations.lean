import MicroErp.Database.Accounts

/-!
# The users beside the other tables

A registration fills the tables of tenants and users.  The address of a user is unique, so two
registrations under one address wait for each other.
-/

namespace MicroErp.Database

open MicroErp.Concurrency MicroErp.Storage

structure Installation where
  db : Db
  users : Table User
  deriving DecidableEq

inductive InstallationWrite where
  | on (w : Write)
  | insertTenant (row : Tenant)
  | insertUser (row : User)

def InstallationWrite.apply : InstallationWrite → Installation → Installation
  | on w, d => { d with db := w.apply d.db }
  | insertTenant row, d => { d with db := { d.db with tenants := d.db.tenants.insert row } }
  | insertUser row, d => { d with users := d.users.insert row }

inductive InstallationLock where
  | row (name : LockName)
  | email (text : String)
  deriving DecidableEq

inductive InstallationSql where
  | on (o : Sql)
  | findUserByEmail (email : String)
  | insertTenant (row : Tenant)
  | insertUser (row : User)

namespace InstallationSql

@[reducible] def Ans : InstallationSql → Type
  | on o => o.Ans
  | findUserByEmail _ => Option Uuid
  | insertTenant _ => Unit
  | insertUser _ => Unit

def locks : InstallationSql → Installation → List (InstallationLock × LockMode)
  | on o, d => (o.locks d.db).map fun l ↦ (.row l.1, l.2)
  | findUserByEmail _, _ => []
  | insertTenant row, _ => [(.row (.tenant row.id), .update)]
  | insertUser row, _ =>
      [(.row (.user row.id), .update), (.email row.email, .update),
        (.row (.tenant row.tenant_id), .keyShare)]

/-- The tenant of a user is inserted before, so its foreign key holds. -/
def exec : (o : InstallationSql) → Installation →
    Except ServiceError (o.Ans × List InstallationWrite)
  | on o, d =>
      match o.exec d.db with
      | .error e => .error e
      | .ok (r, ws) => .ok (r, ws.map .on)
  | findUserByEmail email, d =>
      .ok ((d.users.rows.find? fun u ↦ u.email = email).map (·.id), [])
  | insertTenant row, d =>
      if (d.db.tenants.find row.id).isSome then .error (.queryFailed .uniqueViolation)
      else .ok ((), [.insertTenant row])
  | insertUser row, d =>
      if (d.users.find row.id).isSome ∨ (d.users.rows.find? fun u ↦ u.email = row.email).isSome then
        .error (.queryFailed .uniqueViolation)
      else .ok ((), [.insertUser row])

end InstallationSql

/-- PostgreSQL under READ COMMITTED, with the table of users. -/
def installed : Engine InstallationSql InstallationSql.Ans Installation InstallationWrite
    InstallationLock ServiceError where
  needs := InstallationSql.locks
  exec := InstallationSql.exec
  write := InstallationWrite.apply
  aborted := .queryFailed .statementAborted

@[simp] theorem installed_exec (o : InstallationSql) (v : Installation) :
    installed.exec o v = o.exec v := rfl

@[simp] theorem installed_write (w : InstallationWrite) (d : Installation) :
    installed.write w d = w.apply d := rfl

theorem installed_view (ws : List Write) (d : Installation) :
    installed.view (ws.map .on) d = { d with db := postgres.view ws d.db } := by
  induction ws generalizing d with
  | nil => rfl
  | cons w ws ih =>
    rw [List.map_cons, Engine.view_cons, ih]
    rfl

end MicroErp.Database
