import MicroErp.Database.Accounts

/-!
# The audit log beside the other tables

The rows of the audit log are inserted by repositories of their own, each insert in a transaction
of its own, and never read or changed by the operations.  The runs that are modelled are those in
which every insert succeeds.
-/

namespace MicroErp.Database

open MicroErp.Concurrency MicroErp.Storage

structure AuditedDb where
  db : Db
  /-- The rows in the order of their inserts. -/
  auditLogs : List AuditLog
  deriving DecidableEq

inductive AuditedWrite where
  | on (w : Write)
  | insertAuditLogs (rows : List AuditLog)

def AuditedWrite.apply : AuditedWrite → AuditedDb → AuditedDb
  | on w, d => { d with db := w.apply d.db }
  | insertAuditLogs rows, d => { d with auditLogs := d.auditLogs ++ rows }

/-- The customers that `processOverdueCustomers` marks. -/
def Customer.IsCandidate (today : Date) (c : Customer) : Prop :=
  (∃ day ∈ c.next_payment_promise, day < today) ∧ 0 < c.balance_cents ∧ c.is_overdue = false

instance (today : Date) (c : Customer) : Decidable (c.IsCandidate today) :=
  inferInstanceAs (Decidable (_ ∧ _ ∧ _))

inductive AuditedSql where
  | on (o : Sql)
  /-- `Sql.findOverdueCustomers` with the columns that the audit rows need. -/
  | loadOverdueCustomers (today : Date)
  /-- `Sql.findAutoBlockTenants` inside a `try`. -/
  | tryAutoBlockTenants
  | insertAuditLogs (rows : List AuditLog)

namespace AuditedSql

@[reducible] def Ans : AuditedSql → Type
  | on o => o.Ans
  | loadOverdueCustomers _ => List Customer
  | tryAutoBlockTenants => Except QueryFailedError (List (Uuid × ℤ))
  | insertAuditLogs _ => Unit

/-- The insert into the audit log checks its foreign key. -/
def locks : AuditedSql → AuditedDb → List (LockName × LockMode)
  | on o, d => o.locks d.db
  | insertAuditLogs rows, _ => rows.map fun row ↦ (.tenant row.tenant_id, .keyShare)
  | _, _ => []

def exec : (o : AuditedSql) → AuditedDb → Except ServiceError (o.Ans × List AuditedWrite)
  | on o, d =>
      match o.exec d.db with
      | .error e => .error e
      | .ok (r, ws) => .ok (r, ws.map .on)
  | loadOverdueCustomers today, d =>
      .ok (d.db.customers.rows.filter fun c ↦ c.IsCandidate today, [])
  | tryAutoBlockTenants, d => .ok (d.db.autoBlockTenants, [])
  | insertAuditLogs rows, _ => .ok ((), [.insertAuditLogs rows])

/-- The statements that are not part of the transaction of the session. -/
def outside : AuditedSql → Bool
  | insertAuditLogs _ => true
  | _ => false

end AuditedSql

/-- PostgreSQL under READ COMMITTED, with the audit log. -/
def audited : Engine AuditedSql AuditedSql.Ans AuditedDb AuditedWrite LockName ServiceError where
  needs := AuditedSql.locks
  exec := AuditedSql.exec
  write := AuditedWrite.apply
  aborted := .queryFailed .statementAborted

@[simp] theorem audited_needs (o : AuditedSql) (v : AuditedDb) : audited.needs o v = o.locks v := rfl

@[simp] theorem audited_exec (o : AuditedSql) (v : AuditedDb) : audited.exec o v = o.exec v := rfl

@[simp] theorem audited_write (w : AuditedWrite) (d : AuditedDb) :
    audited.write w d = w.apply d := rfl

/-! ## The two parts of the writes -/

namespace AuditedWrite

def logs : AuditedWrite → List AuditLog
  | on _ => []
  | insertAuditLogs rows => rows

end AuditedWrite

theorem auditLogs_view (ws : List AuditedWrite) (d : AuditedDb) :
    (audited.view ws d).auditLogs = d.auditLogs ++ ws.flatMap AuditedWrite.logs := by
  induction ws generalizing d with
  | nil => exact (List.append_nil _).symm
  | cons w ws ih =>
    rw [Engine.view_cons, ih, List.flatMap_cons]
    cases w with
    | on w => rfl
    | insertAuditLogs rows => exact List.append_assoc _ _ _

end MicroErp.Database
