import MicroErp.Services.TransactionsService

/-!
# CashRegisterService

Opening and closing a cash shift.  The tenant row is locked first, so a tenant has one shift open
at a time.
-/

namespace MicroErp.Services

open MicroErp.Concurrency MicroErp.Database

variable (env : Env)

def lockTenant (tenantId : Uuid) : Script Tenant := do
  match ← query (.lockTenant tenantId) with
  | none => Prog.fail (.notFound "Tenant no encontrado")
  | some tenant => pure tenant

def shiftRow (tenantId userId : Uuid) (dto : OpenTurnDto) : CashRegisterLog where
  id := env.fresh 0
  tenant_id := tenantId
  user_id := userId
  opened_at := env.clock
  closed_at := none
  opening_cash_cents := dto.opening_cash_cents.getD 0
  expected_cash_cents := none
  actual_cash_cents := none
  discrepancy_cents := none
  note := none
  status := .OPEN
  created_at := env.now

def openTurn (tenantId userId : Uuid) (dto : OpenTurnDto) : Script CashRegisterLog := do
  let tenant ← lockTenant tenantId
  if tenant.active_cash_shift_id.isSome then
    Prog.fail (.conflict
      "Ya hay un turno de caja abierto en este comercio. Ciérrelo antes de abrir otro.")
  else
    let shift := shiftRow env tenantId userId dto
    query (.insertShift shift)
    query (.keyShare [.tenant tenantId, .user userId])
    saveTenant { tenant with active_cash_shift_id := some shift.id }
    Prog.commitTransaction
    pure shift

/-- Each row of the bulk `UPDATE ... SET cash_register_log_id`. -/
def freezeTransactions (tenantId : Uuid) (openedAt : Timestamp) (shiftId : Uuid) :
    List Uuid → Script Unit
  | [] => pure ()
  | id :: ids => do
    query (.freezeTransaction tenantId openedAt shiftId id)
    freezeTransactions tenantId openedAt shiftId ids

def closeTurn (tenantId : Uuid) (dto : CloseTurnDto) : Script CashRegisterLog := do
  let tenant ← lockTenant tenantId
  match tenant.active_cash_shift_id with
  | none => Prog.fail (.unprocessableEntity "No hay un turno de caja abierto para cerrar")
  | some activeShiftId =>
    match ← query (.findOpenShift tenantId activeShiftId) with
    | none => Prog.fail (.notFound "Turno de caja activo no encontrado")
    | some shift =>
      let cashCollected ← query (.sumCash tenantId shift.opened_at)
      let totalExpected := shift.opening_cash_cents + cashCollected
      let discrepancy := dto.actual_cash_cents - totalExpected
      if discrepancy ≠ 0 ∧ (dto.note.filter fun s ↦ s ≠ "") = none then
        Prog.fail (.unprocessableEntity
          "Debe incluir una nota explicando el motivo del descuadre")
      else
        let closed := { shift with
          closed_at := some env.clock
          expected_cash_cents := some totalExpected
          actual_cash_cents := some dto.actual_cash_cents
          discrepancy_cents := some discrepancy
          note := dto.note
          status := if discrepancy = 0 then .CLOSED_OK else .CLOSED_WITH_DISCREPANCY }
        saveShift closed
        let rows ← query (.selectUnfrozen tenantId shift.opened_at)
        freezeTransactions tenantId shift.opened_at shift.id (env.scan rows)
        saveTenant { tenant with active_cash_shift_id := none }
        Prog.commitTransaction
        pure closed

end MicroErp.Services
