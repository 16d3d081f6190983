import MicroErp.Commits.Shifts

/-!
# The shifts and the semaphores of the tenants

`ShiftStep` says what a commit does to the shifts and, unless it is one of the nightly job, to the
column of the tenants that names the open one.
-/

namespace MicroErp.Commits

open MicroErp.Concurrency MicroErp.Database MicroErp.Services MicroErp.Storage

/-- The tenant with its semaphore set. -/
def setActive (tenantId : Uuid) (active : Option Uuid) (t : Tenant) : Tenant :=
  if t.id = tenantId then { t with active_cash_shift_id := active } else t

/-- What the commit of a request does to the shifts and to the semaphores. -/
inductive ShiftStep (K : Desk) (env : Env) (d d' : Db) : Request → Prop
  | keep {req : Request} (hreq : ∀ tenantId dto, req ≠ .closeTurn tenantId dto)
      (hshifts : d'.shifts = d.shifts)
      (htenants : req ≠ .processSaaSExpirations →
        d'.tenants.rows.map (fun t ↦ (t.id, t.active_cash_shift_id)) =
          d.tenants.rows.map fun t ↦ (t.id, t.active_cash_shift_id)) : ShiftStep K env d d' req
  | open {tenantId userId : Uuid} {dto : OpenTurnDto} {tenant : Tenant}
      (htenant : d.tenants.find tenantId = some tenant)
      (hidle : tenant.active_cash_shift_id = none) (hnew : d.shifts.find (env.fresh 0) = none)
      (hshifts : d'.shifts.rows = d.shifts.rows ++ [shiftRow env tenantId userId dto])
      (htenants : d'.tenants.rows =
        d.tenants.rows.map (setActive tenantId (some (env.fresh 0)))) :
      ShiftStep K env d d' (.openTurn tenantId userId dto)
  | close {tenantId : Uuid} {dto : CloseTurnDto} {tenant : Tenant} {shift : CashRegisterLog}
      {counted : Db} (htenant : d.tenants.find tenantId = some tenant)
      (hactive : tenant.active_cash_shift_id = some shift.id)
      (hshift : d.openShift tenantId shift.id = some shift)
      (hsum : K.sums tenantId shift.opened_at counted)
      (hnote : dto.actual_cash_cents ≠
        shift.opening_cash_cents + counted.cashSince tenantId shift.opened_at →
          ∃ text, dto.note = some text ∧ text ≠ "")
      (hcounted : K.exclusive → counted = d)
      (hshifts : d'.shifts.rows = d.shifts.rows.map fun s ↦ if s.id = shift.id then
        closedShift env dto shift (counted.cashSince tenantId shift.opened_at) else s)
      (htenants : d'.tenants.rows = d.tenants.rows.map (setActive tenantId none)) :
      ShiftStep K env d d' (.closeTurn tenantId dto)

variable {K : Desk} {req : Request} {env : Env} {lk : List (LockName × LockMode)}
  {ws : List Write} {d d' : Db} {tenantId : Uuid}

/-! ## The tenants after a commit -/

theorem onTenant_off_desk {w : Write} (h : ∀ mem reread, w ≠ .updateTenant mem reread)
    (t : Tenant) : onTenant t w = t := by
  cases w with
  | updateTenant mem reread => exact (h mem reread rfl).elim
  | _ => rfl

theorem foldl_onTenant_off_desk (h : ∀ w ∈ ws, ∀ mem reread, w ≠ .updateTenant mem reread)
    (t : Tenant) : ws.foldl onTenant t = t := by
  induction ws with
  | nil => rfl
  | cons w ws ih =>
    rw [List.foldl_cons, onTenant_off_desk (h w List.mem_cons_self)]
    exact ih fun w' hw' ↦ h w' (List.mem_cons_of_mem _ hw')

/-- The rows of the tenants after writes of which only the save of one that is held is on them. -/
theorem tenants_saved (pre : List Write) {mem held : Tenant} (hmem : mem.id = held.id)
    (hheld : d.tenants.find held.id = some held)
    (hpre : ∀ w ∈ pre, ∀ mem reread, w ≠ .updateTenant mem reread) :
    (postgres.view (pre ++ savedTenant mem held) d).tenants.rows =
      d.tenants.rows.map fun t ↦ if t.id = held.id then mem else t := by
  rw [tenants_view]
  refine List.map_congr_left fun t ht ↦ ?_
  rw [List.foldl_append, foldl_onTenant_off_desk hpre]
  exact foldl_savedTenant hmem hheld ht

theorem map_setActive {tenant : Tenant} (htenant : d.tenants.find tenantId = some tenant)
    (active : Option Uuid) :
    (d.tenants.rows.map fun t ↦
        if t.id = tenant.id then { tenant with active_cash_shift_id := active } else t) =
      d.tenants.rows.map (setActive tenantId active) := by
  obtain ⟨hmem, hid⟩ := Table.find_eq_some.1 htenant
  refine List.map_congr_left fun t ht ↦ ?_
  unfold setActive
  obtain rfl : tenant.id = tenantId := hid
  split
  · rename_i heq
    obtain rfl := List.inj_on_of_nodup_map d.tenants.nodup ht hmem heq
    rfl
  · rfl

/-- The save of a tenant that leaves its semaphore alone. -/
theorem semaphores_saved (pre : List Write) {mem held : Tenant} (hmem : mem.id = held.id)
    (hactive : mem.active_cash_shift_id = held.active_cash_shift_id)
    (hheld : d.tenants.find held.id = some held)
    (hpre : ∀ w ∈ pre, ∀ mem reread, w ≠ .updateTenant mem reread) :
    (postgres.view (pre ++ savedTenant mem held) d).tenants.rows.map
        (fun t ↦ (t.id, t.active_cash_shift_id)) =
      d.tenants.rows.map fun t ↦ (t.id, t.active_cash_shift_id) := by
  rw [tenants_saved pre hmem hheld hpre, List.map_map]
  refine List.map_congr_left fun t ht ↦ ?_
  simp only [Function.comp_apply]
  split
  · rename_i heq
    obtain rfl := List.inj_on_of_nodup_map d.tenants.nodup ht (Table.find_eq_some.1 hheld).1 heq
    rw [hmem, hactive]
  · rfl

/-- The save of a tenant that sets its semaphore. -/
theorem tenants_setActive (pre : List Write) {tenant : Tenant} {active : Option Uuid}
    (htenant : d.tenants.find tenant.id = some tenant)
    (hne : tenant.active_cash_shift_id ≠ active)
    (hpre : ∀ w ∈ pre, ∀ mem reread, w ≠ .updateTenant mem reread) :
    (postgres.view (pre ++ [.updateTenant { tenant with active_cash_shift_id := active } tenant])
      d).tenants.rows = d.tenants.rows.map (setActive tenant.id active) := by
  have hwrites : savedTenant { tenant with active_cash_shift_id := active } tenant =
      [.updateTenant { tenant with active_cash_shift_id := active } tenant] :=
    if_neg fun heq ↦ hne (congrArg Tenant.active_cash_shift_id heq).symm
  rw [← map_setActive htenant, ← hwrites]
  exact tenants_saved pre rfl htenant hpre

theorem DeskChanges.shiftStep (h : DeskChanges K env lk d req ws) :
    ShiftStep K env d (postgres.view ws d) req := by
  cases h with
  | other hreq h =>
    refine .keep hreq.ne_closeTurn (shifts_view (fun w hw ↦ not_onShift_of_not_atDesk (h w hw)) d) fun _ ↦ ?_
    have hsame : ∀ t, ws.foldl onTenant t = t := foldl_onTenant_off_desk fun w hw mem reread ↦ by
      rintro rfl
      exact h _ hw trivial
    rw [tenants_view, List.map_map]
    exact List.map_congr_left fun t _ ↦ by simp only [Function.comp_apply, hsame]
  | @settings _ _ tenant htenant =>
    obtain rfl : tenant.id = _ := (Table.find_eq_some.1 htenant.1).2
    refine .keep (fun _ _ ↦ Request.noConfusion) (shifts_view (not_onShift_savedTenant _ _) d)
      fun _ ↦ ?_
    exact semaphores_saved [] rfl rfl htenant.1 fun w hw ↦ (List.not_mem_nil hw).elim
  | @paid externalPaymentId _ rawPayload tenant htenant =>
    refine .keep (fun _ _ ↦ Request.noConfusion) ?_ fun _ ↦ ?_
    · rw [Engine.view_cons, shifts_view (not_onShift_savedTenant _ _)]
      rfl
    · refine semaphores_saved [.insertBillingEvent (billingEventRow env tenant.id
        externalPaymentId rawPayload)] rfl rfl htenant.1 fun w hw mem reread ↦ ?_
      obtain rfl := List.mem_singleton.1 hw
      exact Write.noConfusion
  | suspend h =>
    refine .keep (fun _ _ ↦ Request.noConfusion) (shifts_view (fun w hw ↦ ?_) d) fun h ↦ (h rfl).elim
    obtain ⟨loaded, reread, rfl, -⟩ := h w hw
    exact id
  | @«open» _ userId dto tenant htenant hidle hnew =>
    obtain rfl : tenant.id = _ := (Table.find_eq_some.1 htenant.1).2
    refine .open htenant.1 hidle hnew (Table.rows_insert_of_fresh hnew) ?_
    refine tenants_setActive [.insertShift _] htenant.1 (by simp [hidle]) ?_
    intro w hw mem reread
    obtain rfl := List.mem_singleton.1 hw
    exact Write.noConfusion
  | @close _ dto tenant shift frozen counted htenant hactive hshift hsum hnote hexact =>
    obtain rfl : tenant.id = _ := (Table.find_eq_some.1 htenant.1).2
    refine .close htenant.1 hactive hshift hsum hnote (fun hK ↦ (hexact hK).1) ?_ ?_
    · rw [List.cons_append, Engine.view_cons, shifts_frozen]
      exact shifts_close rfl (Option.filter_eq_some_iff.1 hshift).1
    · refine tenants_setActive (.updateShift _ _ ::
        frozen.map (.freezeTransaction · shift.id)) htenant.1 (by simp [hactive]) ?_
      intro w hw mem reread
      rcases List.mem_cons.1 hw with rfl | hw
      · exact Write.noConfusion
      · obtain ⟨id, -, rfl⟩ := List.mem_map.1 hw
        exact Write.noConfusion

/-! ## Runs and requests alone -/

/-- Nothing is assumed of the sessions at the desk. -/
def Desk.plain : Desk where
  exclusive := False
  sums _ _ _ := True
  savesFresh := False

theorem allow_desk_plain (req : Request) (o : Sql) (v : Db) : Desk.plain.allow req o v := by
  cases o <;> simp [Desk.allow, Desk.plain]

/-- Nobody else is served. -/
def Desk.alone : Desk := { Desk.plain with exclusive := True }

theorem allow_desk_alone (req : Request) (o : Sql) (v : Db) : Desk.alone.allow req o v := by
  cases o <;> simp [Desk.allow, Desk.alone, Desk.plain]

theorem committing_closeTurn {dto : CloseTurnDto} :
    ((Request.closeTurn tenantId dto).script env).Committing := by
  simp only [Request.script, closeTurn, Prog.bind_assoc]
  refine Prog.committing_bind fun tenant ↦ ?_
  cases tenant.active_cash_shift_id with
  | none => trivial
  | some activeShiftId =>
    simp only [query, Prog.issue_bind, Prog.stmt_bind]
    intro shift
    cases shift with
    | none => trivial
    | some shift =>
      intro cash
      simp only [Prog.bind_eq, Prog.ite_bind, Prog.fail_bind, Prog.bind_assoc, Prog.stmt_bind]
      split
      · trivial
      · refine Prog.committing_bind fun _ rows ↦ ?_
        refine Prog.committing_bind fun _ ↦ Prog.committing_bind fun _ ↦ ?_
        trivial

/-- A shift is closed alone with the cash of the database it is closed in. -/
theorem closeTurn_alone {dto : CloseTurnDto} {a : Answer}
    (h : postgres.alone ((Request.closeTurn tenantId dto).script env) [] d = (.ok a, d')) :
    ShiftStep Desk.alone env d d' (.closeTurn tenantId dto) := by
  obtain ⟨lk, ws, hguar, -, rfl⟩ := Engine.commit_of_alone Write.locks
    (fun h ↦ Sql.locks_of_exec h) (fun _ _ ↦ DeskRely.refl) (allow_desk_alone _)
    committing_closeTurn (closeTurn_desk (K := Desk.alone)) (fun _ h ↦ (List.not_mem_nil h).elim) h
  exact DeskChanges.shiftStep hguar

end MicroErp.Commits
