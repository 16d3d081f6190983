import MicroErp.Commits.Semaphore
import MicroErp.Services.Queries

/-!
# One open shift

The semaphore of a tenant names its only open shift in every state of every run, and the live
summary of the shift is what closing it would compute, as long as all its totals are integers of
the database.
-/

namespace MicroErp.Guarantees

open MicroErp.Commits MicroErp.Concurrency MicroErp.Database MicroErp.Services MicroErp.Storage

/-- The open shifts of a tenant. -/
def openShiftsOf (d : Db) (tenantId : Uuid) : List CashRegisterLog :=
  d.shifts.rows.filter fun s ↦ s.tenant_id = tenantId ∧ s.status = .OPEN

/-- The semaphore of each tenant names its only open shift, and none if there is none. -/
def OneOpen (d : Db) : Prop :=
  ∀ t ∈ d.tenants.rows, (openShiftsOf d t.id).map (·.id) = t.active_cash_shift_id.toList

/-! ## Steps -/

section Steps

variable {K : Desk} {req : Request} {env : Env} {d d' : Db}

theorem setActive_id (tenantId : Uuid) (active : Option Uuid) (t : Tenant) :
    (setActive tenantId active t).id = t.id := by
  unfold setActive
  split <;> rfl

theorem closedShift_ne_open {dto : CloseTurnDto} {shift : CashRegisterLog} {cash : ℤ} :
    (closedShift env dto shift cash).status ≠ .OPEN := by
  unfold closedShift
  simp only
  split <;> exact CashRegisterStatus.noConfusion

/-- The open shifts after one of them is closed. -/
theorem openShifts_close {dto : CloseTurnDto} {shift : CashRegisterLog} {cash : ℤ}
    (hshifts : d'.shifts.rows = d.shifts.rows.map fun s ↦
      if s.id = shift.id then closedShift env dto shift cash else s) (tenantId : Uuid) :
    openShiftsOf d' tenantId = (openShiftsOf d tenantId).filter fun s ↦ s.id ≠ shift.id := by
  unfold openShiftsOf
  rw [hshifts, List.filter_map, List.filter_filter]
  have hrows : ∀ l : List CashRegisterLog, (l.filter
      ((fun s ↦ decide (s.tenant_id = tenantId ∧ s.status = .OPEN)) ∘
        fun s ↦ if s.id = shift.id then closedShift env dto shift cash else s)) =
      l.filter fun s ↦ decide (s.id ≠ shift.id) && decide (s.tenant_id = tenantId ∧ s.status = .OPEN) := by
    intro l
    refine List.filter_congr fun s _ ↦ ?_
    simp only [Function.comp_apply]
    split
    · rename_i hid
      simp [hid, closedShift_ne_open]
    · rename_i hid
      simp [hid]
  rw [hrows]
  refine (List.map_congr_left fun s hs ↦ ?_).trans (List.map_id _)
  have hne := (List.mem_filter.1 hs).2
  simp only [Bool.and_eq_true, decide_eq_true_eq] at hne
  exact if_neg hne.1

theorem OneOpen.step (h : OneOpen d) (hstep : ShiftStep K env d d' req)
    (hreq : req ≠ .processSaaSExpirations) : OneOpen d' := by
  intro t' ht'
  cases hstep with
  | keep _ hshifts htenants =>
    have hmem := List.mem_map_of_mem (f := fun t : Tenant ↦ (t.id, t.active_cash_shift_id)) ht'
    rw [htenants hreq] at hmem
    obtain ⟨t, ht, heq⟩ := List.mem_map.1 hmem
    obtain ⟨hid, hactive⟩ := Prod.mk.inj heq
    rw [← hid, ← hactive, ← h t ht, openShiftsOf, openShiftsOf, hshifts]
  | @«open» tenantId userId dto tenant htenant hidle hnew hshifts htenants =>
    rw [htenants] at ht'
    obtain ⟨t, ht, rfl⟩ := List.mem_map.1 ht'
    rw [setActive_id, openShiftsOf, hshifts, List.filter_append, List.map_append]
    have hopen := h t ht
    rw [openShiftsOf] at hopen
    rw [hopen]
    by_cases hid : t.id = tenantId
    · obtain ⟨hmem, hkey⟩ := Table.find_eq_some.1 htenant
      obtain rfl := List.inj_on_of_nodup_map d.tenants.nodup ht hmem (hid.trans hkey.symm)
      simp [setActive, hid, hidle, shiftRow]
    · simp [setActive, hid, shiftRow, Ne.symm hid]
  | @close tenantId dto tenant shift counted htenant hactive hshift _ _ _ hshifts htenants =>
    rw [htenants] at ht'
    obtain ⟨t, ht, rfl⟩ := List.mem_map.1 ht'
    have hmap : ((openShiftsOf d t.id).filter fun s ↦ s.id ≠ shift.id).map (·.id) =
        ((openShiftsOf d t.id).map (·.id)).filter fun id ↦ id ≠ shift.id := by
      rw [List.filter_map]
      rfl
    rw [setActive_id, openShifts_close hshifts, hmap]
    by_cases hid : t.id = tenantId
    · obtain ⟨hmem, hkey⟩ := Table.find_eq_some.1 htenant
      obtain rfl := List.inj_on_of_nodup_map d.tenants.nodup ht hmem (hid.trans hkey.symm)
      rw [h t ht, hactive]
      simp [setActive, hid]
    · have hother : ∀ id ∈ (openShiftsOf d t.id).map (·.id), id ≠ shift.id := by
        intro id hid' heq
        obtain ⟨s, hs, rfl⟩ := List.mem_map.1 hid'
        obtain ⟨hmem, htenant'⟩ := List.mem_filter.1 hs
        obtain ⟨hmem', -, -⟩ := Db.openShift_eq_some.1 hshift
        obtain ⟨hmem', htenant''⟩ := List.mem_filter.1 hmem'
        obtain rfl := List.inj_on_of_nodup_map d.shifts.nodup hmem hmem' heq
        simp only [decide_eq_true_eq] at htenant' htenant''
        exact hid (htenant'.1.symm.trans htenant'')
      rw [List.filter_eq_self.2 fun id hid' ↦ decide_eq_true (hother id hid'), h t ht]
      simp [setActive, hid]

theorem oneOpen_opened {tenants : Table Tenant}
    (h : ∀ t ∈ tenants.rows, t.active_cash_shift_id = none) : OneOpen (Db.opened tenants) := by
  intro t ht
  rw [h t ht]
  rfl

end Steps

/-! ## Runs -/

section Runs

variable {ι : Type} [DecidableEq ι] {req : ι → Request} {env : ι → Env} {tenants : Table Tenant}

/-- In every state of every run without the nightly job the semaphores are right. -/
theorem oneOpen_run (hids : FreshIds req env) (hreq : ∀ i, req i ≠ .processSaaSExpirations)
    (hidle : ∀ t ∈ tenants.rows, t.active_cash_shift_id = none) (es : List (Event ι)) :
    OneOpen (postgres.run (serve req env (Db.opened tenants)) es).db := by
  obtain ⟨hC, hsound⟩ := sound_both (K := fun _ ↦ Desk.plain) (fun _ ↦ id) hids
    (fun i ↦ unused_opened (env i) tenants) (wellFormed_opened tenants)
  refine hsound.history hC (J := fun d _ ↦ OneOpen d) (.of_forall fun i o v ↦
    ⟨allow_plain (req i) (env i) o v, allow_desk_plain (req i) o v⟩) (oneOpen_opened hidle) ?_
  intro i lk ws d log hd hguar _
  exact hd.step hguar.2.shiftStep (hreq i)

end Runs

/-! ## The summary of the open shift -/

/-- Whatever order rows are met in, the live summary of the tenant is one of shift `s`, and whenever
`closeTurn` succeeds from here the shift is stored with the expected amount of the summary. -/
def Summarizes (tenantId : Uuid) (d : Db) (s : CashRegisterLog) : Prop :=
  ∀ env, ∃ summary, getActiveSummary env tenantId d = .ok summary ∧ summary.shift_id = some s.id ∧
    ∀ env' dto a d', postgres.alone ((Request.closeTurn tenantId dto).script env') [] d =
        (.ok a, d') →
      ∃ s' ∈ d'.shifts.rows, s'.id = s.id ∧
        s'.expected_cash_cents = some summary.expected_cash_cents

/-- The totals of the payments since the shift was opened are integers of the database. -/
def TotalsFit (tenantId : Uuid) (d : Db) (s : CashRegisterLog) : Prop :=
  Int4 (d.cashSince tenantId s.opened_at) ∧ Int4 (d.paymentCount tenantId s.opened_at) ∧
    Int4 (d.transfersSince tenantId s.opened_at)

section Summary

variable {env : Env} {d d' : Db} {tenantId : Uuid} {s : CashRegisterLog}

/-- The only row is met first in any order. -/
theorem ordered_singleton {α : Type} (env : Env) (key : α → Uuid) (r : α) :
    env.ordered key [r] = [r] := by
  have hscan : env.scan [key r] = [key r] := List.perm_singleton.1 (env.scan_perm _)
  simp [Env.ordered, hscan]

theorem getActiveSummary_of_one (hone : openShiftsOf d tenantId = [s]) :
    getActiveSummary env tenantId d = (do
      let total ← castInt4 (d.cashSince tenantId s.opened_at)
      let count ← castInt4 (d.paymentCount tenantId s.opened_at)
      let transferTotal ← castInt4 (d.transfersSince tenantId s.opened_at)
      pure ⟨some s.id, s.opening_cash_cents + total, s.opening_cash_cents, some s.opened_at, count,
        transferTotal⟩) := by
  unfold openShiftsOf at hone
  unfold getActiveSummary
  simp only [hone, ordered_singleton]
  rfl

/-- The summary is answered if and only if its totals fit. -/
theorem getActiveSummary_eq_ok (hone : openShiftsOf d tenantId = [s]) {summary : CashSummary} :
    getActiveSummary env tenantId d = .ok summary ↔ TotalsFit tenantId d s ∧
      summary = ⟨some s.id, s.opening_cash_cents + d.cashSince tenantId s.opened_at,
        s.opening_cash_cents, some s.opened_at, d.paymentCount tenantId s.opened_at,
        d.transfersSince tenantId s.opened_at⟩ := by
  rw [getActiveSummary_of_one hone]
  unfold castInt4 TotalsFit
  by_cases hcash : Int4 (d.cashSince tenantId s.opened_at)
  · by_cases hcount : Int4 (d.paymentCount tenantId s.opened_at)
    · by_cases htransfers : Int4 (d.transfersSince tenantId s.opened_at)
      · simp only [hcash, hcount, htransfers, if_true, and_self, true_and]
        exact ⟨fun h ↦ (Except.ok.inj h).symm, fun h ↦ congrArg Except.ok h.symm⟩
      · simp [hcash, hcount, htransfers, bind, Except.bind]
    · simp [hcash, hcount, bind, Except.bind]
  · simp [hcash, bind, Except.bind]

/-- Closing stores what the database says the cash is. -/
theorem closed_of_one (hone : openShiftsOf d tenantId = [s]) {dto : CloseTurnDto}
    (hstep : ShiftStep Desk.alone env d d' (.closeTurn tenantId dto)) :
    ∃ s' ∈ d'.shifts.rows, s'.id = s.id ∧
      s'.expected_cash_cents = some (s.opening_cash_cents + d.cashSince tenantId s.opened_at) := by
  cases hstep with
  | keep hreq => exact (hreq tenantId dto rfl).elim
  | @close _ _ tenant shift counted _ _ hshift _ _ hcounted hshifts _ =>
    obtain ⟨hmem, -, hopen⟩ := Db.openShift_eq_some.1 hshift
    obtain ⟨hmem, htenant⟩ := List.mem_filter.1 hmem
    have hshift' : shift ∈ openShiftsOf d tenantId :=
      List.mem_filter.2 ⟨hmem, decide_eq_true ⟨of_decide_eq_true htenant, hopen⟩⟩
    rw [hone] at hshift'
    obtain rfl := List.mem_singleton.1 hshift'
    obtain rfl := hcounted trivial
    refine ⟨closedShift env dto shift (counted.cashSince tenantId shift.opened_at), ?_, rfl, rfl⟩
    rw [hshifts]
    exact List.mem_map.2 ⟨shift, hmem, if_pos rfl⟩

theorem summarizes_iff (hone : openShiftsOf d tenantId = [s]) :
    Summarizes tenantId d s ↔ TotalsFit tenantId d s := by
  constructor
  · intro h
    obtain ⟨summary, hsummary, -⟩ := h (sampleEnv 0)
    exact ((getActiveSummary_eq_ok hone).1 hsummary).1
  · intro h env
    refine ⟨_, (getActiveSummary_eq_ok hone).2 ⟨h, rfl⟩, rfl, fun env' dto a d' halone ↦ ?_⟩
    exact closed_of_one hone (closeTurn_alone halone)

end Summary

section Runs

variable {ι : Type} [DecidableEq ι] {req : ι → Request} {env : ι → Env} {tenants : Table Tenant}

theorem openShifts_of_oneOpen {d : Db} (h : OneOpen d) {t : Tenant} (ht : t ∈ d.tenants.rows)
    {s : CashRegisterLog} (hs : s ∈ openShiftsOf d t.id) :
    openShiftsOf d t.id = [s] ∧ t.active_cash_shift_id = some s.id := by
  have hmap := h t ht
  cases hactive : t.active_cash_shift_id with
  | none =>
    rw [hactive, Option.toList_none, List.map_eq_nil_iff] at hmap
    rw [hmap] at hs
    cases hs
  | some id =>
    rw [hactive, Option.toList_some] at hmap
    obtain ⟨s', hone, rfl⟩ := List.map_eq_singleton_iff.1 hmap
    rw [hone] at hs
    obtain rfl := List.mem_singleton.1 hs
    exact ⟨hone, rfl⟩

/-- In every state of every run without the nightly job, the semaphore of a tenant is null exactly
when the tenant has no open shift, and otherwise it names the only one; and the live summary is what
closing would compute exactly when its totals fit. -/
theorem one_open_shift_summarized (hids : FreshIds req env)
    (hreq : ∀ i, req i ≠ .processSaaSExpirations)
    (hidle : ∀ t ∈ tenants.rows, t.active_cash_shift_id = none) (es : List (Event ι)) :
    ∀ t ∈ (postgres.run (serve req env (Db.opened tenants)) es).db.tenants.rows,
      (t.active_cash_shift_id = none ↔
        openShiftsOf (postgres.run (serve req env (Db.opened tenants)) es).db t.id = []) ∧
      ∀ s ∈ openShiftsOf (postgres.run (serve req env (Db.opened tenants)) es).db t.id,
        openShiftsOf (postgres.run (serve req env (Db.opened tenants)) es).db t.id = [s] ∧
        t.active_cash_shift_id = some s.id ∧
        (Summarizes t.id (postgres.run (serve req env (Db.opened tenants)) es).db s ↔
          TotalsFit t.id (postgres.run (serve req env (Db.opened tenants)) es).db s) := by
  have hopen := oneOpen_run hids hreq hidle es
  intro t ht
  refine ⟨?_, fun s hs ↦ ?_⟩
  · have hmap := hopen t ht
    rw [← List.map_eq_nil_iff (f := fun s : CashRegisterLog ↦ s.id), hmap]
    exact Option.toList_eq_nil_iff.symm
  · obtain ⟨hone, hactive⟩ := openShifts_of_oneOpen hopen ht hs
    exact ⟨hone, hactive, summarizes_iff hone⟩

end Runs

/-! ## Transfers that do not fit -/

/-- Carla runs up the highest debt twice and pays it by transfer while a shift is open. -/
def transferring : Fin 6 → Request
  | 0 => .createCustomer 1 carla
  | 1 => .openTurn 1 2 openingTurn
  | 2 => .registerDebt 1 2 (largestDebt 100 7)
  | 3 => .registerPayment 1 2 (largestTransfer 100 8)
  | 4 => .registerDebt 1 2 (largestDebt 100 9)
  | 5 => .registerPayment 1 2 (largestTransfer 100 10)

def transferringOrder : List (Event (Fin 6)) :=
  inTurn [(0, 10), (1, 10), (2, 12), (3, 12), (4, 12), (5, 12)]

def transferred : Db :=
  (postgres.run (serve transferring (fun i ↦ sampleEnv i) (Db.opened sampleTenants))
    transferringOrder).db

/-- The summary of the open shift is refused, and closing it succeeds with nothing expected. -/
theorem summary_refused :
    ∃ s ∈ openShiftsOf transferred 1, ¬Summarizes 1 transferred s ∧
      getActiveSummary (sampleEnv 0) 1 transferred =
        .error (.queryFailed .numericValueOutOfRange) ∧
      (postgres.alone ((Request.closeTurn 1 closingEmpty).script (sampleEnv 6)) []
        transferred).1.isOk = true ∧
      ∃ closed ∈ (postgres.alone ((Request.closeTurn 1 closingEmpty).script (sampleEnv 6)) []
        transferred).2.shifts.rows, closed.id = s.id ∧ closed.expected_cash_cents = some 0 := by
  have hrefused : getActiveSummary (sampleEnv 0) 1 transferred =
      .error (.queryFailed .numericValueOutOfRange) := by
    decide +kernel
  refine ⟨shiftRow (sampleEnv 1) 1 2 openingTurn, by decide +kernel, fun h ↦ ?_, hrefused,
    by decide +kernel, by decide +kernel⟩
  obtain ⟨summary, hsummary, -⟩ := h (sampleEnv 0)
  rw [hrefused] at hsummary
  cases hsummary

theorem freshIds_transferring : FreshIds transferring fun i ↦ sampleEnv i :=
  freshIds_sample Fin.val_injective (by decide) (by decide)

theorem transferring_ne (i : Fin 6) : transferring i ≠ .processSaaSExpirations := by
  fin_cases i <;> exact Request.noConfusion

/-- After the first transfer. -/
def transferredOnce : List (Event (Fin 6)) := inTurn [(0, 10), (1, 10), (2, 12), (3, 12)]

/-- One transfer alone fits. -/
theorem one_open_shift_summarized_transferring :
    ∃ t ∈ (postgres.run (serve transferring (fun i ↦ sampleEnv i) (Db.opened sampleTenants))
        transferredOnce).db.tenants.rows,
      ∃ s, openShiftsOf (postgres.run (serve transferring (fun i ↦ sampleEnv i)
          (Db.opened sampleTenants)) transferredOnce).db t.id = [s] ∧
        t.active_cash_shift_id = some s.id ∧
        Summarizes t.id (postgres.run (serve transferring (fun i ↦ sampleEnv i)
          (Db.opened sampleTenants)) transferredOnce).db s := by
  have hfits : ∃ t ∈ (postgres.run (serve transferring (fun i ↦ sampleEnv i)
      (Db.opened sampleTenants)) transferredOnce).db.tenants.rows,
      ∃ s ∈ openShiftsOf (postgres.run (serve transferring (fun i ↦ sampleEnv i)
          (Db.opened sampleTenants)) transferredOnce).db t.id,
        TotalsFit t.id (postgres.run (serve transferring (fun i ↦ sampleEnv i)
          (Db.opened sampleTenants)) transferredOnce).db s := by
    unfold TotalsFit
    decide +kernel
  obtain ⟨t, ht, s, hs, hfit⟩ := hfits
  obtain ⟨-, hopen⟩ := one_open_shift_summarized freshIds_transferring transferring_ne (by decide)
    transferredOnce t ht
  obtain ⟨hone, hactive, hsummary⟩ := hopen s hs
  exact ⟨t, ht, s, hone, hactive, hsummary.2 hfit⟩

end MicroErp.Guarantees
