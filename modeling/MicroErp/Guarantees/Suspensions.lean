import MicroErp.Commits.Semaphore

/-!
# The nightly job and the other writers of a tenant

The job saves the tenants as it loaded them, without a lock.  As long as each save reads again what
was loaded, and meets no tenant that has become active, the job changes nothing but the status of
tenants that have not paid.
-/

namespace MicroErp.Guarantees

open MicroErp.Commits MicroErp.Concurrency MicroErp.Database MicroErp.Services MicroErp.Storage

/-- The columns of a tenant but for its status. -/
def apartFromStatus (t : Tenant) : Tenant := { t with status := .ACTIVE }

/-- The write records a payment of this tenant. -/
def Bills (tenantId : Uuid) : Write → Bool
  | .insertBillingEvent b => b.tenant_id = tenantId
  | _ => false

/-- What a request that commits `ws` sets in a tenant, the nightly job excepted. -/
def setBy (req : Request) (env : Env) (ws : List Write) (t : Tenant) : Tenant :=
  match req with
  | .openTurn tenantId _ _ => setActive tenantId (some (env.fresh 0)) t
  | .closeTurn tenantId _ => setActive tenantId none t
  | .updateSettings tenantId dto =>
      if t.id = tenantId then { t with settings := updatedSettings t.settings dto } else t
  | .processPayment _ _ _ => if ws.any (Bills t.id) then creditMonth env t else t
  | _ => t

/-- The nightly job saves a tenant as it loaded it, but for the status, and only one that is not
active. -/
def SavesLatest : Request → Sql → Db → Bool
  | .processSaaSExpirations, .rereadTenant mem, v =>
      ∀ t ∈ v.tenants.find mem.id, { mem with status := t.status } = t
  | .processSaaSExpirations, .updateTenant mem _, v =>
      ∀ t ∈ v.tenants.find mem.id, t.status ≠ .ACTIVE
  | _, _, _ => true

/-- The save of the nightly job is as it should be. -/
def Desk.fresh : Desk := { Desk.plain with savesFresh := True }

theorem allow_desk_fresh {req : Request} {o : Sql} {v : Db} (h : SavesLatest req o v) :
    Desk.fresh.allow req o v := by
  cases o with
  | sumCash => trivial
  | rereadTenant mem =>
    rintro - rfl
    exact of_decide_eq_true h
  | updateTenant mem reread =>
    rintro - rfl
    exact of_decide_eq_true h
  | _ => trivial

section Steps

variable {req : Request} {env : Env} {lk : List (LockName × LockMode)} {ws : List Write} {d : Db}
  {t : Tenant}

@[simp] theorem setBy_id (req : Request) (env : Env) (ws : List Write) (t : Tenant) :
    (setBy req env ws t).id = t.id := by
  unfold setBy setActive creditMonth
  split <;> first | rfl | (split <;> rfl)

/-- What is set does not depend on the status. -/
theorem apart_setBy (req : Request) (env : Env) (ws : List Write) (t : Tenant) :
    apartFromStatus (setBy req env ws (apartFromStatus t)) = apartFromStatus (setBy req env ws t) := by
  cases req with
  | openTurn | closeTurn =>
    simp only [setBy, setActive, apply_ite apartFromStatus]
    rfl
  | updateSettings | processPayment =>
    simp only [setBy, apply_ite apartFromStatus]
    rfl
  | _ => rfl

/-- The job changes only the status. -/
theorem apart_suspends {w : Write} (h : Suspends Desk.fresh d w) (t : Tenant) :
    apartFromStatus (onTenant t w) = apartFromStatus t := by
  obtain ⟨loaded, reread, rfl, hfresh⟩ := h
  obtain ⟨hsame, -⟩ := hfresh trivial
  simp only [onTenant]
  split
  · rw [← hsame]
    simp only [Tenant.saved, savedColumn_self, apartFromStatus]
  · rfl

/-- The job leaves active tenants alone. -/
theorem active_suspends {w : Write} (h : Suspends Desk.fresh d w) (ht : t ∈ d.tenants.rows)
    (hactive : t.status = .ACTIVE) : onTenant t w = t := by
  obtain ⟨loaded, reread, rfl, hfresh⟩ := h
  refine if_neg fun hid ↦ ?_
  exact (hfresh trivial).2 t (Table.find_eq_some.2 ⟨ht, hid⟩) hactive

theorem setBy_active (req : Request) (env : Env) (ws : List Write) (h : t.status = .ACTIVE) :
    (setBy req env ws t).status = .ACTIVE := by
  unfold setBy setActive creditMonth
  split <;> first | exact h | (split <;> first | rfl | exact h)

/-- The save of a tenant that is held sets its semaphore. -/
theorem onTenant_setActive {held : Tenant} (active : Option Uuid)
    (hheld : d.tenants.find held.id = some held) (ht : t ∈ d.tenants.rows) :
    onTenant t (.updateTenant { held with active_cash_shift_id := active } held) =
      setActive held.id active t := by
  unfold setActive
  simp only [onTenant]
  split
  · rename_i hid
    obtain rfl := Option.some.inj ((Table.find_eq_some.2 ⟨ht, hid⟩).symm.trans hheld)
    exact Tenant.saved_latest rfl
  · rfl

theorem not_bills_off_desk (h : ∀ w ∈ ws, ¬w.AtDesk) (tenantId : Uuid) :
    ws.any (Bills tenantId) = false := by
  rw [List.any_eq_false]
  intro w hw hbills
  cases w with
  | insertBillingEvent b => exact h _ hw trivial
  | _ => cases hbills

theorem not_bills_savedTenant (mem held : Tenant) (tenantId : Uuid) :
    (savedTenant mem held).any (Bills tenantId) = false := by
  unfold savedTenant
  split <;> rfl

/-- The commit of any other request sets what the request sets. -/
theorem foldl_setBy {K : Desk} (h : DeskChanges K env lk d req ws)
    (hreq : req ≠ .processSaaSExpirations) (ht : t ∈ d.tenants.rows) :
    ws.foldl onTenant t = setBy req env ws t := by
  cases h with
  | other hkeep h =>
    have hsame : ws.foldl onTenant t = t := foldl_onTenant_off_desk (fun w hw mem reread ↦ by
      rintro rfl
      exact h _ hw trivial) t
    rw [hsame]
    cases req with
    | processPayment => simp only [setBy, not_bills_off_desk h, if_false, Bool.false_eq_true]
    | openTurn | closeTurn | updateSettings => exact (hkeep trivial).elim
    | _ => rfl
  | @«open» _ userId dto tenant htenant hidle hnew =>
    obtain rfl : tenant.id = _ := (Table.find_eq_some.1 htenant.1).2
    exact onTenant_setActive (some (env.fresh 0)) htenant.1 ht
  | @close _ dto tenant shift frozen counted htenant =>
    obtain rfl : tenant.id = _ := (Table.find_eq_some.1 htenant.1).2
    have hfrozen : (Write.updateShift (closedShift env dto shift (counted.cashSince tenant.id
        shift.opened_at)) shift :: frozen.map (.freezeTransaction · shift.id)).foldl onTenant t = t := by
      refine foldl_onTenant_off_desk (fun w hw mem reread ↦ ?_) t
      rcases List.mem_cons.1 hw with rfl | hw
      · exact Write.noConfusion
      · obtain ⟨id, -, rfl⟩ := List.mem_map.1 hw
        exact Write.noConfusion
    rw [List.foldl_append, hfrozen]
    exact onTenant_setActive none htenant.1 ht
  | @settings _ dto tenant htenant =>
    obtain rfl : tenant.id = _ := (Table.find_eq_some.1 htenant.1).2
    refine (foldl_savedTenant (by rfl) htenant.1 ht).trans ?_
    simp only [setBy]
    split
    · rename_i hid
      obtain rfl := Option.some.inj ((Table.find_eq_some.2 ⟨ht, hid⟩).symm.trans htenant.1)
      rfl
    · rfl
  | @paid externalPaymentId subscriptionId rawPayload tenant htenant =>
    refine (foldl_savedTenant (by rfl) htenant.1 ht).trans ?_
    simp only [setBy, List.any_cons, not_bills_savedTenant, Bool.or_false, Bills, billingEventRow,
      decide_eq_true_eq, @eq_comm _ tenant.id]
    split
    · rename_i hid
      obtain rfl := Option.some.inj ((Table.find_eq_some.2 ⟨ht, hid⟩).symm.trans htenant.1)
      rfl
    · rfl
  | suspend => exact (hreq rfl).elim

theorem suspends_of_job (h : DeskChanges Desk.fresh env lk d .processSaaSExpirations ws) :
    ∀ w ∈ ws, Suspends Desk.fresh d w := by
  cases h with
  | other hkeep => exact (hkeep trivial).elim
  | suspend h => exact h

/-- A commit sets what its request sets, up to the status. -/
theorem apart_commit (h : DeskChanges Desk.fresh env lk d req ws) (ht : t ∈ d.tenants.rows) :
    apartFromStatus (ws.foldl onTenant t) = apartFromStatus (setBy req env ws t) := by
  by_cases hreq : req = .processSaaSExpirations
  · subst hreq
    have hsuspends : ∀ w ∈ ws, Suspends Desk.fresh d w := suspends_of_job h
    clear h ht
    induction ws generalizing t with
    | nil => rfl
    | cons w ws ih =>
      rw [List.foldl_cons, ih fun w' hw' ↦ hsuspends w' (List.mem_cons_of_mem _ hw')]
      exact apart_suspends (hsuspends w List.mem_cons_self) t
  · rw [foldl_setBy h hreq ht]

/-- An active tenant stays active. -/
theorem active_commit (h : DeskChanges Desk.fresh env lk d req ws) (ht : t ∈ d.tenants.rows)
    (hactive : t.status = .ACTIVE) : (ws.foldl onTenant t).status = .ACTIVE := by
  by_cases hreq : req = .processSaaSExpirations
  · subst hreq
    have hsuspends : ∀ w ∈ ws, Suspends Desk.fresh d w := suspends_of_job h
    clear h
    induction ws with
    | nil => exact hactive
    | cons w ws ih =>
      rw [List.foldl_cons, active_suspends (hsuspends w List.mem_cons_self) ht hactive]
      exact ih fun w' hw' ↦ hsuspends w' (List.mem_cons_of_mem _ hw')
  · rw [foldl_setBy h hreq ht]
    exact setBy_active req env ws hactive

/-- A tenant whose payment is recorded is active. -/
theorem active_paid (h : DeskChanges Desk.fresh env lk d req ws) {b : BillingEvent}
    (hb : .insertBillingEvent b ∈ ws) :
    ∃ t ∈ d.tenants.rows, t.id = b.tenant_id ∧ (ws.foldl onTenant t).status = .ACTIVE := by
  have hsaved : ∀ mem held, .insertBillingEvent b ∉ savedTenant mem held := fun mem held hmem ↦ by
    unfold savedTenant at hmem
    split at hmem
    · cases hmem
    · cases List.mem_singleton.1 hmem
  cases h with
  | other _ h => exact (h _ hb trivial).elim
  | «open» => simp at hb
  | close => simp at hb
  | settings => exact (hsaved _ _ hb).elim
  | suspend h =>
    obtain ⟨loaded, reread, heq, -⟩ := h _ hb
    cases heq
  | @paid externalPaymentId subscriptionId rawPayload tenant htenant =>
    obtain ⟨hmem, -⟩ := Table.find_eq_some.1 htenant.1
    rcases List.mem_cons.1 hb with heq | hb
    · obtain rfl := Write.insertBillingEvent.inj heq
      refine ⟨tenant, hmem, rfl, ?_⟩
      refine congrArg Tenant.status ((foldl_savedTenant (by rfl) htenant.1 hmem).trans (if_pos rfl))
    · exact (hsaved _ _ hb).elim

end Steps

/-! ## Runs -/

section Runs

variable {ι : Type} [DecidableEq ι] {req : ι → Request} {env : ι → Env} {d : Db}

/-- The tenants as the commits of the history, the nightly job's excepted, have set them. -/
def setByAll (req : ι → Request) (env : ι → Env) (log : List (ι × List Write)) (t : Tenant) : Tenant :=
  log.foldl (fun t x ↦ setBy (req x.1) (env x.1) x.2 t) t

omit [DecidableEq ι] in
theorem setByAll_append (log : List (ι × List Write)) (i : ι) (ws : List Write) (t : Tenant) :
    setByAll req env (log ++ [(i, ws)]) t = setBy (req i) (env i) ws (setByAll req env log t) :=
  List.foldl_append

/-- The tenants are as the others have set them, and those that have paid are active. -/
structure OthersKept (req : ι → Request) (env : ι → Env) (d d' : Db) (log : List (ι × List Write)) :
    Prop where
  columns : d'.tenants.rows.map apartFromStatus =
    d.tenants.rows.map fun t ↦ apartFromStatus (setByAll req env log t)
  paid : ∀ x ∈ log, ∀ b, .insertBillingEvent b ∈ x.2 →
    ∃ t ∈ d'.tenants.rows, t.id = b.tenant_id ∧ t.status = .ACTIVE

omit [DecidableEq ι] in
theorem OthersKept.commit {d' : Db} {log : List (ι × List Write)} {i : ι}
    {lk : List (LockName × LockMode)} {ws : List Write} (h : OthersKept req env d d' log)
    (hcommit : DeskChanges Desk.fresh (env i) lk d' (req i) ws) :
    OthersKept req env d (postgres.view ws d') (log ++ [(i, ws)]) where
  columns := by
    rw [tenants_view, List.map_map]
    calc d'.tenants.rows.map (apartFromStatus ∘ fun t ↦ ws.foldl onTenant t)
        = d'.tenants.rows.map fun t ↦ apartFromStatus (setBy (req i) (env i) ws t) :=
          List.map_congr_left fun t ht ↦ apart_commit hcommit ht
      _ = (d'.tenants.rows.map apartFromStatus).map
            fun t ↦ apartFromStatus (setBy (req i) (env i) ws t) := by
          rw [List.map_map]
          exact List.map_congr_left fun t _ ↦ (apart_setBy (req i) (env i) ws t).symm
      _ = d.tenants.rows.map fun t ↦ apartFromStatus (setByAll req env (log ++ [(i, ws)]) t) := by
          rw [h.columns, List.map_map]
          refine List.map_congr_left fun t _ ↦ ?_
          rw [setByAll_append]
          exact apart_setBy (req i) (env i) ws _
  paid x hx b hb := by
    rw [tenants_view]
    rcases List.mem_append.1 hx with hx | hx
    · obtain ⟨t, ht, hid, hactive⟩ := h.paid x hx b hb
      exact ⟨_, List.mem_map_of_mem ht, (foldl_onTenant_id t ws).trans hid,
        active_commit hcommit ht hactive⟩
    · obtain rfl := List.mem_singleton.1 hx
      obtain ⟨t, ht, hid, hactive⟩ := active_paid hcommit hb
      exact ⟨_, List.mem_map_of_mem ht, (foldl_onTenant_id t ws).trans hid, hactive⟩

/-- As long as the nightly job saves tenants as it loaded them, and none that is active, every
column but the status is what the other requests have set, and who has paid is active. -/
theorem job_undoes_nothing (hids : FreshIds req env) (hd : Reachable d)
    (hunused : ∀ i, (env i).Unused d) (es : List (Event ι))
    (hmeets : postgres.Meets (fun i o v ↦ SavesLatest (req i) o v) (serve req env d) es) :
    OthersKept req env d (postgres.run (serve req env d) es).db
      (postgres.run (serve req env d) es).log := by
  obtain ⟨hC, hsound⟩ := sound_both (K := fun _ ↦ Desk.fresh) (fun _ ↦ id) hids hunused
    (wellFormed_of_reachable hd)
  refine hsound.history hC (hmeets.mono fun i o v h ↦
    ⟨allow_plain (req i) (env i) o v, allow_desk_fresh h⟩) (J := OthersKept req env d) ⟨rfl, ?_⟩ ?_
  · exact fun x hx ↦ (List.not_mem_nil hx).elim
  · exact fun i lk ws d' log h hguar _ ↦ h.commit hguar.2

end Runs

/-! ## A stale save -/

/-- A tenant that has not paid for more than three days. -/
def lateTenants : Table Tenant :=
  Table.empty.insert
    { id := 1, tenant_name := "Kiosco", subscription_plan := "PRO",
      subscription_expires_at := some (-400000000), status := .PAST_DUE,
      mp_subscription_id := some "sub", settings := [], active_cash_shift_id := none,
      created_at := -500000000 }

def openingLate : Fin 2 → Request
  | 0 => .processSaaSExpirations
  | 1 => .openTurn 1 2 openingTurn

def payingLate : Fin 2 → Request
  | 0 => .processSaaSExpirations
  | 1 => .processPayment "pago" (some "sub") .null

/-- The job loads the tenant, the other request commits, and then the job saves. -/
def staleOrder : List (Event (Fin 2)) := inTurn [(0, 1), (1, 12), (0, 6)]

theorem freshIds_late {req : Fin 2 → Request} (hreq : ∀ j, (req j).transactionKey = none) :
    FreshIds req fun i ↦ sampleEnv i :=
  freshIds_sample Fin.val_injective (by decide) fun j slot hslot ↦ by
    rw [hreq j] at hslot
    cases hslot

def afterStale (req : Fin 2 → Request) :
    Sys (Fin 2) Sql Sql.Ans Db Write LockName ServiceError Answer :=
  postgres.run (serve req (fun i ↦ sampleEnv i) (Db.opened lateTenants)) staleOrder

/-- The semaphore of an open shift is cleared, and a tenant that has paid is suspended. -/
theorem stale_save_undoes :
    ((∀ i, ((afterStale openingLate).outcome i).isSome) ∧
      (afterStale openingLate).db.shifts.rows.map (·.status) = [.OPEN] ∧
      (afterStale openingLate).db.tenants.rows.map (·.active_cash_shift_id) = [none] ∧
      (afterStale openingLate).db.tenants.rows.map apartFromStatus ≠
        lateTenants.rows.map fun t ↦ apartFromStatus
          (setByAll openingLate (fun i ↦ sampleEnv i) (afterStale openingLate).log t)) ∧
    (∀ i, ((afterStale payingLate).outcome i).isSome) ∧
      (afterStale payingLate).db.billingEvents.rows.map (·.tenant_id) = [1] ∧
      (afterStale payingLate).db.tenants.rows.map (fun t ↦ (t.status, t.subscription_expires_at)) =
        [(.SUSPENDED, some (-400000000))] := by
  decide +kernel

/-- The job starts after the shift has been opened. -/
def openedFirst : List (Event (Fin 2)) := inTurn [(1, 12), (0, 7)]

theorem job_undoes_nothing_opened :
    OthersKept openingLate (fun i ↦ sampleEnv i) (Db.opened lateTenants)
      (postgres.run (serve openingLate (fun i ↦ sampleEnv i) (Db.opened lateTenants)) openedFirst).db
      (postgres.run (serve openingLate (fun i ↦ sampleEnv i) (Db.opened lateTenants)) openedFirst).log :=
  job_undoes_nothing (freshIds_late (by decide))
    ⟨Fin 2, inferInstance, openingLate, fun i ↦ sampleEnv i, lateTenants, [],
      freshIds_late (by decide), rfl⟩
    (fun i ↦ unused_opened (sampleEnv i) lateTenants) openedFirst (by decide +kernel)

end MicroErp.Guarantees
