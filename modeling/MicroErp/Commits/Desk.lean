import MicroErp.Commits.Compatible
import MicroErp.Commits.Statements
import MicroErp.Concurrency.Outline

/-!
# What the commits change at the cash desk

The rows of tenants and shifts have a contract of their own.  Whoever writes the row of a tenant
has locked it, and the shifts of a tenant are opened and closed under the lock on its row.
-/

namespace MicroErp.Database

open MicroErp.Storage

/-- The write changes a tenant or a shift, freezes a payment, or records one of a subscription. -/
def Write.AtDesk : Write → Prop
  | insertShift _ => True
  | insertBillingEvent _ => True
  | updateShift _ _ => True
  | updateTenant _ _ => True
  | freezeTransaction _ _ => True
  | _ => False

def Write.OnShift : Write → Prop
  | insertShift _ => True
  | updateShift _ _ => True
  | _ => False

def Db.shiftsOf (d : Db) (tenantId : Uuid) : List CashRegisterLog :=
  d.shifts.rows.filter fun s ↦ s.tenant_id = tenantId

end MicroErp.Database

namespace MicroErp.Commits

open MicroErp.Concurrency MicroErp.Database MicroErp.Services MicroErp.Storage

/-! ## Assumptions -/

/-- What is assumed of the sessions at the desk, beyond the isolation level. -/
structure Desk where
  /-- Nobody else commits. -/
  exclusive : Prop
  /-- What is known of the database in which the cash of a shift is summed. -/
  sums : Uuid → Timestamp → Db → Prop
  /-- The nightly job saves each tenant as it loaded it, and only one that is not active. -/
  savesFresh : Prop

def Desk.allow (K : Desk) (req : Request) : Sql → Db → Prop
  | .sumCash tenantId openedAt, v => K.sums tenantId openedAt v
  | .rereadTenant mem, v => K.savesFresh → req = .processSaaSExpirations →
      ∀ t ∈ v.tenants.find mem.id, { mem with status := t.status } = t
  | .updateTenant mem _, v => K.savesFresh → req = .processSaaSExpirations →
      ∀ t ∈ v.tenants.find mem.id, t.status ≠ .ACTIVE
  | _, _ => True

/-! ## Effects -/

/-- The shift as `closeTurn` saves it when it has counted `cashCollected`. -/
def closedShift (env : Env) (dto : CloseTurnDto) (shift : CashRegisterLog) (cashCollected : ℤ) :
    CashRegisterLog :=
  let totalExpected := shift.opening_cash_cents + cashCollected
  let discrepancy := dto.actual_cash_cents - totalExpected
  { shift with
    closed_at := some env.clock
    expected_cash_cents := some totalExpected
    actual_cash_cents := some dto.actual_cash_cents
    discrepancy_cents := some discrepancy
    note := dto.note
    status := if discrepancy = 0 then .CLOSED_OK else .CLOSED_WITH_DISCREPANCY }

/-- The session holds the row of the tenant as it is committed. -/
def HoldsTenant (d : Db) (lk : List (LockName × LockMode)) (tenantId : Uuid) (t : Tenant) : Prop :=
  d.tenants.find tenantId = some t ∧ (.tenant tenantId, .update) ∈ lk

/-- The nightly job suspends a tenant that it loaded before. -/
def Suspends (K : Desk) (d : Db) (w : Write) : Prop :=
  ∃ loaded reread : Tenant, w = .updateTenant { loaded with status := .SUSPENDED } reread ∧
    (K.savesFresh → { loaded with status := reread.status } = reread ∧
      ∀ t ∈ d.tenants.find loaded.id, t.status ≠ .ACTIVE)

/-- The save of a tenant whose row is as it was read. -/
def savedTenant (mem tenant : Tenant) : List Write :=
  if mem = tenant then [] else [.updateTenant mem tenant]

/-- The requests that need not write at the desk; a payment may have been processed before. -/
def MayKeepOff : Request → Prop
  | .processPayment _ _ _ => True
  | req => ¬AtDesk req

theorem MayKeepOff.ne_closeTurn {req : Request} (h : MayKeepOff req) (tenantId : Uuid)
    (dto : CloseTurnDto) : req ≠ .closeTurn tenantId dto := by
  rintro rfl
  exact h trivial

/-- What the requests write at the desk when they commit in `d` under the locks `lk`. -/
inductive DeskChanges (K : Desk) (env : Env) (lk : List (LockName × LockMode)) (d : Db) :
    Request → List Write → Prop
  | other {req : Request} {ws : List Write} (hreq : MayKeepOff req) (h : ∀ w ∈ ws, ¬w.AtDesk) :
      DeskChanges K env lk d req ws
  | open {tenantId userId : Uuid} {dto : OpenTurnDto} {tenant : Tenant}
      (htenant : HoldsTenant d lk tenantId tenant) (hidle : tenant.active_cash_shift_id = none)
      (hnew : d.shifts.find (env.fresh 0) = none) :
      DeskChanges K env lk d (.openTurn tenantId userId dto)
        [.insertShift (shiftRow env tenantId userId dto),
          .updateTenant { tenant with active_cash_shift_id := some (env.fresh 0) } tenant]
  | close {tenantId : Uuid} {dto : CloseTurnDto} {tenant : Tenant} {shift : CashRegisterLog}
      {frozen : List Uuid} {counted : Db} (htenant : HoldsTenant d lk tenantId tenant)
      (hactive : tenant.active_cash_shift_id = some shift.id)
      (hshift : d.openShift tenantId shift.id = some shift)
      (hsum : K.sums tenantId shift.opened_at counted)
      (hnote : dto.actual_cash_cents ≠
        shift.opening_cash_cents + counted.cashSince tenantId shift.opened_at →
          ∃ text, dto.note = some text ∧ text ≠ "")
      (hexact : K.exclusive → counted = d ∧ ∀ t ∈ d.transactions.rows,
        t.id ∈ frozen ↔ t.unfrozenSince tenantId shift.opened_at) :
      DeskChanges K env lk d (.closeTurn tenantId dto)
        (.updateShift (closedShift env dto shift (counted.cashSince tenantId shift.opened_at)) shift
          :: frozen.map (.freezeTransaction · shift.id) ++
            [.updateTenant { tenant with active_cash_shift_id := none } tenant])
  | settings {tenantId : Uuid} {dto : UpdateSettingsDto} {tenant : Tenant}
      (htenant : HoldsTenant d lk tenantId tenant) :
      DeskChanges K env lk d (.updateSettings tenantId dto)
        (savedTenant { tenant with settings := updatedSettings tenant.settings dto } tenant)
  | paid {externalPaymentId : String} {subscriptionId : Option String} {rawPayload : JsonValue}
      {tenant : Tenant} (htenant : HoldsTenant d lk tenant.id tenant) :
      DeskChanges K env lk d (.processPayment externalPaymentId subscriptionId rawPayload)
        (.insertBillingEvent (billingEventRow env tenant.id externalPaymentId rawPayload)
          :: savedTenant (creditMonth env tenant) tenant)
  | suspend {ws : List Write} (h : ∀ w ∈ ws, Suspends K d w) :
      DeskChanges K env lk d .processSaaSExpirations ws

/-! ## The contract -/

structure DeskRely (K : Desk) (lk : List (LockName × LockMode)) (d d' : Db) : Prop where
  exclusive : K.exclusive → d' = d
  tenant : ∀ tenantId m, (.tenant tenantId, m) ∈ lk → m ≠ .keyShare →
    d'.tenants.find tenantId = d.tenants.find tenantId
  shift : ∀ id m, (.shift id, m) ∈ lk → m ≠ .keyShare → d'.shifts.find id = d.shifts.find id
  shifts : ∀ tenantId, (.tenant tenantId, .update) ∈ lk → d'.shiftsOf tenantId = d.shiftsOf tenantId

def deskContract (K : Desk) (req : Request) (env : Env) :
    Contract Sql Db Write LockName Answer where
  rely := DeskRely K
  allow := K.allow req
  guar lk ws d := DeskChanges K env lk d req ws
  post _ _ := True
  tracked := False

variable {K : Desk} {req : Request} {env : Env} {lk lk' : List (LockName × LockMode)}
  {ws ws' : List Write} {d d' d'' : Db} {tenantId : Uuid}

theorem DeskRely.refl : DeskRely K lk d d :=
  ⟨fun _ ↦ rfl, fun _ _ _ _ ↦ rfl, fun _ _ _ _ ↦ rfl, fun _ _ ↦ rfl⟩

theorem DeskRely.trans (h : DeskRely K lk d d') (h' : DeskRely K lk d' d'') :
    DeskRely K lk d d'' where
  exclusive hK := (h'.exclusive hK).trans (h.exclusive hK)
  tenant id m hl hm := (h'.tenant id m hl hm).trans (h.tenant id m hl hm)
  shift id m hl hm := (h'.shift id m hl hm).trans (h.shift id m hl hm)
  shifts id hl := (h'.shifts id hl).trans (h.shifts id hl)

theorem DeskRely.mono (hlk : lk ⊆ lk') (h : DeskRely K lk' d d') : DeskRely K lk d d' where
  exclusive := h.exclusive
  tenant id m hl := h.tenant id m (hlk hl)
  shift id m hl := h.shift id m (hlk hl)
  shifts id hl := h.shifts id (hlk hl)

theorem HoldsTenant.stable {t : Tenant} (h : HoldsTenant d lk tenantId t) (hlk : lk ⊆ lk')
    (hrely : DeskRely K lk d d') : HoldsTenant d' lk' tenantId t :=
  ⟨(hrely.tenant tenantId .update h.2 (by decide)).trans h.1, hlk h.2⟩

theorem Db.openShift_eq_some {id : Uuid} {s : CashRegisterLog} :
    d.openShift tenantId id = some s ↔
      s ∈ d.shiftsOf tenantId ∧ s.id = id ∧ s.status = .OPEN := by
  unfold Db.openShift Db.shiftsOf
  rw [Option.filter_eq_some_iff, Table.find_eq_some, List.mem_filter]
  simp only [CashRegisterLog.key_eq, decide_eq_true_eq]
  tauto

theorem openShift_stable {id : Uuid} {t : Tenant} (h : HoldsTenant d lk tenantId t)
    (hrely : DeskRely K lk d d') : d'.openShift tenantId id = d.openShift tenantId id := by
  ext s
  rw [Db.openShift_eq_some, Db.openShift_eq_some, hrely.shifts tenantId h.2]

/-! ## Tenants and shifts in the view -/

/-- What a write makes of a tenant. -/
def onTenant (t : Tenant) : Write → Tenant
  | .updateTenant mem reread => if t.id = mem.id then Tenant.saved mem reread t else t
  | _ => t

theorem onTenant_id (t : Tenant) (w : Write) : (onTenant t w).id = t.id := by
  cases w with
  | updateTenant mem reread =>
    simp only [onTenant]
    split <;> rfl
  | _ => rfl

theorem foldl_onTenant_id (t : Tenant) (ws : List Write) : (ws.foldl onTenant t).id = t.id := by
  induction ws generalizing t with
  | nil => rfl
  | cons w ws ih => exact (ih _).trans (onTenant_id t w)

theorem tenants_apply (w : Write) (d : Db) :
    (w.apply d).tenants.rows = d.tenants.rows.map fun t ↦ onTenant t w := by
  cases w with
  | updateTenant mem reread =>
    rw [Write.apply, Table.rows_modify]
    refine List.map_congr_left fun t _ ↦ ?_
    simp only [Tenant.key_eq, onTenant]
    split
    · simp [Table.amend, Tenant.saved]
    · rfl
  | _ => simp [Write.apply, onTenant]

theorem tenants_view (ws : List Write) (d : Db) :
    (postgres.view ws d).tenants.rows = d.tenants.rows.map fun t ↦ ws.foldl onTenant t := by
  induction ws generalizing d with
  | nil => simp
  | cons w ws ih =>
    rw [Engine.view_cons, ih, postgres_write, tenants_apply, List.map_map]
    rfl

theorem shifts_view (h : ∀ w ∈ ws, ¬w.OnShift) (d : Db) :
    (postgres.view ws d).shifts = d.shifts := by
  refine postgres.view_unchanged (·.shifts) fun w hw d ↦ ?_
  cases w with
  | insertShift row => exact (h _ hw trivial).elim
  | updateShift mem reread => exact (h _ hw trivial).elim
  | _ => rfl

theorem shifts_frozen (d : Db) (frozen : List Uuid) (shiftId : Uuid) (mem reread : Tenant) :
    (postgres.view (frozen.map (.freezeTransaction · shiftId) ++ [.updateTenant mem reread])
      d).shifts = d.shifts := by
  refine shifts_view (fun w hw ↦ ?_) d
  rcases List.mem_append.1 hw with hw | hw
  · obtain ⟨id, -, rfl⟩ := List.mem_map.1 hw
    exact False.elim
  · obtain rfl := List.mem_singleton.1 hw
    exact False.elim

theorem savedColumn_latest {α : Type} [DecidableEq α] (mem latest : α) :
    savedColumn mem latest latest = mem := by
  unfold savedColumn
  split
  · rename_i h
    exact h.symm
  · rfl

theorem Tenant.saved_latest {mem t : Tenant} (h : mem.id = t.id) : Tenant.saved mem t t = mem := by
  unfold Tenant.saved
  simp only [savedColumn_latest, ← h]

theorem CashRegisterLog.saved_latest {mem s : CashRegisterLog} (h : mem.id = s.id) :
    CashRegisterLog.saved mem s s = mem := by
  unfold CashRegisterLog.saved
  simp only [savedColumn_latest, ← h]

/-- The save of a tenant that is held sets the columns that it changes. -/
theorem foldl_savedTenant {mem held t : Tenant} (hmem : mem.id = held.id)
    (hheld : d.tenants.find held.id = some held) (ht : t ∈ d.tenants.rows) :
    (savedTenant mem held).foldl onTenant t = if t.id = held.id then mem else t := by
  have heq : t.id = held.id → t = held := fun hid ↦
    Option.some.inj ((Table.find_eq_some.2 ⟨ht, hid⟩).symm.trans hheld)
  unfold savedTenant
  by_cases hid : t.id = held.id
  · obtain rfl := heq hid
    rw [if_pos rfl]
    split
    · rename_i hsame
      exact hsame.symm
    · simp only [List.foldl_cons, List.foldl_nil, onTenant]
      rw [if_pos hmem.symm, Tenant.saved_latest hmem]
  · rw [if_neg hid]
    split
    · rfl
    · simp only [List.foldl_cons, List.foldl_nil, onTenant]
      rw [if_neg (hmem ▸ hid)]

/-! ## What a commit leaves to the others -/

theorem not_onShift_of_not_atDesk {w : Write} (h : ¬w.AtDesk) : ¬w.OnShift := by
  cases w with
  | insertShift row => exact h
  | updateShift mem reread => exact h
  | _ => exact id

theorem not_onShift_savedTenant (mem tenant : Tenant) :
    ∀ w ∈ savedTenant mem tenant, ¬w.OnShift := by
  intro w hw
  unfold savedTenant at hw
  split at hw
  · cases hw
  · obtain rfl := List.mem_singleton.1 hw
    exact id

theorem shiftsOf_insert {row : CashRegisterLog} (h : row.tenant_id ≠ tenantId) :
    ((d.shifts.insert row).rows.filter fun s ↦ s.tenant_id = tenantId) = d.shiftsOf tenantId := by
  unfold Table.insert
  split
  · rfl
  · simp only [List.filter_append, List.filter_cons, h, decide_false, List.filter_nil]
    exact List.append_nil _

/-- The table with the shift closed. -/
theorem shifts_close {closed shift : CashRegisterLog} (hid : closed.id = shift.id)
    (hshift : d.shifts.find shift.id = some shift) :
    (d.shifts.modify closed.id (CashRegisterLog.saved closed shift)).rows =
      d.shifts.rows.map fun s ↦ if s.id = shift.id then closed else s := by
  rw [Table.rows_modify]
  refine List.map_congr_left fun s hs ↦ ?_
  simp only [CashRegisterLog.key_eq, hid]
  split
  · rename_i heq
    obtain rfl := Option.some.inj ((Table.find_eq_some.2 ⟨hs, heq⟩).symm.trans hshift)
    exact (if_pos rfl).trans (CashRegisterLog.saved_latest hid)
  · rfl

theorem shiftsOf_close {closed shift : CashRegisterLog} (hid : closed.id = shift.id)
    (htenant : closed.tenant_id = shift.tenant_id) (hshift : d.shifts.find shift.id = some shift)
    (hne : shift.tenant_id ≠ tenantId) :
    ((d.shifts.modify closed.id (CashRegisterLog.saved closed shift)).rows.filter
      fun s ↦ s.tenant_id = tenantId) = d.shiftsOf tenantId := by
  have hkept : ∀ s ∈ d.shifts.rows, s.tenant_id = tenantId → s.id ≠ shift.id := by
    rintro s hs htenant' heq
    obtain rfl := Option.some.inj ((Table.find_eq_some.2 ⟨hs, heq⟩).symm.trans hshift)
    exact hne htenant'
  rw [shifts_close hid hshift, List.filter_map, Db.shiftsOf]
  have hfilter : d.shifts.rows.filter ((fun s ↦ decide (s.tenant_id = tenantId)) ∘
      fun s ↦ if s.id = shift.id then closed else s) =
        d.shifts.rows.filter fun s ↦ s.tenant_id = tenantId := by
    refine List.filter_congr fun s hs ↦ ?_
    simp only [Function.comp_apply]
    split
    · rename_i heq
      obtain rfl := Option.some.inj ((Table.find_eq_some.2 ⟨hs, heq⟩).symm.trans hshift)
      rw [htenant]
    · rfl
  rw [hfilter]
  refine (List.map_congr_left fun s hs ↦ ?_).trans (List.map_id _)
  obtain ⟨hs, htenant'⟩ := List.mem_filter.1 hs
  exact if_neg (hkept s hs (of_decide_eq_true htenant'))

theorem DeskChanges.rely_other {K' : Desk} (h : DeskChanges K' env lk' d req ws)
    (hK : ¬K.exclusive) (hws : ∀ w ∈ ws, w.locks ⊆ lk') (hsep : Separate lk lk') :
    DeskRely K lk d (postgres.view ws d) where
  exclusive hexclusive := (hK hexclusive).elim
  tenant id m hl hm := find_tenant_view (not_mem_locks_of_separate hl hm hsep hws)
  shift id m hl hm := find_shift_view (not_mem_locks_of_separate hl hm hsep hws)
  shifts tenantId hl := by
    cases h with
    | other _ h =>
      rw [Db.shiftsOf, shifts_view fun w hw ↦ not_onShift_of_not_atDesk (h w hw)]
      rfl
    | «open» htenant =>
      exact shiftsOf_insert fun heq ↦ Separate.not_both_update hsep hl (heq ▸ htenant.2)
    | close htenant hactive hshift =>
      obtain ⟨hmem, -, -⟩ := Db.openShift_eq_some.1 hshift
      obtain ⟨hmem, htenant'⟩ := List.mem_filter.1 hmem
      rw [Db.shiftsOf, List.cons_append, Engine.view_cons, shifts_frozen]
      refine shiftsOf_close rfl rfl (Table.find_eq_some.2 ⟨hmem, rfl⟩) fun heq ↦ ?_
      have htenant' := of_decide_eq_true htenant'
      exact Separate.not_both_update hsep hl (heq ▸ htenant' ▸ htenant.2)
    | settings =>
      rw [Db.shiftsOf, shifts_view (not_onShift_savedTenant _ _)]
      rfl
    | paid =>
      rw [Db.shiftsOf, Engine.view_cons, shifts_view (not_onShift_savedTenant _ _)]
      rfl
    | suspend h =>
      rw [Db.shiftsOf, shifts_view fun w hw ↦ ?_]
      · rfl
      · obtain ⟨loaded, reread, rfl, -⟩ := h w hw
        exact id

theorem compatible_desk {ι : Type} {K : ι → Desk} (hK : ∀ i, ¬(K i).exclusive)
    (req : ι → Request) (env : ι → Env) :
    Compatible postgres (fun i ↦ deskContract (K i) (req i) (env i)) Write.locks where
  footprint h := Sql.locks_of_exec h
  refl _ _ _ := DeskRely.refl
  trans h h' := DeskRely.trans h h'
  mono hlk h := DeskRely.mono hlk h
  others := by
    intro i j lk lk' ws d _ hguar hws hsep
    exact DeskChanges.rely_other hguar (hK i) hws hsep

end MicroErp.Commits
