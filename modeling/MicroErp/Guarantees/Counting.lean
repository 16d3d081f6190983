import MicroErp.Concurrency.Outline
import MicroErp.Guarantees.Balances
import MicroErp.Guarantees.Closings

/-!
# Which payments a closing shift counts

A shift is closed with the cash that the database holds at one moment of its closing, after the
tenant is locked.  A payment that was committed before, while the shift was open, is in that cash if
and only if its transaction started after the shift was opened.
-/

namespace MicroErp.Guarantees

open MicroErp.Commits MicroErp.Concurrency MicroErp.Database MicroErp.Services MicroErp.Storage

/-! ## The cash is summed under the lock on the tenant -/

/-- The cash of a shift is summed before anything is written, under the lock on its tenant. -/
def SumsHolding (lk : List (LockName × LockMode)) (ws : List Write) (o : Sql) (_ : Db) : Prop :=
  ∀ tenantId openedAt, o = .sumCash tenantId openedAt → ws = [] ∧ (.tenant tenantId, .update) ∈ lk

section Scripts

variable {req : Request} {env : Env} {lk : List (LockName × LockMode)} {ws : List Write} {d : Db}
  {tenantId : Uuid}

theorem sumsHolding_of_proper {o : Sql} (h : Proper False True False o)
    (lk : List (LockName × LockMode)) (ws : List Write) (v : Db) : SumsHolding lk ws o v := by
  rintro tenantId openedAt rfl
  exact h.elim

theorem along_of_asks {α : Type} {p : Script α} {Q : α → Prop} (h : Asks False True False p Q)
    (ws : List Write) (lk : List (LockName × LockMode)) :
    p.Along postgres (fun _ ↦ True) SumsHolding ws lk :=
  Prog.along_of_safe h (fun _ _ _ ↦ asks_nothing _ _)
    (fun lk ws _ v _ ho ↦ sumsHolding_of_proper ho lk ws v) ws lk

theorem closeTurn_along {dto : CloseTurnDto} :
    ((Request.closeTurn tenantId dto).script env).Along postgres (fun _ ↦ True) SumsHolding [] [] := by
  simp only [Request.script, Services.closeTurn, Services.lockTenant, query, Prog.bind_assoc,
    Prog.issue_bind, Prog.stmt_bind]
  intro v _
  refine ⟨fun _ _ ↦ Sql.noConfusion, fun row ws₁ hexec ↦ ?_⟩
  obtain ⟨hrow, rfl⟩ := Prod.mk.inj (Except.ok.inj hexec)
  cases row with
  | none => trivial
  | some tenant =>
    have hlock : (.tenant tenantId, .update) ∈ (Sql.lockTenant tenantId).locks v := by
      have hfind : v.tenants.find tenantId = some tenant := hrow
      simp [Sql.locks, Sql.lockFound, hfind]
    simp only [Prog.pure_eq_ret, Prog.ret_bind]
    cases tenant.active_cash_shift_id with
    | none => trivial
    | some activeShiftId =>
      simp only [Prog.stmt_bind]
      intro v₂ _
      refine ⟨fun _ _ ↦ Sql.noConfusion, fun row₂ ws₂ hexec₂ ↦ ?_⟩
      obtain ⟨-, rfl⟩ := Prod.mk.inj (Except.ok.inj hexec₂)
      cases row₂ with
      | none => trivial
      | some shift =>
        simp only [Prog.stmt_bind]
        intro v₃ _
        refine ⟨?_, fun cash ws₃ _ ↦ ?_⟩
        · rintro tenantId' openedAt heq
          obtain ⟨rfl, -⟩ := Sql.sumCash.inj heq
          exact ⟨rfl, List.mem_append_left _ (List.mem_append_right _ hlock)⟩
        · simp only [Prog.ite_bind, Prog.fail_bind, Prog.bind_assoc, Prog.stmt_bind,
            Prog.commitTransaction_bind, Prog.commit_bind, Prog.ret_bind]
          split
          · trivial
          · refine along_of_asks (Q := fun _ ↦ True) ?_ _ _
            refine (saveShift_safe trivial _).bind fun _ _ ↦ ⟨trivial, fun rows _ ↦ ?_⟩
            refine (freezeTransactions_safe trivial _ _ _).bind fun _ _ ↦ ?_
            exact (saveTenant_safe trivial _).bind fun _ _ ↦ trivial

theorem script_along (req : Request) (env : Env) :
    (req.script env).Along postgres (fun _ ↦ True) SumsHolding [] [] := by
  by_cases hreq : ∃ tenantId dto, req = .closeTurn tenantId dto
  · obtain ⟨tenantId, dto, rfl⟩ := hreq
    exact closeTurn_along
  · exact along_of_asks (script_safe env req (fun _ ↦ trivial) fun tenantId dto h ↦
      hreq ⟨tenantId, dto, h⟩) [] []

end Scripts

/-! ## A payment while its shift is open -/

/-- The row with the immutable columns of `r` is neither reversed nor frozen, or it is reversed. -/
def Waits (r : Transaction) (d : Db) : Prop :=
  ∃ t ∈ d.transactions.rows, t.toCore = r.toCore ∧
    (t.is_reversed = true ∨ t.cash_register_log_id = none)

/-- The row of payment `r` is part of the cash that is summed in `d` for shift `s`. -/
def Counts (r : Transaction) (s : CashRegisterLog) (d : Db) : Prop :=
  ∃ t ∈ d.transactions.rows, t.toCore = r.toCore ∧ t.unfrozenSince s.tenant_id s.opened_at ∧
    IsCash t

/-- A shift with this identifier has been closed. -/
def Closed (d : Db) (shiftId : Uuid) : Prop :=
  ∃ s ∈ d.shifts.rows, s.id = shiftId ∧ s.status ≠ .OPEN

section Steps

variable {S : Setting} {K : Desk} {req : Request} {env : Env} {lk : List (LockName × LockMode)}
  {d d' : Db} {e : Effect} {s : CashRegisterLog} {r : Transaction}

/-- A closed shift stays closed. -/
theorem Closed.step {shiftId : Uuid} (h : Closed d shiftId) (hstep : ShiftStep K env d d' req) :
    Closed d' shiftId := by
  obtain ⟨s, hs, rfl, hclosed⟩ := h
  cases hstep with
  | keep _ hshifts => exact ⟨s, hshifts ▸ hs, rfl, hclosed⟩
  | «open» _ _ _ hshifts => exact ⟨s, hshifts ▸ List.mem_append_left _ hs, rfl, hclosed⟩
  | close _ _ hshift _ _ _ hshifts =>
    obtain ⟨hmem, -, hopen⟩ := Db.openShift_eq_some.1 hshift
    refine ⟨s, hshifts ▸ List.mem_map.2 ⟨s, hs, if_neg fun heq ↦ ?_⟩, rfl, hclosed⟩
    obtain rfl := List.inj_on_of_nodup_map d.shifts.nodup hs (List.mem_filter.1 hmem).1 heq
    exact hclosed hopen

/-- An open shift stays as it is or is closed. -/
theorem open_step (hs : s ∈ d.shifts.rows) (hstep : ShiftStep K env d d' req) :
    s ∈ d'.shifts.rows ∨ Closed d' s.id := by
  cases hstep with
  | keep _ hshifts => exact Or.inl (hshifts ▸ hs)
  | «open» _ _ _ hshifts => exact Or.inl (hshifts ▸ List.mem_append_left _ hs)
  | @close tenantId dto _ shift counted _ _ hshift _ _ _ hshifts =>
    obtain ⟨hmem, -, -⟩ := Db.openShift_eq_some.1 hshift
    by_cases hid : s.id = shift.id
    · right
      refine ⟨closedShift env dto shift (counted.cashSince tenantId shift.opened_at), ?_,
        hid.symm, closedShift_ne_open⟩
      exact hshifts ▸ List.mem_map.2 ⟨shift, (List.mem_filter.1 hmem).1, if_pos rfl⟩
    · exact Or.inl (hshifts ▸ List.mem_map.2 ⟨s, hs, if_neg hid⟩)

/-- A payment goes on waiting in every commit but the closing of a shift of its tenant. -/
theorem Waits.commit (h : Waits r d) (hcommit : Commit S req env lk d d' e)
    (hreq : ∀ dto, req ≠ .closeTurn r.tenant_id dto) : Waits r d' := by
  obtain ⟨t, ht, hcore, hwaits⟩ := h
  have hmem : e.tweak t ∈ d'.transactions.rows := by
    rw [hcommit.yields.transactions]
    exact List.mem_append_left _ (List.mem_map_of_mem ht)
  refine ⟨e.tweak t, hmem, (hcommit.changes.toCore_tweak t).trans hcore, ?_⟩
  rcases hwaits with hreversed | hnone
  · exact Or.inl (hcommit.changes.is_reversed_tweak hreversed)
  · have hchanges := hcommit.changes
    cases hchanges with
    | @reverse _ _ _ _ original reread _ _ _ hunreversed _ _ _ _ _ _ _ hmarks =>
      simp only
      split
      · rename_i hid
        left
        simp only [Transaction.saved, savedColumn]
        split
        · rename_i hsame
          exact hmarks hsame.symm t ht hid
        · rfl
      · exact Or.inr hnone
    | merge =>
      right
      simp only
      split <;> exact hnone
    | @close tenantId dto openedAt shiftId frozen hfrozen =>
      right
      simp only
      split
      · rename_i hid
        have htenant : r.tenant_id = tenantId := by
          rw [← (hfrozen t ht hid).1]
          exact congrArg (·.tenant_id) hcore.symm
        exact (hreq dto (htenant ▸ rfl)).elim
      · exact hnone
    | _ => exact Or.inr hnone

/-- Closing a shift of the tenant closes the open one. -/
theorem closed_of_close {dto : CloseTurnDto} (hopen : OneOpen d) (hs : s ∈ d.shifts.rows)
    (hstatus : s.status = .OPEN) (hstep : ShiftStep K env d d' (.closeTurn s.tenant_id dto)) :
    Closed d' s.id := by
  cases hstep with
  | keep hreq => exact (hreq _ dto rfl).elim
  | @close _ _ tenant shift counted htenant hactive hshift _ _ _ hshifts =>
    obtain ⟨hmem, hid⟩ := Table.find_eq_some.1 htenant
    have hmine : s ∈ openShiftsOf d tenant.id :=
      List.mem_filter.2 ⟨hs, decide_eq_true ⟨hid.symm, hstatus⟩⟩
    obtain ⟨hone, hnamed⟩ := openShifts_of_oneOpen hopen hmem hmine
    have hsame : s.id = shift.id := Option.some.inj (hnamed.symm.trans hactive)
    refine ⟨closedShift env dto shift (counted.cashSince s.tenant_id shift.opened_at), ?_,
      hsame.symm, closedShift_ne_open⟩
    exact hshifts ▸ List.mem_map.2 ⟨s, hs, if_pos hsame⟩

/-- Shift `s` has been closed, or it is open and the payment waits for it. -/
def Held (r : Transaction) (s : CashRegisterLog) (d : Db) : Prop :=
  OneOpen d ∧ (Closed d s.id ∨ s ∈ d.shifts.rows ∧ Waits r d)

/-- The shift has been closed or the payment reversed. -/
def Lapsed (r : Transaction) (s : CashRegisterLog) (d : Db) : Prop :=
  Closed d s.id ∨ ∃ t ∈ d.transactions.rows, t.toCore = r.toCore ∧ t.is_reversed = true

/-- A payment that waits for an open shift is counted if it started after the shift was opened. -/
theorem Held.counts_iff (h : Held r s d) (hlapsed : ¬Lapsed r s d) (htenant : r.tenant_id = s.tenant_id)
    (htype : r.type = .PAYMENT) (hcash : r.payment_method = some .CASH) :
    Counts r s d ↔ s.opened_at < r.created_at := by
  constructor
  · rintro ⟨t, -, hcore, ⟨-, -, hlater, -⟩, -⟩
    rwa [show t.created_at = r.created_at from congrArg (·.created_at) hcore] at hlater
  · intro hlater
    obtain ⟨-, hclosed | ⟨-, t, ht, hcore, hreversed | hnone⟩⟩ := h
    · exact (hlapsed (Or.inl hclosed)).elim
    · exact (hlapsed (Or.inr ⟨t, ht, hcore, hreversed⟩)).elim
    · have hunreversed : t.is_reversed = false := by
        by_contra hreversed
        exact hlapsed (Or.inr ⟨t, ht, hcore, Bool.eq_true_of_not_eq_false hreversed⟩)
      refine ⟨t, ht, hcore, ⟨?_, ?_, ?_, hunreversed, hnone⟩, Or.inl ?_⟩
      · exact (congrArg (·.tenant_id) hcore).trans htenant
      · exact (congrArg (·.type) hcore).trans htype
      · rwa [show t.created_at = r.created_at from congrArg (·.created_at) hcore]
      · exact (congrArg (·.payment_method) hcore).trans hcash

theorem Held.commit (h : Held r s d) (hstatus : s.status = .OPEN)
    (htenant : r.tenant_id = s.tenant_id) (hreq : req ≠ .processSaaSExpirations)
    (hledger : d' = d ∨ ∃ e, Commit S req env lk d d' e) (hstep : ShiftStep K env d d' req) :
    Held r s d' := by
  obtain ⟨hopen, hclosed | ⟨hs, hwaits⟩⟩ := h
  · exact ⟨hopen.step hstep hreq, Or.inl (hclosed.step hstep)⟩
  refine ⟨hopen.step hstep hreq, ?_⟩
  by_cases hclose : ∃ dto, req = .closeTurn s.tenant_id dto
  · obtain ⟨dto, rfl⟩ := hclose
    exact Or.inl (closed_of_close hopen hs hstatus hstep)
  rcases open_step hs hstep with hs' | hclosed
  · right
    refine ⟨hs', ?_⟩
    rcases hledger with rfl | ⟨e, hcommit⟩
    · exact hwaits
    · exact hwaits.commit hcommit fun dto heq ↦ hclose ⟨dto, htenant ▸ heq⟩
  · exact Or.inl hclosed

end Steps

/-! ## Runs -/

/-- What is summed as cash is summed by session `i` in a state of the run, before it has written
anything. -/
def Desk.summing {ι : Type} [DecidableEq ι]
    (s : Sys ι Sql Sql.Ans Db Write LockName ServiceError Answer) (es : List (Event ι)) (i : ι) :
    Desk :=
  { Desk.plain with
    sums := fun tenantId openedAt v ↦ ∃ es' k, es' ++ [.step i] <+: es ∧
      (postgres.run s es').session i = .running (.stmt (.sumCash tenantId openedAt) k) [] ∧
      v = (postgres.run s es').db }

section Runs

variable {ι : Type} [DecidableEq ι] {req : ι → Request} {env : ι → Env} {tenants : Table Tenant}

/-- The state after the events `es` in a new installation. -/
def after (req : ι → Request) (env : ι → Env) (tenants : Table Tenant) (es : List (Event ι)) :
    Sys ι Sql Sql.Ans Db Write LockName ServiceError Answer :=
  postgres.run (serve req env (Db.opened tenants)) es

/-- Event `e` commits payment `r` in cash while shift `s` is open and session `j` has not locked
the tenant; the shift stays open and the payment unreversed during the events `es₂`. -/
structure Collects (state : List (Event ι) → Sys ι Sql Sql.Ans Db Write LockName ServiceError Answer)
    (es₁ : List (Event ι)) (e : Event ι) (es₂ : List (Event ι)) (j : ι) (s : CashRegisterLog)
    (r : Transaction) : Prop where
  opened : s ∈ (state es₁).db.shifts.rows
  status : s.status = .OPEN
  recorded : r ∈ recorded (state es₁).db (state (es₁ ++ [e])).db
  payment : r.type = .PAYMENT
  cash : r.payment_method = some .CASH
  tenant : r.tenant_id = s.tenant_id
  unlocked : (.tenant s.tenant_id, .update) ∉ (state (es₁ ++ [e])).locksOf j
  stillOpen : s ∈ (state (es₁ ++ e :: es₂)).db.shifts.rows
  unreversed : ∃ t ∈ (state (es₁ ++ e :: es₂)).db.transactions.rows,
    t.toCore = r.toCore ∧ t.is_reversed = false

theorem along_after (req : ι → Request) (env : ι → Env) (tenants : Table Tenant)
    (es : List (Event ι)) :
    (after req env tenants es).Along postgres (fun _ ↦ True) SumsHolding :=
  Sys.Along.run (Sys.Along.start fun i ↦ script_along (req i) (env i)) es
    fun _ _ _ _ _ _ ↦ trivial

theorem meets_summing (es : List (Event ι)) :
    postgres.Meets (fun i o v ↦
      (Desk.summing (serve req env (Db.opened tenants)) es i).allow (req i) o v)
      (serve req env (Db.opened tenants)) es := by
  refine Engine.meets_of_prefix fun es' i o k ws hes' hs ↦ ?_
  cases o with
  | sumCash tenantId openedAt =>
    obtain ⟨rfl, -⟩ := (along_after req env tenants es' hs (Db.opened tenants) trivial).1 tenantId openedAt rfl
    exact ⟨es', k, hes', hs, rfl⟩
  | rereadTenant mem => exact False.elim
  | updateTenant mem reread => exact False.elim
  | _ => trivial

theorem after_append (es es' : List (Event ι)) :
    after req env tenants (es ++ es') = postgres.run (after req env tenants es) es' :=
  postgres.run_append _ es es'

/-- An event of a run leaves the database as it is, or a request commits, with what it does to the
ledger and at the desk. -/
theorem event_step {K : ι → Desk} (hK : ∀ i, ¬(K i).exclusive) (hids : FreshIds req env)
    {es : List (Event ι)} {e : Event ι}
    (hmeets : postgres.Meets (fun i ↦ (K i).allow (req i)) (serve req env (Db.opened tenants))
      (es ++ [e])) :
    (after req env tenants (es ++ [e])).db = (after req env tenants es).db ∨
      ∃ i lk, e = .step i ∧
        ((after req env tenants (es ++ [e])).db = (after req env tenants es).db ∨
          ∃ effect, Commit .plain (req i) (env i) lk (after req env tenants es).db
            (after req env tenants (es ++ [e])).db effect) ∧
        ShiftStep (K i) (env i) (after req env tenants es).db
          (after req env tenants (es ++ [e])).db (req i) := by
  obtain ⟨hC, hsound⟩ := sound_both hK hids (fun i ↦ unused_opened (env i) tenants)
    (wellFormed_opened tenants)
  have hallow := hmeets.mono fun i o v h ↦
    (⟨allow_plain (req i) (env i) o v, h⟩ : (bothContracts .plain (K i) (req i) (env i)).allow o v)
  have hsound' := hsound.run hC (Engine.meets_append.1 hallow).1
  rw [after_append]
  rcases hsound'.commit_of_move hC (postgres.step_move _ e) with
    ⟨hdb, -⟩ | ⟨i, ws, he, ⟨hledger, hdesk⟩, -, hdb, -⟩
  · exact Or.inl hdb
  · refine Or.inr ⟨i, (after req env tenants es).locksOf i, he, ?_, ?_⟩
    · refine hledger.imp (fun hidle ↦ hdb.trans ?_) fun ⟨effect, hcommit⟩ ↦ ⟨effect, ?_⟩
      · rw [hidle.1]
        rfl
      · rw [← hdb] at hcommit
        exact hcommit
    · have hstep := hdesk.shiftStep
      rw [← hdb] at hstep
      exact hstep

theorem meets_desk_plain (es : List (Event ι)) : postgres.Meets (fun i ↦ Desk.plain.allow (req i))
    (serve req env (Db.opened tenants)) es :=
  .of_forall fun i ↦ allow_desk_plain (req i)

section Held

variable {s : CashRegisterLog} {r : Transaction} {es : List (Event ι)}

theorem held_run (hids : FreshIds req env) (hreq : ∀ i, req i ≠ .processSaaSExpirations)
    (hstatus : s.status = .OPEN) (htenant : r.tenant_id = s.tenant_id)
    (h : Held r s (after req env tenants es).db) (es' : List (Event ι)) :
    Held r s (after req env tenants (es ++ es')).db := by
  induction es' using List.reverseRecOn with
  | nil => rwa [List.append_nil]
  | append_singleton es' e ih =>
    rw [← List.append_assoc]
    rcases event_step (fun _ ↦ id) hids (meets_desk_plain (es ++ es' ++ [e])) with
      hdb | ⟨i, lk, -, hledger, hdesk⟩
    · rwa [hdb]
    · exact ih.commit hstatus htenant (hreq i) hledger hdesk

/-- A payment that is committed while the shift is open waits for it. -/
theorem held_recorded (hids : FreshIds req env) (hreq : ∀ i, req i ≠ .processSaaSExpirations)
    (hidle : ∀ t ∈ tenants.rows, t.active_cash_shift_id = none) {e : Event ι}
    (hs : s ∈ (after req env tenants es).db.shifts.rows)
    (hr : r ∈ recorded (after req env tenants es).db (after req env tenants (es ++ [e])).db) :
    Held r s (after req env tenants (es ++ [e])).db := by
  refine ⟨oneOpen_run hids hreq hidle _, ?_⟩
  rcases event_step (fun _ ↦ id) hids (meets_desk_plain (es ++ [e])) with
    hdb | ⟨i, lk, -, hdb | ⟨effect, hcommit⟩, hdesk⟩
  · rw [hdb, recorded_self] at hr
    cases hr
  · rw [hdb, recorded_self] at hr
    cases hr
  · refine (open_step hs hdesk).symm.imp id fun hs' ↦ ⟨hs', r, ?_, rfl, Or.inr ?_⟩
    · exact (List.mem_filter.1 hr).1
    · rw [recorded_of_commit hcommit] at hr
      exact log_new hcommit.changes hr

/-- A shift that is closed stays so, and so does a payment that is reversed. -/
theorem lapsed_run (hids : FreshIds req env)
    (h : Lapsed r s (after req env tenants es).db) (es' : List (Event ι)) :
    Lapsed r s (after req env tenants (es ++ es')).db := by
  induction es' using List.reverseRecOn with
  | nil => rwa [List.append_nil]
  | append_singleton es' e ih =>
    rw [← List.append_assoc]
    rcases event_step (fun _ ↦ id) hids (meets_desk_plain (es ++ es' ++ [e])) with
      hdb | ⟨i, lk, -, hledger, hdesk⟩
    · rwa [hdb]
    · rcases ih with hclosed | ⟨t, ht, hcore, hreversed⟩
      · exact Or.inl (hclosed.step hdesk)
      · right
        rcases hledger with hdb | ⟨effect, hcommit⟩
        · exact ⟨t, hdb ▸ ht, hcore, hreversed⟩
        · exact ⟨effect.tweak t, hcommit.mem_transactions ht,
            (hcommit.changes.toCore_tweak t).trans hcore,
            hcommit.changes.is_reversed_tweak hreversed⟩

/-- A shift is closed with the cash that its closing summed. -/
theorem closed_with_sum (hids : FreshIds req env) {j : ι} {closed : CashRegisterLog}
    (hs : s ∈ (after req env tenants es).db.shifts.rows) (hstatus : s.status = .OPEN)
    (hclosed : closed ∈ (after req env tenants (es ++ [.step j])).db.shifts.rows)
    (hid : closed.id = s.id) (hne : closed.status ≠ .OPEN) :
    ∃ es' k, es' ++ [.step j] <+: es ++ [.step j] ∧
      (after req env tenants es').session j =
        .running (.stmt (.sumCash s.tenant_id s.opened_at) k) [] ∧
      closed.expected_cash_cents = some (s.opening_cash_cents +
        (after req env tenants es').db.cashSince s.tenant_id s.opened_at) := by
  have hgone : s ∉ (after req env tenants (es ++ [.step j])).db.shifts.rows := fun hs' ↦
    hne (List.inj_on_of_nodup_map (Table.nodup _) hclosed hs' hid ▸ hstatus)
  rcases event_step (K := Desk.summing (serve req env (Db.opened tenants)) (es ++ [.step j]))
    (fun _ ↦ id) hids (meets_summing _) with hdb | ⟨i, lk, he, -, hdesk⟩
  · exact (hgone (hdb ▸ hs)).elim
  obtain rfl := Event.step.inj he
  generalize hreq : req j = request at hdesk
  cases hdesk with
  | keep _ hshifts => exact (hgone (hshifts ▸ hs)).elim
  | «open» _ _ _ hshifts => exact (hgone (hshifts ▸ List.mem_append_left _ hs)).elim
  | @close tenantId dto _ shift counted _ _ hshift hsum _ _ hshifts =>
    obtain ⟨hmem, -, -⟩ := Db.openShift_eq_some.1 hshift
    obtain ⟨hmem, htenant⟩ := List.mem_filter.1 hmem
    have hsame : s.id = shift.id := by
      by_contra hother
      exact hgone (hshifts ▸ List.mem_map.2 ⟨s, hs, if_neg hother⟩)
    obtain rfl := List.inj_on_of_nodup_map (Table.nodup _) hs hmem hsame
    obtain ⟨es', k, hes', hsession, rfl⟩ := hsum
    obtain rfl : s.tenant_id = tenantId := of_decide_eq_true htenant
    refine ⟨es', k, hes', hsession, ?_⟩
    rw [hshifts] at hclosed
    obtain ⟨s', hs', rfl⟩ := List.mem_map.1 hclosed
    split at hne
    · rename_i heq
      rw [if_pos heq]
      rfl
    · rename_i heq
      rw [if_neg heq] at hid
      exact (heq hid).elim

/-- The closing of the shift sums the cash after it has locked the tenant. -/
theorem sums_after_lock (hids : FreshIds req env) {es₁ es' : List (Event ι)} {j : ι}
    {k : (Sql.sumCash s.tenant_id s.opened_at).Ans → Script Answer}
    (hsession : (after req env tenants es').session j =
      .running (.stmt (.sumCash s.tenant_id s.opened_at) k) [])
    (hunlocked : (.tenant s.tenant_id, .update) ∉ (after req env tenants es₁).locksOf j)
    (hes₁ : es₁ <+: es) (hes' : es' <+: es)
    (hwrites : (after req env tenants (es ++ [.step j])).db ≠ (after req env tenants es).db) :
    es₁ <+: es' := by
  rcases List.prefix_or_prefix_of_prefix hes₁ hes' with h | ⟨es₂, rfl⟩
  · exact h
  obtain ⟨es₃, rfl⟩ := hes₁
  obtain ⟨hC, hsound⟩ := sound_both (K := fun _ ↦ Desk.plain) (fun _ ↦ id) hids
    (fun i ↦ unused_opened (env i) tenants) (wellFormed_opened tenants)
  have hallow : ∀ i o v, (bothContracts .plain Desk.plain (req i) (env i)).allow o v := fun i o v ↦
    ⟨allow_plain (req i) (env i) o v, allow_desk_plain (req i) o v⟩
  have hlock := (along_after req env tenants es' hsession (Db.opened tenants) trivial).1
    s.tenant_id s.opened_at rfl
  have hengaged : (postgres.run (after req env tenants es') es₂).Engaged j
      (.tenant s.tenant_id, .update) :=
    (hsound.run hC (.of_forall hallow)).engaged_run hC (.of_forall hallow) (Or.inl hlock.2)
  rw [← after_append] at hengaged
  rcases hengaged with hheld | hover
  · exact (hunlocked hheld).elim
  · refine (hwrites ?_).elim
    rw [after_append]
    refine Session.Over.db_eq ?_
    rw [after_append]
    exact Session.Over.run hover es₃

/-- A payment in cash that is committed while a shift is open, before its closing locks the tenant,
and that is not reversed before the shift is closed, is in the cash that the shift is closed with if
and only if its transaction started after the shift was opened. -/
theorem cash_counted_iff (hids : FreshIds req env) (hreq : ∀ i, req i ≠ .processSaaSExpirations)
    (hidle : ∀ t ∈ tenants.rows, t.active_cash_shift_id = none) {es₁ es₂ : List (Event ι)}
    {e : Event ι} {j : ι} {closed : CashRegisterLog}
    (h : Collects (after req env tenants) es₁ e es₂ j s r)
    (hclosed : closed ∈ (after req env tenants (es₁ ++ e :: es₂ ++ [.step j])).db.shifts.rows)
    (hid : closed.id = s.id) (hne : closed.status ≠ .OPEN) :
    ∃ es' k, es₁ ++ [e] <+: es' ∧ es' <+: es₁ ++ e :: es₂ ∧
      (after req env tenants es').session j =
        .running (.stmt (.sumCash s.tenant_id s.opened_at) k) [] ∧
      closed.expected_cash_cents = some (s.opening_cash_cents +
        (after req env tenants es').db.cashSince s.tenant_id s.opened_at) ∧
      (Counts r s (after req env tenants es').db ↔ s.opened_at < r.created_at) := by
  obtain ⟨es', k, hes', hsession, hsum⟩ := closed_with_sum hids h.stillOpen h.status hclosed hid hne
  have hbefore : es' <+: es₁ ++ e :: es₂ := by
    obtain ⟨rest, hrest⟩ := hes'
    rw [List.append_assoc] at hrest
    exact List.prefix_of_prefix_length_le ⟨_, hrest⟩ (List.prefix_append _ _)
      (by have := congrArg List.length hrest; simp at this ⊢; omega)
  have hpaid : es₁ ++ [e] <+: es₁ ++ e :: es₂ := ⟨es₂, by simp⟩
  have hlater : es₁ ++ [e] <+: es' := by
    refine sums_after_lock hids hsession h.unlocked hpaid hbefore fun hdb ↦ hne ?_
    have hsame := List.inj_on_of_nodup_map (Table.nodup _) (hdb ▸ hclosed) h.stillOpen hid
    exact hsame ▸ h.status
  refine ⟨es', k, hlater, hbefore, hsession, hsum, ?_⟩
  have hheld : Held r s (after req env tenants es').db := by
    obtain ⟨rest, rfl⟩ := hlater
    exact held_run hids hreq h.status h.tenant (held_recorded hids hreq hidle h.opened h.recorded) rest
  refine hheld.counts_iff (fun hlapsed ↦ ?_) h.tenant h.payment h.cash
  obtain ⟨rest, hrest⟩ := hbefore
  rcases hrest ▸ lapsed_run hids hlapsed rest with ⟨s', hs', hid', hne'⟩ | ⟨t, ht, hcore, hreversed⟩
  · exact hne' (List.inj_on_of_nodup_map (Table.nodup _) hs' h.stillOpen hid' ▸ h.status)
  · obtain ⟨t', ht', hcore', hunreversed⟩ := h.unreversed
    have hsame : t.id = t'.id := congrArg (·.id) (hcore.trans hcore'.symm)
    obtain rfl := List.inj_on_of_nodup_map (Table.nodup _) ht ht' hsame
    rw [hunreversed] at hreversed
    cases hreversed

end Held

end Runs

/-! ## A payment that starts before the shift is opened -/

/-- Ana pays 60 of a debt of 100, and a shift is opened and closed. -/
def missing : Fin 5 → Request
  | 0 => .createCustomer 1 ana
  | 1 => .registerDebt 1 2 (debtOf100 100 11)
  | 2 => .registerPayment 1 2 (paymentOf60 100 12)
  | 3 => .openTurn 1 2 openingTurn
  | 4 => .closeTurn 1 closingEmpty

/-- The payment starts, the shift is opened, and the payment comes to its commit. -/
def missingOrder : List (Event (Fin 5)) := inTurn [(0, 10), (1, 12), (2, 1), (3, 12), (2, 5)]

/-- The payment is committed while the shift is open, and the shift is closed with nothing
expected. -/
theorem payment_missed :
    let shift := shiftRow (sampleEnv 3) 1 2 openingTurn
    let payment := paymentRow (sampleEnv 2) 1 2 (paymentOf60 100 12) 60
    let closed := closedShift (sampleEnv 4) closingEmpty shift 0
    Collects (after missing (fun i ↦ sampleEnv i) sampleTenants) missingOrder (.step 2) (turns 4 8) 4
        shift payment ∧
      closed ∈ (after missing (fun i ↦ sampleEnv i) sampleTenants
        (missingOrder ++ .step 2 :: turns 4 8 ++ [.step 4])).db.shifts.rows ∧
      closed.id = shift.id ∧ closed.status ≠ .OPEN ∧ closed.expected_cash_cents = some 0 ∧
      payment.amount_cents = 60 := by
  refine ⟨⟨?_, ?_, ?_, ?_, ?_, ?_, ?_, ?_, ?_⟩, ?_, ?_, ?_, ?_, ?_⟩ <;> decide +kernel

/-- The shift is opened before the payment starts. -/
def counting : Fin 5 → Request
  | 0 => .createCustomer 1 ana
  | 1 => .registerDebt 1 2 (debtOf100 100 11)
  | 2 => .openTurn 1 2 openingTurn
  | 3 => .registerPayment 1 2 (paymentOf60 100 12)
  | 4 => .closeTurn 1 closingTurn

theorem freshIds_counting : FreshIds counting fun i ↦ sampleEnv i :=
  freshIds_sample Fin.val_injective (by decide) (by decide)

theorem counting_ne (i : Fin 5) : counting i ≠ .processSaaSExpirations := by
  fin_cases i <;> exact Request.noConfusion

def countingOrder : List (Event (Fin 5)) := inTurn [(0, 10), (1, 12), (2, 12), (3, 6)]

theorem collects_counting :
    Collects (after counting (fun i ↦ sampleEnv i) sampleTenants) countingOrder (.step 3) (turns 4 9) 4
      (shiftRow (sampleEnv 2) 1 2 openingTurn)
      (paymentRow (sampleEnv 3) 1 2 (paymentOf60 100 12) 60) := by
  refine ⟨?_, ?_, ?_, ?_, ?_, ?_, ?_, ?_, ?_⟩ <;> decide +kernel

theorem closed_counting :
    closedShift (sampleEnv 4) closingTurn (shiftRow (sampleEnv 2) 1 2 openingTurn) 60 ∈
      (after counting (fun i ↦ sampleEnv i) sampleTenants
        (countingOrder ++ .step 3 :: turns 4 9 ++ [.step 4])).db.shifts.rows := by
  decide +kernel

theorem cash_counted_iff_later :
    ∃ es' k, countingOrder ++ [.step 3] <+: es' ∧ es' <+: countingOrder ++ .step 3 :: turns 4 9 ∧
      (after counting (fun i ↦ sampleEnv i) sampleTenants es').session 4 =
        .running (.stmt (.sumCash 1 2) k) [] ∧
      some 60 = some (0 + (after counting (fun i ↦ sampleEnv i) sampleTenants es').db.cashSince 1 2) ∧
      (Counts (paymentRow (sampleEnv 3) 1 2 (paymentOf60 100 12) 60)
        (shiftRow (sampleEnv 2) 1 2 openingTurn)
        (after counting (fun i ↦ sampleEnv i) sampleTenants es').db ↔ (2 : ℤ) < 3) :=
  cash_counted_iff freshIds_counting counting_ne (by decide) collects_counting closed_counting rfl
    (by decide)

end MicroErp.Guarantees
