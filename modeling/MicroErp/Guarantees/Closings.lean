import MicroErp.Concurrency.TwoPhase
import MicroErp.Guarantees.Ledger
import MicroErp.Guarantees.Shifts

/-!
# Closed shifts account for their payments

When requests are served one after the other, the cash that a closed shift expected is what was in
the till plus the cash payments that were frozen into it, and a frozen payment stays where it is.
-/

namespace MicroErp.Guarantees

open MicroErp.Commits MicroErp.Concurrency MicroErp.Database MicroErp.Services MicroErp.Storage

/-- The payment counts as cash. -/
def IsCash (t : Transaction) : Prop := t.payment_method = some .CASH ∨ t.payment_method = none

instance : DecidablePred IsCash := fun _ ↦ inferInstanceAs (Decidable (_ ∨ _))

/-- The cash that was frozen into a shift. -/
def frozenCash (d : Db) (shiftId : Uuid) : ℤ :=
  sumOf (fun t : Transaction ↦ t.cash_register_log_id = some shiftId ∧ IsCash t)
    (·.amount_cents) d.transactions.rows

/-- What is stored with a closed shift agrees with the payments that are frozen into it. -/
structure Accounts (d : Db) (s : CashRegisterLog) : Prop where
  expected : s.expected_cash_cents = some (s.opening_cash_cents + frozenCash d s.id)
  discrepancy : ∃ actual, s.actual_cash_cents = some actual ∧
    s.discrepancy_cents = some (actual - (s.opening_cash_cents + frozenCash d s.id))
  status : s.status = .CLOSED_OK ↔ s.discrepancy_cents = some 0
  note : s.status ≠ .CLOSED_OK → ∃ text, s.note = some text ∧ text ≠ ""

/-- Frozen payments lie in closed shifts, which account for them. -/
structure Books (d : Db) : Prop where
  frozen : ∀ t ∈ d.transactions.rows, ∀ id, t.cash_register_log_id = some id →
    ∃ s ∈ d.shifts.rows, s.id = id ∧ s.status ≠ .OPEN
  closed : ∀ s ∈ d.shifts.rows, s.status ≠ .OPEN → Accounts d s

theorem books_opened (tenants : Table Tenant) : Books (Db.opened tenants) where
  frozen _ h := (List.not_mem_nil h).elim
  closed _ h := (List.not_mem_nil h).elim

/-! ## The ledger after one request alone -/

section Steps

variable {req : Request} {env : Env} {lk : List (LockName × LockMode)} {ws : List Write}
  {d d' : Db} {e : Effect}

theorem transactions_frozen (frozen : List Uuid) (shiftId : Uuid) (d : Db) :
    (postgres.view (frozen.map (.freezeTransaction · shiftId)) d).transactions.rows =
      d.transactions.rows.map fun t ↦
        if t.id ∈ frozen then { t with cash_register_log_id := some shiftId } else t := by
  induction frozen generalizing d with
  | nil => simp
  | cons id frozen ih =>
    rw [List.map_cons, Engine.view_cons, ih, postgres_write, Write.apply, Table.rows_modify,
      List.map_map]
    refine List.map_congr_left fun t _ ↦ ?_
    have hamend : Table.amend (fun t : Transaction ↦ { t with cash_register_log_id := some shiftId })
        t = { t with cash_register_log_id := some shiftId } := if_pos rfl
    simp only [Function.comp_apply, Transaction.key_eq, List.mem_cons]
    by_cases hid : t.id = id
    · rw [if_pos hid, if_pos (Or.inl hid), hamend]
      exact ite_self _
    · simp only [hid, if_false, false_or]

/-- The transactions after a shift is closed. -/
theorem transactions_close (closed shift : CashRegisterLog) (frozen : List Uuid) (shiftId : Uuid)
    (mem tenant : Tenant) (d : Db) :
    (postgres.view (.updateShift closed shift :: frozen.map (.freezeTransaction · shiftId) ++
        [.updateTenant mem tenant]) d).transactions.rows =
      d.transactions.rows.map fun t ↦
        if t.id ∈ frozen then { t with cash_register_log_id := some shiftId } else t := by
  rw [List.cons_append, Engine.view_cons, Engine.view_append]
  exact transactions_frozen frozen shiftId _

/-- Alone, only closing a shift changes where a payment is frozen. -/
theorem log_tweak (h : Changes aloneSetting env lk d req e)
    (hreq : ∀ tenantId dto, req ≠ .closeTurn tenantId dto) (t : Transaction) :
    (e.tweak t).cash_register_log_id = t.cash_register_log_id := by
  cases h with
  | reverse _ _ _ _ _ _ _ _ _ hexact =>
    obtain ⟨-, rfl⟩ := hexact (Or.inl trivial)
    simp only
    split
    · simp only [Transaction.saved, savedColumn_self]
    · rfl
  | merge =>
    simp only
    split <;> rfl
  | close => exact (hreq _ _ rfl).elim
  | _ => rfl

/-- New rows are not frozen. -/
theorem log_new {S : Setting} (h : Changes S env lk d req e) {r : Transaction} (hr : r ∈ e.rows) :
    r.cash_register_log_id = none := by
  cases h with
  | post _ _ hposts =>
    cases hposts with
    | mixed =>
      rcases List.mem_cons.1 hr with rfl | hr
      · rfl
      · obtain rfl := List.mem_singleton.1 hr
        rfl
    | _ =>
      obtain rfl := List.mem_singleton.1 hr
      rfl
  | reverse =>
    obtain rfl := List.mem_singleton.1 hr
    rfl
  | inflate hadjusts =>
    obtain ⟨x, hx, rfl⟩ := List.mem_map.1 hr
    obtain ⟨-, n, hn⟩ := hadjusts.of_mem hx
    rw [hn]
    rfl
  | _ => cases hr

/-- What one request alone does to the ledger and the shifts. -/
inductive Booked (env : Env) (d d' : Db) : Prop
  | other (tweak : Transaction → Transaction) (rows : List Transaction)
      (hledger : d'.transactions.rows = d.transactions.rows.map tweak ++ rows)
      (htweak : ∀ t, (tweak t).toCore = t.toCore ∧
        (tweak t).cash_register_log_id = t.cash_register_log_id)
      (hrows : ∀ r ∈ rows, r.cash_register_log_id = none)
      (hshifts : ∃ opened, d'.shifts.rows = d.shifts.rows ++ opened ∧
        ∀ s ∈ opened, s.status = .OPEN) : Booked env d d'
  | close {tenantId : Uuid} {dto : CloseTurnDto} {shift : CashRegisterLog} {frozen : List Uuid}
      (hshift : d.openShift tenantId shift.id = some shift)
      (hnote : dto.actual_cash_cents ≠
        shift.opening_cash_cents + d.cashSince tenantId shift.opened_at →
          ∃ text, dto.note = some text ∧ text ≠ "")
      (hfrozen : ∀ t ∈ d.transactions.rows,
        t.id ∈ frozen ↔ t.unfrozenSince tenantId shift.opened_at)
      (hledger : d'.transactions.rows = d.transactions.rows.map fun t ↦
        if t.id ∈ frozen then { t with cash_register_log_id := some shift.id } else t)
      (hshifts : d'.shifts.rows = d.shifts.rows.map fun s ↦ if s.id = shift.id then
        closedShift env dto shift (d.cashSince tenantId shift.opened_at) else s) : Booked env d d'

theorem Booked.refl : Booked env d d :=
  .other id [] (by simp) (fun _ ↦ ⟨rfl, rfl⟩) (fun _ h ↦ (List.not_mem_nil h).elim)
    ⟨[], by simp, fun _ h ↦ (List.not_mem_nil h).elim⟩

theorem booked_of_open (hreq : ∀ tenantId dto, req ≠ .closeTurn tenantId dto)
    (hledger : (ws = [] ∧ req.MayIdle) ∨
      ∃ e, Commit aloneSetting req env lk d (postgres.view ws d) e)
    (hdesk : DeskChanges Desk.alone env lk d req ws) : Booked env d (postgres.view ws d) := by
  rcases hledger with ⟨rfl, -⟩ | ⟨e, hcommit⟩
  · exact Booked.refl
  · refine .other e.tweak e.rows hcommit.yields.transactions
      (fun t ↦ ⟨hcommit.changes.toCore_tweak t, log_tweak hcommit.changes hreq t⟩)
      (fun r hr ↦ log_new hcommit.changes hr) ?_
    cases hdesk.shiftStep with
    | keep _ hshifts => exact ⟨[], by simp [hshifts], fun _ h ↦ (List.not_mem_nil h).elim⟩
    | «open» _ _ _ hshifts =>
      refine ⟨_, hshifts, fun s hs ↦ ?_⟩
      obtain rfl := List.mem_singleton.1 hs
      rfl
    | close => exact (hreq _ _ rfl).elim

theorem booked_alone (req : Request) (env : Env) {out : Except ServiceError Answer}
    (hrun : postgres.alone (req.script env) [] d = (out, d')) : Booked env d d' := by
  have hallow : ∀ o v, (bothContracts aloneSetting Desk.alone req env).allow o v :=
    fun o v ↦ ⟨allow_alone req env o v, allow_desk_alone req o v⟩
  obtain ⟨hdb, -⟩ := Engine.alone_of_wp (C := bothContracts aloneSetting Desk.alone req env)
    Write.locks (fun h ↦ Sql.locks_of_exec h) (fun _ _ ↦ ⟨Rely.refl, DeskRely.refl⟩) hallow
    (script_both (suits_alone req env d)) (fun _ h ↦ (List.not_mem_nil h).elim) hrun
  rcases hdb with rfl | ⟨lk, ws, ⟨hledger, hdesk⟩, -, rfl⟩
  · exact Booked.refl
  · cases hdesk with
    | @close tenantId dto tenant shift frozen counted htenant hactive hshift hsum hnote hexact =>
      obtain ⟨rfl, hfrozen⟩ := hexact trivial
      refine .close hshift hnote hfrozen (transactions_close _ _ _ _ _ _ _) ?_
      rw [List.cons_append, Engine.view_cons, shifts_frozen]
      exact shifts_close rfl (Option.filter_eq_some_iff.1 hshift).1
    | other hreq h => exact booked_of_open hreq.ne_closeTurn hledger (.other hreq h)
    | «open» h h' h'' =>
      exact booked_of_open (fun _ _ ↦ Request.noConfusion) hledger (.open h h' h'')
    | settings h => exact booked_of_open (fun _ _ ↦ Request.noConfusion) hledger (.settings h)
    | paid h => exact booked_of_open (fun _ _ ↦ Request.noConfusion) hledger (.paid h)
    | suspend h => exact booked_of_open (fun _ _ ↦ Request.noConfusion) hledger (.suspend h)

/-! ## The invariant -/

theorem frozenCash_append {tweak : Transaction → Transaction} {rows : List Transaction}
    (hledger : d'.transactions.rows = d.transactions.rows.map tweak ++ rows)
    (htweak : ∀ t, (tweak t).toCore = t.toCore ∧
      (tweak t).cash_register_log_id = t.cash_register_log_id)
    (hrows : ∀ r ∈ rows, r.cash_register_log_id = none) (shiftId : Uuid) :
    frozenCash d' shiftId = frozenCash d shiftId := by
  have hnew : ∀ r ∈ rows, ¬(r.cash_register_log_id = some shiftId ∧ IsCash r) := fun r hr h ↦ by
    rw [hrows r hr] at h
    cases h.1
  unfold frozenCash
  rw [hledger, sumOf_append, sumOf_map, sumOf_eq_zero hnew, add_zero]
  refine sumOf_congr (fun t _ ↦ ?_) fun t _ ↦ congrArg (·.amount_cents) (htweak t).1
  have hmethod : (tweak t).payment_method = t.payment_method :=
    congrArg (·.payment_method) (htweak t).1
  unfold IsCash
  rw [(htweak t).2, hmethod]

/-- What is frozen into a shift is added to it and to no other one. -/
theorem frozenCash_close {tenantId : Uuid} {openedAt : Timestamp} {shiftId : Uuid}
    {frozen : List Uuid}
    (hfrozen : ∀ t ∈ d.transactions.rows, t.id ∈ frozen ↔ t.unfrozenSince tenantId openedAt)
    (hledger : d'.transactions.rows = d.transactions.rows.map fun t ↦
      if t.id ∈ frozen then { t with cash_register_log_id := some shiftId } else t) (id : Uuid) :
    frozenCash d' id = frozenCash d id + if id = shiftId then d.cashSince tenantId openedAt else 0 := by
  have hcash : d.cashSince tenantId openedAt =
      sumOf (fun t : Transaction ↦ t.unfrozenSince tenantId openedAt ∧ IsCash t) (·.amount_cents)
        d.transactions.rows := rfl
  unfold frozenCash
  rw [hledger, sumOf_map]
  by_cases hid : id = shiftId
  · subst hid
    rw [if_pos rfl, hcash, ← sumOf_or]
    · refine sumOf_congr (fun t ht ↦ ?_) fun t _ ↦ ?_
      · unfold IsCash
        by_cases hmem : t.id ∈ frozen
        · have hsince := (hfrozen t ht).1 hmem
          simp [hmem, hsince]
        · have hsince : ¬t.unfrozenSince tenantId openedAt := fun h ↦ hmem ((hfrozen t ht).2 h)
          simp [hmem, hsince]
      · split <;> rfl
    · rintro t - ⟨⟨hlog, -⟩, hsince, -⟩
      rw [hsince.2.2.2.2] at hlog
      cases hlog
  · rw [if_neg hid, add_zero]
    refine sumOf_congr (fun t ht ↦ ?_) fun t _ ↦ ?_
    · unfold IsCash
      by_cases hmem : t.id ∈ frozen
      · have hnone := ((hfrozen t ht).1 hmem).2.2.2.2
        simp [hmem, hnone, Ne.symm hid]
      · simp [hmem]
    · split <;> rfl

theorem accounts_of_frozenCash {s : CashRegisterLog} (h : Accounts d s)
    (hcash : frozenCash d' s.id = frozenCash d s.id) : Accounts d' s where
  expected := hcash ▸ h.expected
  discrepancy := hcash ▸ h.discrepancy
  status := h.status
  note := h.note

/-- A shift accounts for its payments when it is closed. -/
theorem accounts_closedShift {dto : CloseTurnDto} {shift : CashRegisterLog} {cash : ℤ}
    (hcash : frozenCash d' shift.id = cash)
    (hnote : dto.actual_cash_cents ≠ shift.opening_cash_cents + cash →
      ∃ text, dto.note = some text ∧ text ≠ "") :
    Accounts d' (closedShift env dto shift cash) where
  expected := by
    rw [closedShift, hcash]
  discrepancy := ⟨dto.actual_cash_cents, rfl, by rw [closedShift, hcash]⟩
  status := by
    simp only [closedShift, Option.some.injEq]
    split <;> simp [*]
  note hstatus := by
    refine hnote fun heq ↦ hstatus ?_
    simp only [closedShift]
    exact if_pos (sub_eq_zero.2 heq)

theorem Books.step (h : Books d) (hstep : Booked env d d') : Books d' := by
  cases hstep with
  | other tweak rows hledger htweak hrows hshifts =>
    obtain ⟨opened, hshifts, hopened⟩ := hshifts
    constructor
    · intro t' ht' id hlog
      rw [hledger] at ht'
      rcases List.mem_append.1 ht' with ht' | ht'
      · obtain ⟨t, ht, rfl⟩ := List.mem_map.1 ht'
        rw [(htweak t).2] at hlog
        obtain ⟨s, hs, hid, hclosed⟩ := h.frozen t ht id hlog
        exact ⟨s, hshifts ▸ List.mem_append_left _ hs, hid, hclosed⟩
      · rw [hrows t' ht'] at hlog
        cases hlog
    · intro s hs hclosed
      rw [hshifts] at hs
      rcases List.mem_append.1 hs with hs | hs
      · exact accounts_of_frozenCash (h.closed s hs hclosed)
          (frozenCash_append hledger htweak hrows s.id)
      · exact (hclosed (hopened s hs)).elim
  | @close tenantId dto shift frozen hshift hnote hfrozen hledger hshifts =>
    obtain ⟨hmem, -, hopen⟩ := Db.openShift_eq_some.1 hshift
    have hmem : shift ∈ d.shifts.rows := (List.mem_filter.1 hmem).1
    constructor
    · intro t' ht' id hlog
      rw [hledger] at ht'
      obtain ⟨t, ht, rfl⟩ := List.mem_map.1 ht'
      by_cases hid : t.id ∈ frozen
      · rw [if_pos hid] at hlog
        obtain rfl : shift.id = id := Option.some.inj hlog
        refine ⟨closedShift env dto shift (d.cashSince tenantId shift.opened_at), ?_, rfl,
          closedShift_ne_open⟩
        rw [hshifts]
        exact List.mem_map.2 ⟨shift, hmem, if_pos rfl⟩
      · rw [if_neg hid] at hlog
        obtain ⟨s, hs, rfl, hclosed⟩ := h.frozen t ht id hlog
        refine ⟨s, hshifts ▸ List.mem_map.2 ⟨s, hs, if_neg fun heq ↦ ?_⟩, rfl, hclosed⟩
        obtain rfl := List.inj_on_of_nodup_map d.shifts.nodup hs hmem heq
        exact hclosed hopen
    · intro s' hs' hclosed
      rw [hshifts] at hs'
      obtain ⟨s, hs, rfl⟩ := List.mem_map.1 hs'
      by_cases hid : s.id = shift.id
      · rw [if_pos hid]
        refine accounts_closedShift ?_ hnote
        have hempty : frozenCash d shift.id = 0 := sumOf_eq_zero fun t ht hlog ↦ by
          obtain ⟨s', hs', hid', hclosed'⟩ := h.frozen t ht _ hlog.1
          obtain rfl := List.inj_on_of_nodup_map d.shifts.nodup hs' hmem hid'
          exact hclosed' hopen
        rw [frozenCash_close hfrozen hledger, hempty, if_pos rfl, zero_add]
      · rw [if_neg hid] at hclosed ⊢
        refine accounts_of_frozenCash (h.closed s hs hclosed) ?_
        rw [frozenCash_close hfrozen hledger, if_neg hid, add_zero]

/-- A frozen payment stays in its shift. -/
theorem Booked.keeps (hstep : Booked env d d') {t : Transaction} (ht : t ∈ d.transactions.rows)
    {id : Uuid} (hlog : t.cash_register_log_id = some id) :
    ∃ t' ∈ d'.transactions.rows, t'.toCore = t.toCore ∧ t'.cash_register_log_id = some id := by
  cases hstep with
  | other tweak rows hledger htweak =>
    refine ⟨tweak t, ?_, (htweak t).1, (htweak t).2.trans hlog⟩
    rw [hledger]
    exact List.mem_append_left _ (List.mem_map_of_mem ht)
  | @close _ _ _ frozen _ _ hfrozen hledger =>
    have hnot : t.id ∉ frozen := fun hid ↦ by
      rw [((hfrozen t ht).1 hid).2.2.2.2] at hlog
      cases hlog
    refine ⟨t, ?_, rfl, hlog⟩
    rw [hledger]
    exact List.mem_map.2 ⟨t, ht, if_neg hnot⟩

end Steps

/-! ## Serial runs -/

section Runs

variable {ι : Type} (req : ι → Request) (env : ι → Env)

/-- The database when the requests of `order` have been served one after the other. -/
def served (order : List ι) (d : Db) : Db :=
  (postgres.serial (fun i ↦ (req i).script (env i)) order d).2

variable {req env}

theorem served_append (order order' : List ι) (d : Db) :
    served req env (order ++ order') d = served req env order' (served req env order d) := by
  unfold served
  rw [Engine.serial_append]

theorem served_cons (i : ι) (order : List ι) (d : Db) :
    served req env (i :: order) d =
      served req env order (postgres.alone ((req i).script (env i)) [] d).2 := rfl

theorem books_served (req : ι → Request) (env : ι → Env) (order : List ι) {d : Db} (h : Books d) :
    Books (served req env order d) := by
  induction order generalizing d with
  | nil => exact h
  | cons i order ih =>
    rw [served_cons]
    exact ih (h.step (booked_alone (req i) (env i) rfl))

theorem frozen_served (order : List ι) {d : Db} {t : Transaction} (ht : t ∈ d.transactions.rows)
    {id : Uuid} (hlog : t.cash_register_log_id = some id) :
    ∃ t' ∈ (served req env order d).transactions.rows,
      t'.toCore = t.toCore ∧ t'.cash_register_log_id = some id := by
  induction order generalizing d t with
  | nil => exact ⟨t, ht, rfl, hlog⟩
  | cons i order ih =>
    obtain ⟨t₁, ht₁, hcore₁, hlog₁⟩ := (booked_alone (req i) (env i) rfl).keeps ht hlog
    obtain ⟨t₂, ht₂, hcore₂, hlog₂⟩ := ih ht₁ hlog₁
    exact ⟨t₂, ht₂, hcore₂.trans hcore₁, hlog₂⟩

/-- However requests are served one after the other, each closed shift accounts for exactly the
payments frozen into it, and a payment that is frozen stays in its shift. -/
theorem closed_shifts_account (req : ι → Request) (env : ι → Env) (tenants : Table Tenant)
    (order : List ι) :
    (∀ s ∈ (served req env order (Db.opened tenants)).shifts.rows, s.status ≠ .OPEN →
      Accounts (served req env order (Db.opened tenants)) s) ∧
    ∀ t ∈ (served req env order (Db.opened tenants)).transactions.rows, ∀ id,
      t.cash_register_log_id = some id →
        (∃ s ∈ (served req env order (Db.opened tenants)).shifts.rows,
          s.id = id ∧ s.status ≠ .OPEN) ∧
        ∀ order', ∃ t' ∈ (served req env (order ++ order') (Db.opened tenants)).transactions.rows,
          t'.toCore = t.toCore ∧ t'.cash_register_log_id = some id := by
  have hbooks := books_served req env order (books_opened tenants)
  refine ⟨hbooks.closed, fun t ht id hlog ↦ ⟨hbooks.frozen t ht id hlog, fun order' ↦ ?_⟩⟩
  rw [served_append]
  exact frozen_served order' ht hlog

end Runs

end MicroErp.Guarantees
