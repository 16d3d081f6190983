import MicroErp.Guarantees.Overflow
import MicroErp.Guarantees.Shifts
import MicroErp.Services.DashboardService

/-!
# Totals that are cast to an integer

The sums of the cash desk and of the dashboard run over any number of rows.  They fail exactly when
what is owed, what moved in a week or what a shift took in is too much for the column type.
-/

namespace MicroErp.Guarantees

open MicroErp.Commits MicroErp.Concurrency MicroErp.Database MicroErp.Services MicroErp.Storage

variable {env : Env} {tenantId : Uuid} {d v : Db}

/-! ## Closing a shift alone -/

section Closing

theorem eval_lockTenant (tenantId : Uuid) (v : Db) :
    postgres.eval (lockTenant tenantId) v = match v.tenants.find tenantId with
      | none => .error (.notFound "Tenant no encontrado")
      | some t => .ok (t, v) := by
  rw [lockTenant, Engine.eval_bind, eval_query]
  simp only [Sql.exec, Except.map]
  cases v.tenants.find tenantId <;> rfl

/-- The integers that closing a shift stores. -/
def closingNumbers (shift : CashRegisterLog) : List (Option ℤ) :=
  [shift.expected_cash_cents, shift.actual_cash_cents, shift.discrepancy_cents]

theorem eval_saveShift {shift mem : CashRegisterLog} (hshift : v.shifts.find mem.id = some shift)
    (hne : mem ≠ shift) : postgres.eval (saveShift mem) v =
      if ∀ n ∈ closingNumbers mem, ∀ m ∈ n, Int4 m then
        .ok ((), postgres.view [.updateShift mem shift] v)
      else .error outOfRange := by
  rw [saveShift, saveEntity, Engine.eval_bind, eval_query]
  simp only [Sql.exec, Except.map, hshift]
  change postgres.eval (if mem = shift then Prog.ret () else query (.updateShift mem shift)) v = _
  rw [if_neg hne, eval_query]
  simp only [Sql.exec, Sql.writing]
  split
  · rename_i hfits
    exact (if_pos hfits).symm
  · rename_i hlarge
    exact (if_neg hlarge).symm

theorem eval_freezeTransactions (tenantId : Uuid) (openedAt : Timestamp) (shiftId : Uuid)
    (ids : List Uuid) (v : Db) : ∃ table, postgres.eval
      (freezeTransactions tenantId openedAt shiftId ids) v =
        .ok ((), { v with transactions := table }) := by
  induction ids generalizing v with
  | nil => exact ⟨v.transactions, rfl⟩
  | cons id ids ih =>
    rw [freezeTransactions, Engine.eval_bind, eval_query]
    simp only [Sql.exec]
    split
    · obtain ⟨table, hrest⟩ := ih (postgres.view [.freezeTransaction id shiftId] v)
      exact ⟨table, hrest⟩
    · exact ih v

/-- The tenant's semaphore names this shift, and it is open. -/
structure Active (d : Db) (t : Tenant) (shift : CashRegisterLog) : Prop where
  tenant : d.tenants.find t.id = some t
  named : t.active_cash_shift_id = some shift.id
  isOpen : d.openShift t.id shift.id = some shift

variable {t : Tenant} {shift : CashRegisterLog}

/-- A difference without a note is refused before anything is written. -/
def Unexplained (dto : CloseTurnDto) (shift : CashRegisterLog) (cash : ℤ) : Prop :=
  dto.actual_cash_cents - (shift.opening_cash_cents + cash) ≠ 0 ∧
    (dto.note.filter fun s ↦ s ≠ "") = none

instance (dto : CloseTurnDto) (shift : CashRegisterLog) (cash : ℤ) :
    Decidable (Unexplained dto shift cash) := inferInstanceAs (Decidable (_ ∧ _))

/-- What is left of closing a shift when its cash is counted. -/
def storeClosing (env : Env) (t : Tenant) (shift closed : CashRegisterLog) :
    Script CashRegisterLog := do
  saveShift closed
  let rows ← query (.selectUnfrozen t.id shift.opened_at)
  freezeTransactions t.id shift.opened_at shift.id (env.scan rows)
  saveTenant { t with active_cash_shift_id := none }
  Prog.commitTransaction
  pure closed

theorem eval_closeTurn_of_large (h : Active d t shift) (dto : CloseTurnDto)
    (hlarge : ¬Int4 (d.cashSince t.id shift.opened_at)) :
    postgres.eval (closeTurn env t.id dto) d = .error outOfRange := by
  rw [closeTurn, Engine.eval_bind, eval_lockTenant, h.tenant]
  simp only [ok_bind, h.named]
  rw [Engine.eval_bind, eval_query]
  simp only [Sql.exec, Except.map, ok_bind, Engine.view_nil, h.isOpen]
  rw [Engine.eval_bind, eval_query]
  simp only [Sql.exec, if_neg hlarge]
  rfl

theorem eval_closeTurn_of_fits (h : Active d t shift) (dto : CloseTurnDto)
    (hfits : Int4 (d.cashSince t.id shift.opened_at)) :
    postgres.eval (closeTurn env t.id dto) d =
      if Unexplained dto shift (d.cashSince t.id shift.opened_at) then
        .error (.unprocessableEntity "Debe incluir una nota explicando el motivo del descuadre")
      else postgres.eval (storeClosing env t shift
        (closedShift env dto shift (d.cashSince t.id shift.opened_at))) d := by
  rw [closeTurn, Engine.eval_bind, eval_lockTenant, h.tenant]
  simp only [ok_bind, h.named]
  rw [Engine.eval_bind, eval_query]
  simp only [Sql.exec, Except.map, ok_bind, Engine.view_nil, h.isOpen]
  rw [Engine.eval_bind, eval_query]
  simp only [Sql.exec, if_pos hfits, Except.map, ok_bind, Engine.view_nil]
  by_cases hnote : Unexplained dto shift (d.cashSince t.id shift.opened_at)
  · rw [if_pos hnote]
    exact congrArg (fun p : Script CashRegisterLog ↦ postgres.eval p d) (if_pos hnote)
  · rw [if_neg hnote]
    exact congrArg (fun p : Script CashRegisterLog ↦ postgres.eval p d) (if_neg hnote)

theorem eval_storeClosing (h : Active d t shift) {closed : CashRegisterLog}
    (hid : closed.id = shift.id) (hclosed : closed.status ≠ .OPEN) :
    ((∀ n ∈ closingNumbers closed, ∀ m ∈ n, Int4 m) →
        ∃ x, postgres.eval (storeClosing env t shift closed) d = .ok x) ∧
      ((¬∀ n ∈ closingNumbers closed, ∀ m ∈ n, Int4 m) →
        postgres.eval (storeClosing env t shift closed) d = .error outOfRange) := by
  obtain ⟨hfound, hopen⟩ := Option.filter_eq_some_iff.1 h.isOpen
  have hne : closed ≠ shift := by
    rintro rfl
    exact hclosed (of_decide_eq_true hopen).2
  rw [← hid] at hfound
  rw [storeClosing, Engine.eval_bind, eval_saveShift hfound hne]
  constructor
  · intro hfits
    rw [if_pos hfits, ok_bind, Engine.eval_bind, eval_query]
    simp only [Sql.exec, Except.map, ok_bind, Engine.view_nil]
    set v := postgres.view [.updateShift closed shift] d with hv
    obtain ⟨table, hfrozen⟩ := eval_freezeTransactions t.id shift.opened_at shift.id
      (env.scan ((v.transactions.rows.filter fun r ↦ r.unfrozenSince t.id shift.opened_at).map
        (·.id))) v
    have hsaved := eval_saveTenant { t with active_cash_shift_id := none }
      { v with transactions := table } h.tenant
    rw [Engine.eval_bind, hfrozen, ok_bind, Engine.eval_bind, hsaved]
    exact ⟨(closed, _), rfl⟩
  · intro hlarge
    rw [if_neg hlarge, error_bind]

theorem eval_storeClosed (h : Active d t shift) (env : Env) (dto : CloseTurnDto) (cash : ℤ) :
    ((∀ n ∈ closingNumbers (closedShift env dto shift cash), ∀ m ∈ n, Int4 m) → ∃ x,
        postgres.eval (storeClosing env t shift (closedShift env dto shift cash)) d = .ok x) ∧
      ((¬∀ n ∈ closingNumbers (closedShift env dto shift cash), ∀ m ∈ n, Int4 m) →
        postgres.eval (storeClosing env t shift (closedShift env dto shift cash)) d =
          .error outOfRange) :=
  eval_storeClosing h rfl closedShift_ne_open

theorem transactional_closeTurn (env : Env) (tenantId : Uuid) (dto : CloseTurnDto) :
    (closeTurn env tenantId dto).Transactional postgres := by
  have hlock : (lockTenant tenantId).Silent :=
    (silent_query _).bind_silent fun row ↦ by cases row <;> trivial
  have hfreeze : ∀ openedAt shiftId ids,
      (freezeTransactions tenantId openedAt shiftId ids).Silent := by
    intro openedAt shiftId ids
    induction ids with
    | nil => trivial
    | cons id ids ih => exact (silent_query _).bind_silent fun _ ↦ ih
  refine Prog.Silent.bind_transactional hlock fun t ↦ ?_
  split
  · trivial
  refine Prog.Silent.bind_transactional (silent_query _) fun found ↦ ?_
  split
  · trivial
  refine Prog.Silent.bind_transactional (silent_query _) fun cash ↦ ?_
  dsimp only
  split
  · trivial
  refine Prog.Silent.bind_transactional
    (silent_saveEntity (silent_query _) fun _ ↦ silent_query _) fun _ ↦ ?_
  refine Prog.Silent.bind_transactional (silent_query _) fun rows ↦ ?_
  refine Prog.Silent.bind_transactional (hfreeze _ _ _) fun _ ↦ ?_
  exact Prog.Silent.bind_transactional
    (silent_saveEntity (silent_query _) fun _ ↦ silent_query _) fun _ ↦ trivial

end Closing

/-! ## Reachable databases -/

/-- The opening amount of a shift is the one of its request. -/
theorem opening_of_reachable (hd : Reachable d) : ∀ s ∈ d.shifts.rows, 0 ≤ s.opening_cash_cents := by
  obtain ⟨ι, _, req, env, tenants, es, hids, rfl⟩ := hd
  obtain ⟨hC, hsound⟩ := sound_both (K := fun _ ↦ Desk.plain) (fun _ ↦ id) hids
    (fun i ↦ unused_opened (env i) tenants) (wellFormed_opened tenants)
  refine hsound.history hC (J := fun d _ ↦ ∀ s ∈ d.shifts.rows, 0 ≤ s.opening_cash_cents)
    (.of_forall fun i o v ↦ ⟨allow_plain (req i) (env i) o v, allow_desk_plain (req i) o v⟩)
    (fun _ hs ↦ (List.not_mem_nil hs).elim) fun i lk ws d log hJ hguar _ s hs ↦ ?_
  generalize req i = r at hguar
  cases hguar.2.shiftStep with
  | keep _ hshifts _ =>
    rw [hshifts] at hs
    exact hJ s hs
  | @«open» tenantId userId dto tenant _ _ _ hshifts _ =>
    rw [hshifts] at hs
    rcases List.mem_append.1 hs with hs | hs
    · exact hJ s hs
    · obtain rfl := List.mem_singleton.1 hs
      have hvalid := dto.opening_cash_valid
      change 0 ≤ dto.opening_cash_cents.getD 0
      cases hopening : dto.opening_cash_cents with
      | none => rfl
      | some n =>
        rw [hopening] at hvalid
        exact of_decide_eq_true hvalid
  | @close tenantId dto tenant shift counted _ _ hshift _ _ _ hshifts _ =>
    rw [hshifts] at hs
    obtain ⟨x, hx, rfl⟩ := List.mem_map.1 hs
    split
    · exact hJ shift (Table.find_eq_some.1 (Option.filter_eq_some_iff.1 hshift).1).1
    · exact hJ x hx

/-! ## Sums of rows -/

section Sums

variable (hd : FitsColumns d)

include hd

/-- What moved in a shorter time is less. -/
theorem movedSince_le (tenantId : Uuid) (type : TransactionType) {since since' : Timestamp} (h : since' ≤ since) :
    d.movedSince tenantId type since ≤ d.movedSince tenantId type since' := by
  refine List.Sublist.sum_le_sum ((List.monotone_filter_right _ fun t ht ↦ ?_).map _) fun n hn ↦ ?_
  · obtain ⟨htenant, htype, hsince, hreversed⟩ := of_decide_eq_true ht
    exact decide_eq_true ⟨htenant, htype, h.trans hsince, hreversed⟩
  · obtain ⟨t, ht, rfl⟩ := List.mem_map.1 hn
    exact hd.amounts t (List.mem_filter.1 ht).1

theorem movedSince_nonneg (type : TransactionType) (since : Timestamp) :
    0 ≤ d.movedSince tenantId type since := by
  refine List.sum_nonneg fun n hn ↦ ?_
  obtain ⟨t, ht, rfl⟩ := List.mem_map.1 hn
  exact hd.amounts t (List.mem_filter.1 ht).1

theorem cashSince_nonneg (tenantId : Uuid) (openedAt : Timestamp) : 0 ≤ d.cashSince tenantId openedAt := by
  refine List.sum_nonneg fun n hn ↦ ?_
  obtain ⟨t, ht, rfl⟩ := List.mem_map.1 hn
  exact hd.amounts t (List.mem_filter.1 ht).1

theorem transfersSince_nonneg (openedAt : Timestamp) : 0 ≤ d.transfersSince tenantId openedAt := by
  refine List.sum_nonneg fun n hn ↦ ?_
  obtain ⟨t, ht, rfl⟩ := List.mem_map.1 hn
  exact hd.amounts t (List.mem_filter.1 ht).1

end Sums

theorem totalReceivable_nonneg (tenantId : Uuid) (d : Db) : 0 ≤ d.totalReceivable tenantId := by
  refine List.sum_nonneg fun n hn ↦ ?_
  obtain ⟨c, hc, rfl⟩ := List.mem_map.1 hn
  exact (of_decide_eq_true (List.mem_filter.1 hc).2 : 0 < c.balance_cents).le

theorem startOfDay_le {s t : ℤ} (h : s ≤ t) : startOfDay s ≤ startOfDay t := by
  change s - s % 86400000 ≤ t - t % 86400000
  omega

/-! ## The totals -/

theorem castInt4_bind_ne {α : Type} {n : ℤ} {f : ℤ → Except ServiceError α} :
    castInt4 n >>= f ≠ .error outOfRange ↔ Int4 n ∧ f n ≠ .error outOfRange := by
  unfold castInt4
  split
  · rename_i h
    rw [ok_bind]
    exact (and_iff_right h).symm
  · rename_i h
    exact iff_of_false (fun hne ↦ hne rfl) fun hand ↦ h hand.1

/-- The first moment of the week of the dashboard. -/
def weekStart (now : Timestamp) : Timestamp := startOfDay (addDays now (-7))

theorem getMetrics_fits (env : Env) (hd : FitsColumns d) :
    getMetrics env tenantId d ≠ .error outOfRange ↔ d.totalReceivable tenantId ≤ maxInt4 ∧
      d.movedSince tenantId .PAYMENT (weekStart env.clock) ≤ maxInt4 ∧
      d.movedSince tenantId .DEBT (weekStart env.clock) ≤ maxInt4 := by
  have hday : weekStart env.clock ≤ startOfDay env.clock :=
    startOfDay_le (add_le_of_nonpos_right (by decide))
  have hpayments := movedSince_le hd tenantId .PAYMENT hday
  have hdebts := movedSince_le hd tenantId .DEBT hday
  unfold getMetrics
  simp only [castInt4_bind_ne, int4_iff (totalReceivable_nonneg _ _),
    int4_iff (movedSince_nonneg hd _ _)]
  constructor
  · rintro ⟨howed, -, -, hcollected, hlent, -⟩
    exact ⟨howed, hcollected, hlent⟩
  · rintro ⟨howed, hcollected, hlent⟩
    exact ⟨howed, hpayments.trans hcollected, hdebts.trans hlent, hcollected, hlent,
      fun h ↦ by cases h⟩

/-- Rows may be met in an order that begins with any of them. -/
def firstScan (env : Env) (id : Uuid) : Env :=
  { env with
    scan := fun ids ↦ if id ∈ ids then id :: ids.erase id else ids
    scan_perm := fun ids ↦ by
      split
      · rename_i h
        exact (List.perm_cons_erase h).symm
      · exact .refl _ }

theorem getActiveSummary_fits (tenantId : Uuid) (d : Db) :
    (∀ env, getActiveSummary env tenantId d ≠ .error outOfRange) ↔
      ∀ s ∈ openShiftsOf d tenantId, TotalsFit tenantId d s := by
  have hsummary : ∀ env s, (env.ordered (·.id) (openShiftsOf d tenantId)).head? = some s →
      (getActiveSummary env tenantId d ≠ .error outOfRange ↔ TotalsFit tenantId d s) := by
    intro env s hs
    unfold openShiftsOf at hs
    unfold getActiveSummary
    simp only [hs, castInt4_bind_ne, TotalsFit]
    exact and_congr_right fun _ ↦ and_congr_right fun _ ↦ and_iff_left fun h ↦ by cases h
  constructor
  · intro h s hs
    refine (hsummary (firstScan (sampleEnv 0) s.id) s ?_).1 (h _)
    have hmem : s.id ∈ (openShiftsOf d tenantId).map (·.id) := List.mem_map_of_mem hs
    have hscan : (firstScan (sampleEnv 0) s.id).scan ((openShiftsOf d tenantId).map (·.id)) =
        s.id :: ((openShiftsOf d tenantId).map (·.id)).erase s.id := if_pos hmem
    have hfind : (openShiftsOf d tenantId).find? (fun r ↦ r.id = s.id) = some s := by
      obtain ⟨s', hs'⟩ := Option.isSome_iff_exists.1
        (List.find?_isSome (p := fun r : CashRegisterLog ↦ r.id = s.id).2 ⟨s, hs, by simp⟩)
      have hid : s'.id = s.id := by simpa using List.find?_some hs'
      rw [hs', List.inj_on_of_nodup_map d.shifts.nodup
        (List.mem_filter.1 (List.mem_of_find?_eq_some hs')).1 (List.mem_filter.1 hs).1 hid]
    rw [Env.ordered, hscan, List.filterMap_cons, hfind]
    rfl
  · intro h env
    cases hhead : (env.ordered (·.id) (openShiftsOf d tenantId)).head? with
    | none =>
      unfold openShiftsOf at hhead
      unfold getActiveSummary
      simp only [hhead]
      exact fun h ↦ by cases h
    | some s =>
      exact (hsummary env s hhead).2 (h s (Env.mem_of_mem_ordered (List.mem_of_mem_head? hhead)))

/-! ## Shifts that can be closed -/

section Closable

variable {t : Tenant} {shift : CashRegisterLog} {dto : CloseTurnDto}

theorem active_iff (ht : t ∈ d.tenants.rows) :
    Active d t shift ↔ shift ∈ openShiftsOf d t.id ∧ t.active_cash_shift_id = some shift.id := by
  have hfound : d.tenants.find t.id = some t := Table.find_eq_some.2 ⟨ht, rfl⟩
  have hopen : d.openShift t.id shift.id = some shift ↔ shift ∈ openShiftsOf d t.id := by
    unfold openShiftsOf
    rw [Db.openShift_eq_some, Db.shiftsOf, List.mem_filter, List.mem_filter]
    simp only [decide_eq_true_eq]
    tauto
  constructor
  · intro h
    exact ⟨hopen.1 h.isOpen, h.named⟩
  · rintro ⟨hmem, hnamed⟩
    exact ⟨hfound, hnamed, hopen.2 hmem⟩

/-- Without a shift that is open, closing is refused for another reason. -/
theorem active_or_refused (ht : t ∈ d.tenants.rows) (env : Env) (dto : CloseTurnDto) :
    (∃ shift, Active d t shift) ∨
      ∃ e, postgres.eval (closeTurn env t.id dto) d = .error e ∧ e ≠ outOfRange := by
  have hfound : d.tenants.find t.id = some t := Table.find_eq_some.2 ⟨ht, rfl⟩
  rw [closeTurn, Engine.eval_bind, eval_lockTenant, hfound]
  simp only [ok_bind]
  cases hnamed : t.active_cash_shift_id with
  | none => exact Or.inr ⟨_, rfl, ServiceError.noConfusion⟩
  | some id =>
    simp only
    rw [Engine.eval_bind, eval_query]
    simp only [Sql.exec, Except.map, ok_bind, Engine.view_nil]
    cases hopen : d.openShift t.id id with
    | none => exact Or.inr ⟨_, rfl, ServiceError.noConfusion⟩
    | some shift =>
      have hid : shift.id = id := (Db.openShift_eq_some.1 hopen).2.1
      exact Or.inl ⟨shift, hfound, hid ▸ hnamed, hid ▸ hopen⟩

/-- The numbers of a shift that is closed with an amount in range. -/
theorem closingNumbers_fit (hcounted : Int4 dto.actual_cash_cents) {cash : ℤ}
    (hnonneg : 0 ≤ shift.opening_cash_cents + cash)
    (hfits : shift.opening_cash_cents + cash ≤ maxInt4) :
    ∀ n ∈ closingNumbers (closedShift env dto shift cash), ∀ m ∈ n, Int4 m := by
  have hactual := dto.actual_cash_valid
  unfold Int4 at *
  unfold maxInt4 at hfits
  simp only [closingNumbers, closedShift, List.forall_mem_cons, Option.mem_some_iff, forall_eq',
    List.not_mem_nil, false_imp_iff, implies_true, and_true]
  omega

variable (hd : Reachable d)

include hd

/-- What a shift can be closed with is what it took in, if that fits. -/
theorem closable_iff (ht : t ∈ d.tenants.rows) (env : Env) :
    (∃ dto, (postgres.alone ((Request.closeTurn t.id dto).script env) [] d).1.isOk) ↔
      ∃ s ∈ openShiftsOf d t.id, t.active_cash_shift_id = some s.id ∧
        s.opening_cash_cents + d.cashSince t.id s.opened_at ≤ maxInt4 := by
  have hfits := fitsColumns_of_reachable hd
  have hopening : ∀ s ∈ openShiftsOf d t.id, 0 ≤ s.opening_cash_cents := fun s hs ↦
    opening_of_reachable hd s (List.mem_filter.1 hs).1
  have hanswer : ∀ a : CashRegisterLog, (pure (Answer.shift a) : Script Answer).ReadsOnly postgres :=
    fun _ ↦ trivial
  have hok : ∀ dto, (postgres.alone ((Request.closeTurn t.id dto).script env) [] d).1.isOk ↔
      ∃ x, postgres.eval (closeTurn env t.id dto) d = .ok x := by
    intro dto
    rw [Request.script, (Engine.alone_of_transactional ((transactional_closeTurn env t.id dto).bind
      hanswer) [] d).1, Engine.view_nil, Engine.eval_bind]
    cases postgres.eval (closeTurn env t.id dto) d <;> simp [Except.map, Except.isOk, Except.toBool]
  constructor
  · rintro ⟨dto, h⟩
    obtain ⟨x, hx⟩ := (hok dto).1 h
    rcases active_or_refused ht env dto with ⟨shift, hactive⟩ | ⟨e, he, -⟩
    · obtain ⟨hmem, hnamed⟩ := (active_iff ht).1 hactive
      refine ⟨shift, hmem, hnamed, ?_⟩
      by_cases hint : Int4 (d.cashSince t.id shift.opened_at)
      · rw [eval_closeTurn_of_fits hactive dto hint] at hx
        split at hx
        · cases hx
        by_contra hlarge
        have hfails := (eval_storeClosed hactive env dto (d.cashSince t.id shift.opened_at)).2
          fun hall ↦ hlarge (hall (some _) List.mem_cons_self _ rfl).2
        rw [hfails] at hx
        cases hx
      · rw [eval_closeTurn_of_large hactive dto hint] at hx
        cases hx
    · rw [he] at hx
      cases hx
  · rintro ⟨s, hs, hnamed, hle⟩
    have hactive := (active_iff ht).2 ⟨hs, hnamed⟩
    have hcash := cashSince_nonneg hfits t.id s.opened_at
    have hnonneg := add_nonneg (hopening s hs) hcash
    let dto : CloseTurnDto :=
      { actual_cash_cents := s.opening_cash_cents + d.cashSince t.id s.opened_at, note := none
        actual_cash_valid := hnonneg }
    refine ⟨dto, (hok dto).2 ?_⟩
    have hint : Int4 (d.cashSince t.id s.opened_at) := (int4_iff hcash).2
      ((le_add_of_nonneg_left (hopening s hs)).trans hle)
    rw [eval_closeTurn_of_fits hactive dto hint, if_neg fun h ↦ h.1 (sub_self _)]
    exact (eval_storeClosed hactive env dto _).1
      (closingNumbers_fit ((int4_iff hnonneg).2 hle : Int4 dto.actual_cash_cents) hnonneg hle)

end Closable

/-! ## Totals that never fail -/

/-- No total of the tenant is out of range at this time, in whatever order rows are met, nor is the
difference with an amount that `counts`; and a shift that is open can be closed. -/
structure TotalsNeverFail (counts : ℤ → Prop) (t : Tenant) (now : Timestamp) (d : Db) : Prop where
  summary : ∀ env, getActiveSummary env t.id d ≠ .error outOfRange
  metrics : ∀ env, env.clock = now → getMetrics env t.id d ≠ .error outOfRange
  closing : ∀ env dto, counts dto.actual_cash_cents → ¬Overflows (.closeTurn t.id dto) env d
  closable : openShiftsOf d t.id ≠ [] →
    ∀ env, ∃ dto, (postgres.alone ((Request.closeTurn t.id dto).script env) [] d).1.isOk

/-- What is owed, what moved in a week and what an open shift took in fits the columns, and the
semaphore names an open shift if there is one. -/
structure TotalsWithin (t : Tenant) (now : Timestamp) (d : Db) : Prop where
  owed : d.totalReceivable t.id ≤ maxInt4
  collected : d.movedSince t.id .PAYMENT (weekStart now) ≤ maxInt4
  lent : d.movedSince t.id .DEBT (weekStart now) ≤ maxInt4
  shown : ∀ s ∈ openShiftsOf d t.id, d.cashSince t.id s.opened_at ≤ maxInt4 ∧
    d.paymentCount t.id s.opened_at ≤ maxInt4 ∧ d.transfersSince t.id s.opened_at ≤ maxInt4
  closable : openShiftsOf d t.id ≠ [] → ∃ s ∈ openShiftsOf d t.id,
    t.active_cash_shift_id = some s.id ∧
      s.opening_cash_cents + d.cashSince t.id s.opened_at ≤ maxInt4

section Totals

variable {t : Tenant} {now : Timestamp}

theorem totalsFit_iff (hd : FitsColumns d) {s : CashRegisterLog} : TotalsFit tenantId d s ↔
    d.cashSince tenantId s.opened_at ≤ maxInt4 ∧ d.paymentCount tenantId s.opened_at ≤ maxInt4 ∧
      d.transfersSince tenantId s.opened_at ≤ maxInt4 := by
  have hcount : 0 ≤ d.paymentCount tenantId s.opened_at := Int.natCast_nonneg _
  rw [TotalsFit, int4_iff (cashSince_nonneg hd _ _), int4_iff hcount,
    int4_iff (transfersSince_nonneg hd _)]

theorem totalsWithin_of_neverFail (hd : Reachable d) (ht : t ∈ d.tenants.rows)
    (h : TotalsNeverFail Int4 t now d) : TotalsWithin t now d := by
  have hfits := fitsColumns_of_reachable hd
  obtain ⟨howed, hcollected, hlent⟩ :=
    (getMetrics_fits { sampleEnv 0 with clock := now } hfits).1 (h.metrics _ rfl)
  refine ⟨howed, hcollected, hlent, fun s hs ↦ ?_, fun hne ↦ ?_⟩
  · exact (totalsFit_iff hfits).1 ((getActiveSummary_fits t.id d).1 h.summary s hs)
  · exact (closable_iff hd ht (sampleEnv 0)).1 (h.closable hne (sampleEnv 0))

theorem not_overflows_closeTurn (hd : Reachable d) (ht : t ∈ d.tenants.rows)
    (h : TotalsWithin t now d) (env : Env) {dto : CloseTurnDto}
    (hcounted : openShiftsOf d t.id ≠ [] → Int4 dto.actual_cash_cents) :
    ¬Overflows (.closeTurn t.id dto) env d := by
  have hfits := fitsColumns_of_reachable hd
  intro hoverflow
  rw [Overflows, Request.script, overflows_iff (transactional_closeTurn env t.id dto)] at hoverflow
  rcases active_or_refused ht env dto with ⟨shift, hactive⟩ | ⟨e, he, hne⟩
  · obtain ⟨hmem, hnamed⟩ := (active_iff ht).1 hactive
    have hopen := List.ne_nil_of_mem hmem
    obtain ⟨s, hs, hnamed', hle⟩ := h.closable hopen
    obtain rfl : s = shift := List.inj_on_of_nodup_map d.shifts.nodup (List.mem_filter.1 hs).1
      (List.mem_filter.1 hmem).1 (Option.some.inj (hnamed'.symm.trans hnamed))
    have hcash := cashSince_nonneg hfits t.id s.opened_at
    have hopening := opening_of_reachable hd s (List.mem_filter.1 hs).1
    rw [eval_closeTurn_of_fits hactive dto ((int4_iff hcash).2 (h.shown s hs).1)] at hoverflow
    split at hoverflow
    · cases hoverflow
    obtain ⟨x, hx⟩ := (eval_storeClosed hactive env dto _).1
      (closingNumbers_fit (hcounted hopen) (add_nonneg hopening hcash) hle)
    rw [hx] at hoverflow
    cases hoverflow
  · rw [he] at hoverflow
    exact hne (Except.error.inj hoverflow)

theorem neverFail_of_totalsWithin (hd : Reachable d) (ht : t ∈ d.tenants.rows)
    (h : TotalsWithin t now d) {counts : ℤ → Prop}
    (hcounts : openShiftsOf d t.id ≠ [] → ∀ n, counts n → Int4 n) :
    TotalsNeverFail counts t now d := by
  have hfits := fitsColumns_of_reachable hd
  refine ⟨?_, fun env henv ↦ ?_, fun env dto hcounted ↦ ?_, fun hne env ↦ ?_⟩
  · exact (getActiveSummary_fits t.id d).2 fun s hs ↦ (totalsFit_iff hfits).2 (h.shown s hs)
  · subst henv
    exact (getMetrics_fits _ hfits).2 ⟨h.owed, h.collected, h.lent⟩
  · exact not_overflows_closeTurn hd ht h env fun hne ↦ hcounts hne _ hcounted
  · exact (closable_iff hd ht env).2 (h.closable hne)

/-- The totals never fail exactly when they are within range; and since no amount is too much to be
sent, closing never fails either only where nothing is open. -/
theorem totals_fit_iff (hd : Reachable d) (ht : t ∈ d.tenants.rows) (now : Timestamp) :
    (TotalsNeverFail Int4 t now d ↔ TotalsWithin t now d) ∧
      (TotalsNeverFail (fun _ ↦ True) t now d ↔
        TotalsWithin t now d ∧ openShiftsOf d t.id = []) := by
  refine ⟨⟨totalsWithin_of_neverFail hd ht, fun h ↦
    neverFail_of_totalsWithin hd ht h fun _ _ hn ↦ hn⟩, fun h ↦ ?_, fun ⟨h, hnone⟩ ↦
    neverFail_of_totalsWithin hd ht h fun hne ↦ (hne hnone).elim⟩
  have hwithin : TotalsWithin t now d := totalsWithin_of_neverFail hd ht
    { h with closing := fun env dto _ ↦ h.closing env dto trivial }
  refine ⟨hwithin, by_contra fun hne ↦ ?_⟩
  obtain ⟨s, hs, hnamed, -⟩ := hwithin.closable hne
  have hactive := (active_iff ht).2 ⟨hs, hnamed⟩
  have hcash := cashSince_nonneg (fitsColumns_of_reachable hd) t.id s.opened_at
  let dto : CloseTurnDto := { actual_cash_cents := maxInt4 + 1, note := some "Sobra" }
  refine h.closing (sampleEnv 0) dto trivial ?_
  rw [Overflows, Request.script, overflows_iff (transactional_closeTurn _ t.id dto),
    eval_closeTurn_of_fits hactive dto ((int4_iff hcash).2 (hwithin.shown s hs).1),
    if_neg fun hnote ↦ by cases hnote.2]
  refine (eval_storeClosed hactive (sampleEnv 0) dto _).2 fun hall ↦ ?_
  have hlarge := (hall (some (maxInt4 + 1)) (List.mem_cons_of_mem _ List.mem_cons_self) _ rfl).2
  revert hlarge
  decide

end Totals

/-! ## A shift that cannot be closed -/

def largestCash (customerId key : Uuid) : CreatePaymentDto :=
  { largestTransfer customerId key with payment_method := none }

/-- Carla runs up the highest debt twice and pays it in cash while a shift is open. -/
def cashing : Fin 6 → Request
  | 0 => .createCustomer 1 carla
  | 1 => .openTurn 1 2 openingTurn
  | 2 => .registerDebt 1 2 (largestDebt 100 7)
  | 3 => .registerPayment 1 2 (largestCash 100 8)
  | 4 => .registerDebt 1 2 (largestDebt 100 9)
  | 5 => .registerPayment 1 2 (largestCash 100 10)

def cashed (order : List (Event (Fin 6))) : Db :=
  (postgres.run (serve cashing (fun i ↦ sampleEnv i) (Db.opened sampleTenants)) order).db

theorem reachable_cashed (order : List (Event (Fin 6))) : Reachable (cashed order) :=
  ⟨Fin 6, inferInstance, cashing, fun i ↦ sampleEnv i, sampleTenants, order,
    freshIds_sample Fin.val_injective (by decide) (by decide), rfl⟩

/-- The summary, the dashboard and every attempt to close the shift fail. -/
theorem totals_overflow :
    ∃ t ∈ (cashed transferringOrder).tenants.rows, Reachable (cashed transferringOrder) ∧
      getActiveSummary (sampleEnv 6) t.id (cashed transferringOrder) = .error outOfRange ∧
      getMetrics (sampleEnv 6) t.id (cashed transferringOrder) = .error outOfRange ∧
      openShiftsOf (cashed transferringOrder) t.id ≠ [] ∧
      ∀ env, ¬∃ dto, (postgres.alone ((Request.closeTurn t.id dto).script env) []
        (cashed transferringOrder)).1.isOk := by
  have hstate : ∃ t ∈ (cashed transferringOrder).tenants.rows,
      getActiveSummary (sampleEnv 6) t.id (cashed transferringOrder) = .error outOfRange ∧
      getMetrics (sampleEnv 6) t.id (cashed transferringOrder) = .error outOfRange ∧
      openShiftsOf (cashed transferringOrder) t.id ≠ [] ∧
      ∀ s ∈ openShiftsOf (cashed transferringOrder) t.id,
        ¬s.opening_cash_cents + (cashed transferringOrder).cashSince t.id s.opened_at ≤ maxInt4 := by
    decide +kernel
  obtain ⟨t, ht, hsummary, hmetrics, hopen, hlarge⟩ := hstate
  refine ⟨t, ht, reachable_cashed _, hsummary, hmetrics, hopen, fun env h ↦ ?_⟩
  obtain ⟨s, hs, -, hle⟩ := (closable_iff (reachable_cashed _) ht env).1 h
  exact hlarge s hs hle

/-- One payment fits. -/
theorem totals_fit_iff_cashed : ∃ t ∈ (cashed transferredOnce).tenants.rows,
    TotalsNeverFail Int4 t 6 (cashed transferredOnce) := by
  have hstate : ∃ t ∈ (cashed transferredOnce).tenants.rows,
      (cashed transferredOnce).totalReceivable t.id ≤ maxInt4 ∧
      (cashed transferredOnce).movedSince t.id .PAYMENT (weekStart 6) ≤ maxInt4 ∧
      (cashed transferredOnce).movedSince t.id .DEBT (weekStart 6) ≤ maxInt4 ∧
      (∀ s ∈ openShiftsOf (cashed transferredOnce) t.id,
        (cashed transferredOnce).cashSince t.id s.opened_at ≤ maxInt4 ∧
        (cashed transferredOnce).paymentCount t.id s.opened_at ≤ maxInt4 ∧
        (cashed transferredOnce).transfersSince t.id s.opened_at ≤ maxInt4) ∧
      ∃ s ∈ openShiftsOf (cashed transferredOnce) t.id, t.active_cash_shift_id = some s.id ∧
        s.opening_cash_cents + (cashed transferredOnce).cashSince t.id s.opened_at ≤ maxInt4 := by
    decide +kernel
  obtain ⟨t, ht, howed, hcollected, hlent, hshown, hclosable⟩ := hstate
  exact ⟨t, ht, (totals_fit_iff (reachable_cashed _) ht 6).1.2
    ⟨howed, hcollected, hlent, hshown, fun _ ↦ hclosable⟩⟩

end MicroErp.Guarantees
