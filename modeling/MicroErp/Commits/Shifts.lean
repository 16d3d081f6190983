import MicroErp.Commits.Desk
import MicroErp.Commits.Runs

/-!
# The operations at the desk meet their contract

Each of them locks the tenant before it reads what it writes, except the nightly job, which takes
only the locks of its updates.
-/

namespace MicroErp.Commits

open MicroErp.Concurrency MicroErp.Database MicroErp.Services MicroErp.Storage

variable {K : Desk} {req : Request} {env : Env} {lk lk' : List (LockName × LockMode)}
  {ws : List Write} {d d' : Db} {tenantId userId : Uuid}

/-! ## Rules -/

theorem desk_stmt {o : Sql} {k : o.Ans → Script Answer}
    (h : ∀ lk' d' r ws', lk ⊆ lk' → o.locks (postgres.view ws d') ⊆ lk' → DeskRely K lk d d' →
      K.allow req o (postgres.view ws d') → o.exec (postgres.view ws d') = .ok (r, ws') →
        postgres.wp (deskContract K req env) (k r) (ws ++ ws') lk' d') :
    postgres.wp (deskContract K req env) (.stmt o k) ws lk d :=
  fun d' hrely hallow r ws' hexec ↦ ⟨False.elim, h _ d' r ws' (List.subset_append_left _ _)
    (List.subset_append_right _ _) hrely hallow hexec⟩

/-- A commit that ends the request. -/
theorem desk_commit {a : Answer} (h : ∀ d', DeskRely K lk d d' → DeskChanges K env lk d' req ws) :
    postgres.wp (deskContract K req env) (.commit (.ret a)) ws lk d :=
  fun d' hrely ↦ ⟨h d' hrely, Or.inl ⟨a, rfl⟩, fun _ _ ↦ trivial⟩

/-- The first statement locks the tenant. -/
theorem desk_queryTenant {k : Option Tenant → Script Answer}
    (hnone : ∀ lk' d', postgres.wp (deskContract K req env) (k none) [] lk' d')
    (h : ∀ tenant lk' d', HoldsTenant d' lk' tenantId tenant →
      postgres.wp (deskContract K req env) (k (some tenant)) [] lk' d') :
    postgres.wp (deskContract K req env) (.stmt (.lockTenant tenantId) k) [] lk d := by
  refine desk_stmt fun lk' d' r ws' _ hneeds _ _ hexec ↦ ?_
  obtain ⟨hr, rfl⟩ := Prod.mk.inj (Except.ok.inj hexec)
  have hfind : d'.tenants.find tenantId = r := hr
  cases r with
  | none => exact hnone _ d'
  | some tenant =>
    refine h tenant _ d' ⟨hfind, hneeds ?_⟩
    have hlocks : (Sql.lockTenant tenantId).locks d' = [(.tenant tenantId, .update)] := by
      simp [Sql.locks, Sql.lockFound, hfind]
    exact hlocks ▸ List.mem_singleton_self _

/-- The save of a tenant that is held reads again what was read under the lock. -/
theorem desk_saveTenant {mem tenant : Tenant} {f : Unit → Script Answer}
    (hheld : HoldsTenant d lk tenant.id tenant) (hid : mem.id = tenant.id)
    (hws : ∀ w ∈ ws, ∀ m, (.tenant tenant.id, m) ∉ w.locks)
    (h : ∀ lk' d', lk ⊆ lk' → DeskRely K lk d d' →
      postgres.wp (deskContract K req env) (f ()) (ws ++ savedTenant mem tenant) lk' d') :
    postgres.wp (deskContract K req env) (saveTenant mem >>= f) ws lk d := by
  unfold saveTenant
  rw [saveEntity_bind]
  simp only [query, Prog.issue_bind]
  refine desk_stmt fun lk₁ d₁ r ws₁ hlk₁ _ hrely₁ _ hexec₁ ↦ ?_
  obtain ⟨hr, rfl⟩ := Prod.mk.inj (Except.ok.inj hexec₁)
  have hread : r = some tenant := by
    rw [← hr, hid, find_tenant_view hws]
    exact (hheld.stable hlk₁ hrely₁).1
  subst hread
  rw [List.append_nil]
  by_cases heq : mem = tenant
  · have hrest := h lk₁ d₁ hlk₁ hrely₁
    rw [savedTenant, if_pos heq, List.append_nil] at hrest
    simp only [heq]
    exact hrest
  · simp only [heq, if_false]
    refine desk_stmt fun lk₂ d₂ r₂ ws₂ hlk₂ _ hrely₂ _ hexec₂ ↦ ?_
    obtain ⟨-, rfl⟩ := Prod.mk.inj (Except.ok.inj hexec₂)
    have hrest := h lk₂ d₂ (List.Subset.trans hlk₁ hlk₂) (hrely₁.trans (hrely₂.mono hlk₁))
    rw [savedTenant, if_neg heq] at hrest
    exact hrest

/-! ## Opening a shift -/

theorem openTurn_desk {dto : OpenTurnDto} :
    postgres.wp (deskContract K (.openTurn tenantId userId dto) env)
      ((Request.openTurn tenantId userId dto).script env) [] [] d := by
  simp only [Request.script, Services.openTurn, Services.lockTenant, query, Prog.bind_assoc,
    Prog.issue_bind, Prog.stmt_bind]
  refine desk_queryTenant (fun _ _ ↦ trivial) fun tenant lk₁ d₁ hheld ↦ ?_
  simp only [Prog.pure_eq_ret, Prog.ret_bind, Prog.ite_bind, Prog.stmt_bind, Prog.bind_assoc,
    Prog.commitTransaction_bind, Prog.commit_bind]
  split
  · trivial
  rename_i hidle
  refine desk_stmt fun lk₂ d₂ r₂ ws₂ hlk₂ hneeds₂ hrely₂ _ hexec₂ ↦ ?_
  simp only [Sql.exec] at hexec₂
  split at hexec₂
  · cases hexec₂
  rename_i hnew
  obtain ⟨-, rfl⟩ := Sql.writing_eq_ok hexec₂
  have hheld₂ := hheld.stable hlk₂ hrely₂
  have hslot : (.shift (env.fresh 0), .update) ∈ lk₂ := hneeds₂ List.mem_cons_self
  refine desk_stmt fun lk₃ d₃ r₃ ws₃ hlk₃ _ hrely₃ _ hexec₃ ↦ ?_
  obtain ⟨-, rfl⟩ := Prod.mk.inj (Except.ok.inj hexec₃)
  obtain rfl : tenant.id = tenantId := (Table.find_eq_some.1 hheld.1).2
  refine desk_saveTenant (hheld₂.stable hlk₃ hrely₃) rfl (fun w hw m hm ↦ ?_) ?_
  · obtain rfl := List.mem_singleton.1 hw
    simp [Write.locks] at hm
  intro lk₄ d₄ hlk₄ hrely₄
  refine desk_commit fun d₅ hrely₅ ↦ ?_
  have hrely : DeskRely K lk₂ d₂ d₅ :=
    (hrely₃.trans (hrely₄.mono hlk₃)).trans (hrely₅.mono (List.Subset.trans hlk₃ hlk₄))
  have hactive : tenant.active_cash_shift_id = none := by simpa using hidle
  have hchanged : { tenant with active_cash_shift_id := some (env.fresh 0) } ≠ tenant := by
    intro heq
    have hsome := congrArg Tenant.active_cash_shift_id heq
    rw [hactive] at hsome
    cases hsome
  change DeskChanges K env lk₄ d₅ _ (.insertShift (shiftRow env tenant.id userId dto) ::
    savedTenant { tenant with active_cash_shift_id := some (env.fresh 0) } tenant)
  rw [savedTenant, if_neg hchanged]
  refine .open (hheld₂.stable (List.Subset.trans hlk₃ hlk₄) hrely) hactive ?_
  rw [hrely.shift (env.fresh 0) .update hslot (by decide)]
  simpa [shiftRow] using hnew

/-! ## Settings and subscriptions -/

theorem updateSettings_desk {dto : UpdateSettingsDto} :
    postgres.wp (deskContract K (.updateSettings tenantId dto) env)
      ((Request.updateSettings tenantId dto).script env) [] [] d := by
  simp only [Request.script, Services.updateSettings, query, Prog.issue_bind, Prog.stmt_bind]
  refine desk_queryTenant (fun _ _ ↦ trivial) fun tenant lk₁ d₁ hheld ↦ ?_
  simp only [Prog.pure_eq_ret, Prog.ret_bind, Prog.bind_assoc, Prog.commitTransaction_bind,
    Prog.commit_bind]
  obtain rfl : tenant.id = tenantId := (Table.find_eq_some.1 hheld.1).2
  refine desk_saveTenant hheld rfl (fun w hw ↦ (List.not_mem_nil hw).elim) ?_
  intro lk₂ d₂ hlk₂ hrely₂
  refine desk_commit fun d₃ hrely₃ ↦ ?_
  exact .settings (hheld.stable hlk₂ (hrely₂.trans (hrely₃.mono hlk₂)))

theorem processPayment_desk {externalPaymentId : String} {subscriptionId : Option String}
    {rawPayload : JsonValue} :
    postgres.wp (deskContract K (.processPayment externalPaymentId subscriptionId rawPayload) env)
      ((Request.processPayment externalPaymentId subscriptionId rawPayload).script env) [] [] d := by
  have hidle : ∀ lk d', DeskChanges K env lk d'
      (.processPayment externalPaymentId subscriptionId rawPayload) [] := fun lk d' ↦
    .other trivial fun w hw ↦ (List.not_mem_nil hw).elim
  simp only [Request.script, Services.processPayment, query, Prog.issue_bind, Prog.stmt_bind]
  refine desk_stmt fun lk₁ d₁ event ws₁ _ _ _ _ hexec₁ ↦ ?_
  obtain ⟨-, rfl⟩ := Prod.mk.inj (Except.ok.inj hexec₁)
  cases event with
  | some event => exact desk_commit fun d' _ ↦ hidle _ d'
  | none =>
    simp only [Prog.stmt_bind]
    refine desk_stmt fun lk₂ d₂ row ws₂ _ hneeds₂ _ _ hexec₂ ↦ ?_
    obtain ⟨hrow, rfl⟩ := Prod.mk.inj (Except.ok.inj hexec₂)
    cases row with
    | none => exact desk_commit fun d' _ ↦ hidle _ d'
    | some tenant =>
      have hfind : d₂.tenantBySubscription ((truthy subscriptionId).getD "test_sub_id") =
        some tenant := hrow
      have hheld : HoldsTenant d₂ lk₂ tenant.id tenant := by
        refine ⟨Table.find_eq_some.2 ⟨List.mem_of_find?_eq_some hfind, rfl⟩, hneeds₂ ?_⟩
        change _ ∈ ((d₂.tenantBySubscription _).map fun t ↦ (LockName.tenant t.id, _)).toList
        rw [hfind]
        exact List.mem_singleton_self _
      simp only [Prog.bind_assoc, Prog.stmt_bind]
      refine desk_stmt fun lk₃ d₃ r₃ ws₃ hlk₃ _ hrely₃ _ hexec₃ ↦ ?_
      have hws₃ : ws₃ = [.insertBillingEvent
          (billingEventRow env tenant.id externalPaymentId rawPayload)] := by
        simp only [Sql.exec] at hexec₃
        split at hexec₃
        · cases hexec₃
        · exact (Sql.writing_eq_ok hexec₃).2
      subst hws₃
      refine desk_stmt fun lk₄ d₄ r₄ ws₄ hlk₄ _ hrely₄ _ hexec₄ ↦ ?_
      obtain ⟨-, rfl⟩ := Prod.mk.inj (Except.ok.inj hexec₄)
      have hheld₄ := (hheld.stable hlk₃ hrely₃).stable hlk₄ hrely₄
      refine desk_saveTenant hheld₄ rfl (fun w hw m hm ↦ ?_) ?_
      · obtain rfl := List.mem_singleton.1 hw
        simp [Write.locks] at hm
      intro lk₅ d₅ hlk₅ hrely₅
      refine desk_commit fun d₆ hrely₆ ↦ ?_
      exact .paid (hheld₄.stable hlk₅ (hrely₅.trans (hrely₆.mono hlk₅)))

/-! ## The nightly job -/

/-- The pending updates of the job, and the locks of the rows it has updated. -/
structure Suspending (K : Desk) (d : Db) (lk : List (LockName × LockMode)) (ws : List Write) :
    Prop where
  suspends : ∀ w ∈ ws, Suspends K d w
  locked : ∀ w ∈ ws, w.locks ⊆ lk

theorem Suspending.stable (h : Suspending K d lk ws) (hlk : lk ⊆ lk') (hrely : DeskRely K lk d d') :
    Suspending K d' lk' ws where
  suspends w hw := by
    obtain ⟨loaded, reread, rfl, hfresh⟩ := h.suspends w hw
    refine ⟨loaded, reread, rfl, fun hK ↦ ⟨(hfresh hK).1, ?_⟩⟩
    rw [hrely.tenant loaded.id .noKeyUpdate (h.locked _ hw List.mem_cons_self) (by decide)]
    exact (hfresh hK).2
  locked w hw := List.Subset.trans (h.locked w hw) hlk

theorem desk_suspendTenants {tenants : List Tenant} {f : Unit → Script Answer}
    (hws : Suspending K d lk ws) (hids : (tenants.map (·.id)).Nodup)
    (hapart : ∀ t ∈ tenants, ∀ w ∈ ws, ∀ m, (.tenant t.id, m) ∉ w.locks)
    (h : ∀ ws' lk' d', Suspending K d' lk' ws' →
      postgres.wp (deskContract K .processSaaSExpirations env) (f ()) ws' lk' d') :
    postgres.wp (deskContract K .processSaaSExpirations env) (suspendTenants tenants >>= f)
      ws lk d := by
  induction tenants generalizing ws lk d with
  | nil => exact h ws lk d hws
  | cons t tenants ih =>
    obtain ⟨hid, hids⟩ := List.nodup_cons.1 hids
    simp only [suspendTenants, saveTenant, Prog.bind_assoc]
    rw [saveEntity_bind]
    simp only [query, Prog.issue_bind]
    refine desk_stmt fun lk₁ d₁ row ws₁ hlk₁ _ hrely₁ hallow₁ hexec₁ ↦ ?_
    obtain ⟨hrow, rfl⟩ := Prod.mk.inj (Except.ok.inj hexec₁)
    rw [List.append_nil]
    have hws₁ := hws.stable hlk₁ hrely₁
    cases row with
    | none => trivial
    | some reread =>
      simp only
      split
      · exact ih hws₁ hids fun t' ht' ↦ hapart t' (List.mem_cons_of_mem _ ht')
      · refine desk_stmt fun lk₂ d₂ r₂ ws₂ hlk₂ hneeds₂ hrely₂ hallow₂ hexec₂ ↦ ?_
        obtain ⟨-, rfl⟩ := Prod.mk.inj (Except.ok.inj hexec₂)
        have hws₂ := hws₁.stable hlk₂ hrely₂
        have hfind : (postgres.view ws d₂).tenants.find t.id = d₂.tenants.find t.id :=
          find_tenant_view (hapart t List.mem_cons_self)
        refine ih ⟨fun w hw ↦ ?_, fun w hw ↦ ?_⟩ hids fun t' ht' w hw ↦ ?_
        · rcases List.mem_append.1 hw with hw | hw
          · exact hws₂.suspends w hw
          · obtain rfl := List.mem_singleton.1 hw
            refine ⟨t, reread, rfl, fun hK ↦ ⟨?_, ?_⟩⟩
            · exact hallow₁ hK rfl reread hrow
            · rw [← hfind]
              exact hallow₂ hK rfl
        · rcases List.mem_append.1 hw with hw | hw
          · exact hws₂.locked w hw
          · obtain rfl := List.mem_singleton.1 hw
            exact hneeds₂
        · rcases List.mem_append.1 hw with hw | hw
          · exact hapart t' (List.mem_cons_of_mem _ ht') w hw
          · obtain rfl := List.mem_singleton.1 hw
            intro m hm
            obtain ⟨heq, -⟩ : t'.id = t.id ∧ m = .noKeyUpdate := by
              simpa [Write.locks] using hm
            exact hid (List.mem_map.2 ⟨t', ht', heq⟩)

theorem processSaaSExpirations_desk :
    postgres.wp (deskContract K .processSaaSExpirations env)
      (Request.processSaaSExpirations.script env) [] [] d := by
  simp only [Request.script, Services.processSaaSExpirations, query, Prog.issue_bind,
    Prog.stmt_bind, Prog.ite_bind]
  refine desk_stmt fun lk₁ d₁ expired ws₁ _ _ _ _ hexec₁ ↦ ?_
  obtain ⟨hexpired, rfl⟩ := Prod.mk.inj (Except.ok.inj hexec₁)
  split
  · exact fun _ _ ↦ trivial
  · simp only [Prog.bind_assoc]
    have hids : (((env.ordered (·.id) expired)).map (·.id)).Nodup := by
      refine Env.nodup_ordered ?_
      rw [← hexpired]
      exact d₁.tenants.nodup.sublist (List.filter_sublist.map _)
    refine desk_suspendTenants ⟨fun w hw ↦ ?_, fun w hw ↦ ?_⟩ hids (fun _ _ w hw ↦ ?_)
      fun ws' lk' d' hws' ↦ ?_
    · cases hw
    · cases hw
    · cases hw
    · exact desk_commit fun d'' hrely ↦
        .suspend (hws'.stable (List.Subset.refl _) hrely).suspends

/-! ## Closing a shift -/

/-- What closing a shift knows from the count on. -/
structure Closing (K : Desk) (d : Db) (lk : List (LockName × LockMode)) (tenantId : Uuid)
    (tenant : Tenant) (shift : CashRegisterLog) (counted : Db) : Prop where
  tenant : HoldsTenant d lk tenantId tenant
  found : d.openShift tenantId shift.id = some shift
  sums : K.sums tenantId shift.opened_at counted
  exact : K.exclusive → counted = d

theorem Closing.stable {tenant : Tenant} {shift : CashRegisterLog} {counted : Db}
    (h : Closing K d lk tenantId tenant shift counted) (hlk : lk ⊆ lk')
    (hrely : DeskRely K lk d d') : Closing K d' lk' tenantId tenant shift counted where
  tenant := h.tenant.stable hlk hrely
  found := (openShift_stable h.tenant hrely).trans h.found
  sums := h.sums
  exact hK := (h.exact hK).trans (hrely.exclusive hK).symm

/-- The rows frozen so far and the rows still in the snapshot are the payments to freeze. -/
def Covers (K : Desk) (d : Db) (tenantId : Uuid) (openedAt : Timestamp) (done ids : List Uuid) :
    Prop :=
  K.exclusive → ∀ t ∈ d.transactions.rows, (t.id ∈ done → t.unfrozenSince tenantId openedAt) ∧
    (t.unfrozenSince tenantId openedAt → t.id ∈ done ∨ t.id ∈ ids)

theorem Covers.stable {openedAt : Timestamp} {done ids : List Uuid}
    (h : Covers K d tenantId openedAt done ids) (hrely : DeskRely K lk d d') :
    Covers K d' tenantId openedAt done ids := fun hK ↦ by
  rw [hrely.exclusive hK]
  exact h hK

theorem desk_freezeTransactions {openedAt : Timestamp} {shiftId : Uuid} (pre : List Write)
    {done ids : List Uuid} {f : Unit → Script Answer}
    (hpre : ∀ w ∈ pre, ∀ id m, (.transaction id, m) ∉ w.locks) (hids : (done ++ ids).Nodup)
    (hcovers : Covers K d tenantId openedAt done ids)
    (h : ∀ frozen lk' d', lk ⊆ lk' → DeskRely K lk d d' →
      Covers K d' tenantId openedAt frozen [] →
      postgres.wp (deskContract K req env) (f ())
        (pre ++ frozen.map (.freezeTransaction · shiftId)) lk' d') :
    postgres.wp (deskContract K req env)
      (freezeTransactions tenantId openedAt shiftId ids >>= f)
      (pre ++ done.map (.freezeTransaction · shiftId)) lk d := by
  induction ids generalizing done lk d with
  | nil => exact h done lk d (List.Subset.refl _) DeskRely.refl hcovers
  | cons id ids ih =>
    simp only [freezeTransactions, query, Prog.issue_bind, Prog.stmt_bind]
    refine desk_stmt fun lk₁ d₁ r₁ ws₁ hlk₁ _ hrely₁ _ hexec₁ ↦ ?_
    have hcovers₁ := hcovers.stable hrely₁
    have hnext : ∀ frozen lk' d', lk₁ ⊆ lk' → DeskRely K lk₁ d₁ d' →
        Covers K d' tenantId openedAt frozen [] →
        postgres.wp (deskContract K req env) (f ())
          (pre ++ frozen.map (.freezeTransaction · shiftId)) lk' d' :=
      fun frozen lk' d' hlk' hrely' ↦
        h frozen lk' d' (List.Subset.trans hlk₁ hlk') (hrely₁.trans (hrely'.mono hlk₁))
    have hid : id ∉ done := fun hmem ↦
      (List.nodup_append'.1 hids).2.2 hmem List.mem_cons_self
    have hfind : (postgres.view (pre ++ done.map (.freezeTransaction · shiftId))
        d₁).transactions.find id = d₁.transactions.find id := by
      refine find_transaction_view fun w hw m hm ↦ ?_
      rcases List.mem_append.1 hw with hw | hw
      · exact hpre w hw id m hm
      · obtain ⟨id', hid', rfl⟩ := List.mem_map.1 hw
        obtain ⟨heq, -⟩ : id = id' ∧ m = .noKeyUpdate := by simpa [Write.locks] using hm
        exact hid (heq ▸ hid')
    simp only [Sql.exec, hfind] at hexec₁
    split at hexec₁
    · rename_i hfound
      obtain ⟨-, rfl⟩ := Prod.mk.inj (Except.ok.inj hexec₁)
      rw [List.append_assoc, ← List.map_singleton (f := (Write.freezeTransaction · shiftId)),
        ← List.map_append]
      refine ih (by simpa using hids) (fun hK t ht ↦ ⟨fun hmem ↦ ?_, fun hsince ↦ ?_⟩) hnext
      · rcases List.mem_append.1 hmem with hmem | hmem
        · exact (hcovers₁ hK t ht).1 hmem
        · obtain ⟨t', ht'⟩ := Option.isSome_iff_exists.1 hfound
          obtain ⟨hfind', hsince⟩ := Option.filter_eq_some_iff.1 ht'
          obtain rfl := Option.some.inj ((Table.find_eq_some.2
            ⟨ht, List.mem_singleton.1 hmem⟩).symm.trans hfind')
          exact of_decide_eq_true hsince
      · rcases (hcovers₁ hK t ht).2 hsince with hmem | hmem
        · exact Or.inl (List.mem_append_left _ hmem)
        · rcases List.mem_cons.1 hmem with heq | hmem
          · exact Or.inl (List.mem_append_right _ (List.mem_singleton.2 heq))
          · exact Or.inr hmem
    · rename_i hnot
      obtain ⟨-, rfl⟩ := Prod.mk.inj (Except.ok.inj hexec₁)
      rw [List.append_nil]
      refine ih (hids.sublist ((List.sublist_cons_self _ _).append_left _))
        (fun hK t ht ↦ ⟨(hcovers₁ hK t ht).1, fun hsince ↦ ?_⟩) hnext
      refine ((hcovers₁ hK t ht).2 hsince).imp_right fun hmem ↦ ?_
      rcases List.mem_cons.1 hmem with heq | hmem
      · refine (hnot ?_).elim
        rw [Table.find_eq_some.2 ⟨ht, heq⟩, Option.filter_some, if_pos (decide_eq_true hsince)]
        rfl
      · exact hmem

/-- What closing a shift does once it has counted the cash. -/
theorem desk_close {dto : CloseTurnDto} {tenant : Tenant} {shift : CashRegisterLog} {counted : Db}
    (h : Closing K d lk tenant.id tenant shift counted)
    (hactive : tenant.active_cash_shift_id = some shift.id)
    (hnote : dto.actual_cash_cents ≠
      shift.opening_cash_cents + counted.cashSince tenant.id shift.opened_at →
        ∃ text, dto.note = some text ∧ text ≠ "") :
    postgres.wp (deskContract K (.closeTurn tenant.id dto) env)
      (saveShift (closedShift env dto shift (counted.cashSince tenant.id shift.opened_at)) >>=
        fun _ ↦ .stmt (.selectUnfrozen tenant.id shift.opened_at) fun rows ↦
          freezeTransactions tenant.id shift.opened_at shift.id (env.scan rows) >>= fun _ ↦
            saveTenant { tenant with active_cash_shift_id := none } >>= fun _ ↦
              .commit (.ret (.shift
                (closedShift env dto shift (counted.cashSince tenant.id shift.opened_at)))))
      [] lk d := by
  set closed := closedShift env dto shift (counted.cashSince tenant.id shift.opened_at)
  unfold saveShift
  rw [saveEntity_bind]
  simp only [query, Prog.issue_bind]
  refine desk_stmt fun lk₁ d₁ row ws₁ hlk₁ _ hrely₁ _ hexec₁ ↦ ?_
  obtain ⟨hrow, rfl⟩ := Prod.mk.inj (Except.ok.inj hexec₁)
  have h₁ := h.stable hlk₁ hrely₁
  have hread : row = some shift := by
    rw [← hrow]
    exact (Option.filter_eq_some_iff.1 h₁.found).1
  subst hread
  have hopen : shift.status = .OPEN := (Db.openShift_eq_some.1 h₁.found).2.2
  have hchanged : closed ≠ shift := by
    intro heq
    have hstatus : (closedShift env dto shift _).status = _ := congrArg (·.status) heq
    simp only [closedShift, hopen] at hstatus
    split at hstatus <;> cases hstatus
  simp only [hchanged, if_false]
  refine desk_stmt fun lk₂ d₂ r₂ ws₂ hlk₂ _ hrely₂ _ hexec₂ ↦ ?_
  obtain ⟨-, rfl⟩ := Sql.writing_eq_ok hexec₂
  have h₂ := h₁.stable hlk₂ hrely₂
  refine desk_stmt fun lk₃ d₃ rows ws₃ hlk₃ _ hrely₃ _ hexec₃ ↦ ?_
  obtain ⟨hrows, rfl⟩ := Prod.mk.inj (Except.ok.inj hexec₃)
  have h₃ := h₂.stable hlk₃ hrely₃
  have hsnapshot : rows = (d₃.transactions.rows.filter
      fun t ↦ t.unfrozenSince tenant.id shift.opened_at).map (·.id) := hrows.symm
  have hnodup : ([] ++ env.scan rows).Nodup := by
    rw [List.nil_append, (env.scan_perm _).nodup_iff, hsnapshot]
    exact d₃.transactions.nodup.sublist (List.filter_sublist.map _)
  have hcovers : Covers K d₃ tenant.id shift.opened_at [] (env.scan rows) := by
    refine fun _ t ht ↦ ⟨fun hmem ↦ (List.not_mem_nil hmem).elim, fun hsince ↦ Or.inr ?_⟩
    rw [(env.scan_perm _).mem_iff, hsnapshot]
    exact List.mem_map.2 ⟨t, List.mem_filter.2 ⟨ht, decide_eq_true hsince⟩, rfl⟩
  have hpre : ∀ w ∈ [Write.updateShift closed shift], ∀ id m, (.transaction id, m) ∉ w.locks := by
    intro w hw id m hm
    obtain rfl := List.mem_singleton.1 hw
    simp [Write.locks] at hm
  refine desk_freezeTransactions [.updateShift closed shift] hpre hnodup hcovers
    fun frozen lk₄ d₄ hlk₄ hrely₄ hfrozen ↦ ?_
  have h₄ := h₃.stable hlk₄ hrely₄
  refine desk_saveTenant h₄.tenant rfl (fun w hw m hm ↦ ?_) fun lk₅ d₅ hlk₅ hrely₅ ↦ ?_
  · rcases List.mem_append.1 hw with hw | hw
    · obtain rfl := List.mem_singleton.1 hw
      simp [Write.locks] at hm
    · obtain ⟨id, -, rfl⟩ := List.mem_map.1 hw
      simp [Write.locks] at hm
  refine desk_commit fun d₆ hrely₆ ↦ ?_
  have hrely := hrely₅.trans (hrely₆.mono hlk₅)
  have h₆ := h₄.stable hlk₅ hrely
  have hidle : { tenant with active_cash_shift_id := none } ≠ tenant := by
    intro heq
    have hnone := congrArg Tenant.active_cash_shift_id heq
    rw [hactive] at hnone
    cases hnone
  rw [savedTenant, if_neg hidle]
  refine .close h₆.tenant hactive h₆.found h₆.sums hnote fun hK ↦ ⟨h₆.exact hK, fun t ht ↦ ?_⟩
  obtain ⟨hsound, hcomplete⟩ := hfrozen.stable hrely hK t ht
  exact ⟨hsound, fun hsince ↦ (hcomplete hsince).resolve_right List.not_mem_nil⟩

theorem closeTurn_desk {dto : CloseTurnDto} :
    postgres.wp (deskContract K (.closeTurn tenantId dto) env)
      ((Request.closeTurn tenantId dto).script env) [] [] d := by
  simp only [Request.script, Services.closeTurn, Services.lockTenant, query, Prog.bind_assoc,
    Prog.issue_bind, Prog.stmt_bind]
  refine desk_queryTenant (fun _ _ ↦ trivial) fun tenant lk₁ d₁ hheld ↦ ?_
  simp only [Prog.pure_eq_ret, Prog.ret_bind]
  cases hactive : tenant.active_cash_shift_id with
  | none => trivial
  | some activeShiftId =>
    simp only [Prog.stmt_bind]
    refine desk_stmt fun lk₂ d₂ row ws₂ hlk₂ _ hrely₂ _ hexec₂ ↦ ?_
    obtain ⟨hrow, rfl⟩ := Prod.mk.inj (Except.ok.inj hexec₂)
    cases row with
    | none => trivial
    | some shift =>
      have hshift₂ : d₂.openShift tenantId activeShiftId = some shift := hrow
      obtain ⟨-, rfl, hopen⟩ := Db.openShift_eq_some.1 hshift₂
      simp only [Prog.stmt_bind]
      refine desk_stmt fun lk₃ d₃ cash ws₃ hlk₃ _ hrely₃ hallow₃ hexec₃ ↦ ?_
      simp only [Sql.exec] at hexec₃
      split at hexec₃
      case isFalse => cases hexec₃
      obtain ⟨rfl, rfl⟩ := Prod.mk.inj (Except.ok.inj hexec₃)
      have hheld₂ := hheld.stable hlk₂ hrely₂
      have hclosing₃ : Closing K d₃ lk₃ tenantId tenant shift d₃ :=
        ⟨hheld₂.stable hlk₃ hrely₃, (openShift_stable hheld₂ hrely₃).trans hshift₂, hallow₃,
          fun _ ↦ rfl⟩
      simp only [Prog.ite_bind]
      split
      · trivial
      rename_i hnote
      obtain rfl : tenant.id = tenantId := (Table.find_eq_some.1 hheld.1).2
      simp only [Prog.bind_assoc, Prog.commitTransaction_bind, Prog.commit_bind, Prog.ret_bind,
        Prog.stmt_bind]
      refine desk_close hclosing₃ hactive fun hne ↦ ?_
      by_contra hmissing
      refine hnote ⟨sub_ne_zero.2 hne, Option.filter_eq_none_iff.2 fun text htext hgiven ↦ ?_⟩
      exact hmissing ⟨text, htext, of_decide_eq_true hgiven⟩

/-! ## Runs -/

theorem asks_nothing (o : Sql) (r : o.Ans) : AnswersNonneg False o r := by
  cases o with
  | lockCustomer | findCustomer | findCustomerByKey => exact fun _ _ ↦ False.elim
  | _ => trivial

theorem not_atDesk_of_exec {o : Sql} {v : Db} {r : o.Ans} {ws' : List Write}
    (h : Proper False False False o) (hexec : o.exec v = .ok (r, ws')) : ∀ w ∈ ws', ¬w.AtDesk := by
  intro w hw
  have hwrite := Sql.write_of_exec hexec w hw
  cases o with
  | insertShift | updateShift | updateTenant | freezeTransaction | insertBillingEvent =>
    exact h.elim
  | _ => cases hwrite <;> exact id

/-- The ledger and the desk at once. -/
def bothContracts (S : Setting) (K : Desk) (req : Request) (env : Env) :
    Contract Sql Db Write LockName Answer :=
  (contract S req env).both (deskContract K req env)

theorem wp_off_desk {S : Setting} (hsuits : Suits S req env d) (hreq : ¬AtDesk req) :
    postgres.wp (bothContracts S K req env) (req.script env) [] [] d := by
  refine Engine.wp_both_of_safe (N := fun w ↦ ¬w.AtDesk) (script_wp hsuits)
    (script_safe env req (fun h ↦ (hreq h : False)) fun _ _ h ↦ (hreq (h ▸ trivial) : False))
    (fun ho hexec ↦ ⟨asks_nothing _ _, not_atDesk_of_exec ho hexec⟩)
    (fun w hw ↦ (List.not_mem_nil hw).elim) id (fun lk ws d hws ↦ .other ?_ hws) fun _ _ ↦ trivial
  cases req <;> first | exact hreq | trivial

theorem script_both {S : Setting} (hsuits : Suits S req env d) :
    postgres.wp (bothContracts S K req env) (req.script env) [] [] d := by
  cases req with
  | openTurn => exact Engine.wp_both (script_wp hsuits) openTurn_desk
  | closeTurn => exact Engine.wp_both (script_wp hsuits) closeTurn_desk
  | updateSettings => exact Engine.wp_both (script_wp hsuits) updateSettings_desk
  | processPayment => exact Engine.wp_both (script_wp hsuits) processPayment_desk
  | processSaaSExpirations => exact Engine.wp_both (script_wp hsuits) processSaaSExpirations_desk
  | _ => exact wp_off_desk hsuits id

/-- Any requests may start together, at the desk too. -/
theorem sound_both {ι : Type} [DecidableEq ι] {req : ι → Request} {env : ι → Env}
    {K : ι → Desk} (hK : ∀ i, ¬(K i).exclusive) (hids : FreshIds req env)
    (hunused : ∀ i, (env i).Unused d) (hwf : d.WellFormed) :
    Compatible postgres (fun i ↦ bothContracts .plain (K i) (req i) (env i)) Write.locks ∧
      Sound postgres (fun i ↦ bothContracts .plain (K i) (req i) (env i)) Write.locks
        (serve req env d) := by
  have hsuits : ∀ i, Suits .plain (req i) (env i) d :=
    suits_of_freshIds hunused hwf False.elim rfl
  refine ⟨Compatible.both ?_ (compatible_desk hK req env), Sound.start fun i ↦ script_both (hsuits i)⟩
  exact (sound_free hids hunused hwf False.elim False.elim rfl).1

end MicroErp.Commits
