import MicroErp.Commits.Bulk
import MicroErp.Commits.Customers
import MicroErp.Concurrency.Dataflow

/-!
# The operations on shifts and tenants meet their contract

Closing a shift freezes the payments since it was opened.  Opening one leaves the ledger alone, and
so do the operations on settings and subscriptions.
-/

namespace MicroErp.Commits

open MicroErp.Concurrency MicroErp.Database MicroErp.Services MicroErp.Storage

variable {S : Setting} {req : Request} {env : Env} {d : Db} {tenantId userId : Uuid}
  {lk lk' : List (LockName × LockMode)} {ws ws' : List Write} {e : Effect}

/-! ## Writes outside the ledger -/

/-- The write leaves the transactions, the customers and the batches alone. -/
def Aside (w : Write) : Prop :=
  ∀ d, (w.apply d).transactions = d.transactions ∧ (w.apply d).customers = d.customers ∧
    (w.apply d).batches = d.batches

theorem view_aside (h : ∀ w ∈ ws, Aside w) (d : Db) :
    (postgres.view ws d).transactions = d.transactions ∧
      (postgres.view ws d).customers = d.customers ∧ (postgres.view ws d).batches = d.batches :=
  ⟨postgres.view_unchanged (·.transactions) fun w hw d ↦ (h w hw d).1,
    postgres.view_unchanged (·.customers) fun w hw d ↦ (h w hw d).2.1,
    postgres.view_unchanged (·.batches) fun w hw d ↦ (h w hw d).2.2⟩

theorem Pending.aside (h : Pending S req env ws lk d e) (hws : ∀ w ∈ ws', Aside w) :
    Pending S req env (ws ++ ws') lk d e where
  yields d' hrely := by
    obtain ⟨htransactions, hcustomers, hbatches⟩ := view_aside hws (postgres.view ws d')
    have hy := h.yields d' hrely
    rw [Engine.view_append]
    refine ⟨?_, ?_, ?_⟩
    · rw [htransactions]
      exact hy.transactions
    · rw [hcustomers]
      exact hy.customers
    · rw [hbatches]
      exact hy.batches
  vacant := h.vacant
  slots := h.slots
  core := h.core
  id := h.id
  customers := h.customers

theorem Updating.aside {p : Transaction → Prop} {f : Transaction → Transaction} {done : List Uuid}
    (h : Updating S req env p f done ws lk d) (hws : ∀ w ∈ ws', Aside w) :
    Updating S req env p f done (ws ++ ws') lk d where
  pending := h.pending.aside hws
  locked := h.locked
  rows := h.rows

/-- A save outside the ledger: it fails, or at most an aside write more is pending. -/
theorem wp_saveAside {E : Type} [DecidableEq E] {entity : E} {find : Script (Option E)}
    {update : E → Script Unit} {f : Unit → Script Answer}
    (hfind : ∀ k : Option E → Script Answer, (∀ r lk' d', lk ⊆ lk' → Rely S req env lk d d' →
      postgres.wp (contract S req env) (k r) ws lk' d') →
        postgres.wp (contract S req env) (find >>= k) ws lk d)
    (hupdate : ∀ reread lk₁ d₁, lk ⊆ lk₁ → Rely S req env lk d d₁ →
      (∀ w lk' d', Aside w → lk₁ ⊆ lk' → Rely S req env lk₁ d₁ d' →
        postgres.wp (contract S req env) (f ()) (ws ++ [w]) lk' d') →
          postgres.wp (contract S req env) (update reread >>= f) ws lk₁ d₁)
    (h : ∀ ws' lk' d', lk ⊆ lk' → Rely S req env lk d d' → (∀ w ∈ ws', Aside w) →
      postgres.wp (contract S req env) (f ()) (ws ++ ws') lk' d') :
    postgres.wp (contract S req env) (saveEntity entity find update >>= f) ws lk d := by
  rw [saveEntity_bind]
  refine hfind _ fun r lk₁ d₁ hlk₁ hrely₁ ↦ ?_
  cases r with
  | none => trivial
  | some reread =>
    by_cases heq : entity = reread
    · have hrest := h [] lk₁ d₁ hlk₁ hrely₁ fun _ hw ↦ (List.not_mem_nil hw).elim
      rw [List.append_nil] at hrest
      simp only [heq, if_true]
      exact hrest
    · simp only [heq, if_false]
      refine hupdate reread lk₁ d₁ hlk₁ hrely₁ fun w lk₂ d₂ hw hlk₂ hrely₂ ↦ ?_
      refine h [w] lk₂ d₂ (List.Subset.trans hlk₁ hlk₂) (hrely₁.trans (hrely₂.mono hlk₁)) ?_
      intro w' hw'
      exact List.mem_singleton.1 hw' ▸ hw

theorem wp_saveTenant {mem : Tenant} {f : Unit → Script Answer} (hS : ¬S.quiet)
    (h : ∀ ws' lk' d', lk ⊆ lk' → Rely S req env lk d d' → (∀ w ∈ ws', Aside w) →
      postgres.wp (contract S req env) (f ()) (ws ++ ws') lk' d') :
    postgres.wp (contract S req env) (saveTenant mem >>= f) ws lk d := by
  refine wp_saveAside (fun k hk ↦ ?_) (fun reread lk₁ d₁ hlk₁ hrely₁ hk ↦ ?_) h
  · refine wp_untracked hS fun d' r ws' hrely _ hexec ↦ ?_
    obtain ⟨-, rfl⟩ := Prod.mk.inj (Except.ok.inj hexec)
    rw [List.append_nil]
    exact hk _ _ d' (List.subset_append_left _ _) hrely
  · refine wp_untracked hS fun d' r ws' hrely _ hexec ↦ ?_
    obtain ⟨-, rfl⟩ := Prod.mk.inj (Except.ok.inj hexec)
    exact hk _ _ d' (fun _ ↦ ⟨rfl, rfl, rfl⟩) (List.subset_append_left _ _) hrely

theorem wp_saveShift {mem : CashRegisterLog} {f : Unit → Script Answer} (hS : ¬S.quiet)
    (h : ∀ ws' lk' d', lk ⊆ lk' → Rely S req env lk d d' → (∀ w ∈ ws', Aside w) →
      postgres.wp (contract S req env) (f ()) (ws ++ ws') lk' d') :
    postgres.wp (contract S req env) (saveShift mem >>= f) ws lk d := by
  refine wp_saveAside (fun k hk ↦ ?_) (fun reread lk₁ d₁ hlk₁ hrely₁ hk ↦ ?_) h
  · refine wp_untracked hS fun d' r ws' hrely _ hexec ↦ ?_
    obtain ⟨-, rfl⟩ := Prod.mk.inj (Except.ok.inj hexec)
    rw [List.append_nil]
    exact hk _ _ d' (List.subset_append_left _ _) hrely
  · refine wp_untracked hS fun d' r ws' hrely _ hexec ↦ ?_
    obtain ⟨-, rfl⟩ := Sql.writing_eq_ok hexec
    exact hk _ _ d' (fun _ ↦ ⟨rfl, rfl, rfl⟩) (List.subset_append_left _ _) hrely

/-- A shift operation locks its tenant first. -/
theorem wp_lockTenant {f : Tenant → Script Answer} (hS : ¬S.quiet)
    (h : ∀ tenant lk' d', Rely S req env [] d d' →
      postgres.wp (contract S req env) (f tenant) [] lk' d') :
    postgres.wp (contract S req env) (lockTenant tenantId >>= f) [] [] d := by
  simp only [lockTenant, query, Prog.issue_bind, Prog.stmt_bind]
  refine wp_untracked hS fun d' r ws' hrely _ hexec ↦ ?_
  obtain ⟨-, rfl⟩ := Prod.mk.inj (Except.ok.inj hexec)
  cases r with
  | none => trivial
  | some tenant => exact h tenant _ d' hrely

/-! ## Requests that touch neither a customer nor the ledger -/

/-- The statement writes nothing of the ledger. -/
def AsideStatement (o : Sql) : Prop :=
  ∀ v r ws, o.exec v = .ok (r, ws) → ∀ w ∈ ws, Aside w

theorem asideStatement_of_read {o : Sql} (h : ∀ v r ws, o.exec v = .ok (r, ws) → ws = []) :
    AsideStatement o := by
  intro v r ws hexec w hw
  rw [h v r ws hexec] at hw
  cases hw

theorem asideStatement_of_write {o : Sql} {w : Write} (hw : Aside w)
    (h : ∀ v r ws, o.exec v = .ok (r, ws) → ws = [w]) : AsideStatement o := by
  intro v r ws hexec w' hw'
  rw [h v r ws hexec] at hw'
  exact List.mem_singleton.1 hw' ▸ hw

theorem asideStatement_keyShare (rows : List LockName) : AsideStatement (.keyShare rows) :=
  asideStatement_of_read fun _ _ _ h ↦ (Prod.mk.inj (Except.ok.inj h)).2.symm

/-- Statements aside leave writes aside. -/
theorem wp_aside {β : Type} {body : Script β} {f : β → Script Answer} (hS : ¬S.quiet)
    (hbody : body.Body AsideStatement) (hws : ∀ w ∈ ws, Aside w)
    (h : ∀ b ws' lk' d', Rely S req env [] d d' → (∀ w ∈ ws', Aside w) →
      postgres.wp (contract S req env) (f b) ws' lk' d') :
    postgres.wp (contract S req env) (body >>= f) ws lk d := by
  induction body generalizing ws lk d with
  | ret b => exact h b ws lk d Rely.refl hws
  | fail e => trivial
  | stmt o k ih =>
    refine wp_untracked hS fun d' r ws' hrely _ hexec ↦ ?_
    have hrely₀ := Rely.mono (List.nil_subset _) hrely
    refine ih r (hbody.2 r) (fun w hw ↦ ?_) fun b ws'' lk'' d'' hrely' ↦
      h b ws'' lk'' d'' (hrely₀.trans hrely')
    exact (List.mem_append.1 hw).elim (hws w) (hbody.1 _ r ws' hexec w)
  | commit k ih => exact hbody.elim

theorem transactionKey_of_isAside (h : req.IsAside) : req.transactionKey = none := by
  cases req <;> first | rfl | exact h.elim

/-- The commit of a request aside. -/
theorem wp_commit_aside {a : Answer} (hS : ¬S.quiet) (haside : req.IsAside)
    (hunused : S.fresh → env.Unused d) (hws : ∀ w ∈ ws, Aside w)
    (hanswer : ∀ d', req.transactionKey = none → Answered S req env a d') :
    postgres.wp (contract S req env) (.commit (.ret a)) ws lk d := by
  refine wp_commit (fun d' hrely ↦ Or.inr ⟨Effect.none, ?_⟩)
    fun _ d'' _ _ ↦ hanswer d'' (transactionKey_of_isAside haside)
  have hp : Pending S req env ([] ++ ws) lk d' Effect.none := Pending.nil.aside hws
  exact hp.commit rfl (fun h ↦ (hS h).elim) (fun h ↦ hrely.unused h (hunused h)) (.aside haside)

theorem body_saveTenant (mem : Tenant) : (saveTenant mem).Body AsideStatement := by
  refine ⟨asideStatement_of_read fun _ _ _ h ↦ (Prod.mk.inj (Except.ok.inj h)).2.symm,
    fun r ↦ ?_⟩
  cases r with
  | none => trivial
  | some reread =>
    change Prog.Body _ (if mem = reread then _ else _)
    split
    · trivial
    · exact ⟨asideStatement_of_write (fun _ ↦ ⟨rfl, rfl, rfl⟩)
        fun _ _ _ h ↦ (Prod.mk.inj (Except.ok.inj h)).2.symm, fun _ ↦ trivial⟩

theorem body_lockTenant : (lockTenant tenantId).Body AsideStatement := by
  refine ⟨asideStatement_of_read fun _ _ _ h ↦ (Prod.mk.inj (Except.ok.inj h)).2.symm,
    fun r ↦ ?_⟩
  cases r <;> trivial

theorem openTurn_wp {dto : OpenTurnDto} (hunused : S.fresh → env.Unused d) (hS : ¬S.quiet) :
    postgres.wp (contract S (.openTurn tenantId userId dto) env)
      ((Request.openTurn tenantId userId dto).script env) [] [] d := by
  have hnone : ∀ w ∈ ([] : List Write), Aside w := fun w hw ↦ (List.not_mem_nil hw).elim
  simp only [Request.script, Services.openTurn, Prog.bind_assoc]
  refine wp_aside hS body_lockTenant hnone fun tenant ws₁ lk₁ d₁ hrely₁ hws₁ ↦ ?_
  simp only [Prog.ite_bind, Prog.fail_bind, Prog.bind_assoc]
  split
  · trivial
  refine wp_aside hS ⟨?_, fun _ ↦ trivial⟩ hws₁ fun _ ws₂ lk₂ d₂ hrely₂ hws₂ ↦ ?_
  · intro v r ws h w hw
    simp only [Sql.exec] at h
    split at h
    · cases h
    · obtain rfl := List.mem_singleton.1 ((Sql.writing_eq_ok h).2 ▸ hw)
      exact fun _ ↦ ⟨rfl, rfl, rfl⟩
  refine wp_aside hS ⟨asideStatement_keyShare _, fun _ ↦ trivial⟩ hws₂
    fun _ ws₃ lk₃ d₃ hrely₃ hws₃ ↦ ?_
  refine wp_aside hS (body_saveTenant _) hws₃ fun _ ws₄ lk₄ d₄ hrely₄ hws₄ ↦ ?_
  exact wp_commit_aside hS trivial (fun h ↦ hrely₄.unused h (hrely₃.unused h (hrely₂.unused h
    (hrely₁.unused h (hunused h))))) hws₄ fun _ h ↦ h

theorem updateSettings_wp {dto : UpdateSettingsDto} (hunused : S.fresh → env.Unused d)
    (hS : ¬S.quiet) :
    postgres.wp (contract S (.updateSettings tenantId dto) env)
      ((Request.updateSettings tenantId dto).script env) [] [] d := by
  have hnone : ∀ w ∈ ([] : List Write), Aside w := fun w hw ↦ (List.not_mem_nil hw).elim
  simp only [Request.script, Services.updateSettings, Prog.bind_assoc]
  refine wp_aside hS ⟨asideStatement_of_read fun _ _ _ h ↦
    (Prod.mk.inj (Except.ok.inj h)).2.symm, fun _ ↦ trivial⟩ hnone
    fun r ws₁ lk₁ d₁ hrely₁ hws₁ ↦ ?_
  cases r with
  | none => trivial
  | some tenant =>
    simp only [Prog.bind_assoc]
    refine wp_aside hS (body_saveTenant _) hws₁ fun _ ws₂ lk₂ d₂ hrely₂ hws₂ ↦ ?_
    exact wp_commit_aside hS trivial (fun h ↦ hrely₂.unused h (hrely₁.unused h (hunused h))) hws₂
      fun _ h ↦ h

theorem processPayment_wp {externalPaymentId : String} {subscriptionId : Option String}
    {rawPayload : JsonValue} (hunused : S.fresh → env.Unused d) (hS : ¬S.quiet) :
    postgres.wp (contract S (.processPayment externalPaymentId subscriptionId rawPayload) env)
      ((Request.processPayment externalPaymentId subscriptionId rawPayload).script env) [] [] d := by
  have hnone : ∀ w ∈ ([] : List Write), Aside w := fun w hw ↦ (List.not_mem_nil hw).elim
  simp only [Request.script, Services.processPayment, Prog.bind_assoc]
  refine wp_aside hS ⟨asideStatement_of_read fun _ _ _ h ↦
    (Prod.mk.inj (Except.ok.inj h)).2.symm, fun _ ↦ trivial⟩ hnone
    fun event ws₁ lk₁ d₁ hrely₁ hws₁ ↦ ?_
  have hunused₁ := fun h ↦ hrely₁.unused h (hunused h)
  cases event with
  | some event => exact wp_commit_aside hS trivial hunused₁ hws₁ fun _ h ↦ h
  | none =>
    simp only [Prog.bind_assoc]
    refine wp_aside hS ⟨asideStatement_of_read fun _ _ _ h ↦
      (Prod.mk.inj (Except.ok.inj h)).2.symm, fun _ ↦ trivial⟩ hws₁
      fun tenant ws₂ lk₂ d₂ hrely₂ hws₂ ↦ ?_
    have hunused₂ := fun h ↦ hrely₂.unused h (hunused₁ h)
    cases tenant with
    | none => exact wp_commit_aside hS trivial hunused₂ hws₂ fun _ h ↦ h
    | some tenant =>
      simp only [Prog.bind_assoc]
      refine wp_aside hS ⟨?_, fun _ ↦ trivial⟩ hws₂ fun _ ws₃ lk₃ d₃ hrely₃ hws₃ ↦ ?_
      · refine asideStatement_of_write (w := .insertBillingEvent
          (billingEventRow env tenant.id externalPaymentId rawPayload)) (fun _ ↦ ⟨rfl, rfl, rfl⟩)
          fun v r ws h ↦ ?_
        simp only [Sql.exec] at h
        split at h
        · cases h
        · exact (Sql.writing_eq_ok h).2
      refine wp_aside hS ⟨asideStatement_keyShare _, fun _ ↦ trivial⟩ hws₃
        fun _ ws₄ lk₄ d₄ hrely₄ hws₄ ↦ ?_
      refine wp_aside hS (body_saveTenant _) hws₄ fun _ ws₅ lk₅ d₅ hrely₅ hws₅ ↦ ?_
      exact wp_commit_aside hS trivial (fun h ↦ hrely₅.unused h (hrely₄.unused h
        (hrely₃.unused h (hunused₂ h)))) hws₅ fun _ h ↦ h

theorem body_suspendTenants (tenants : List Tenant) :
    (suspendTenants tenants).Body AsideStatement := by
  induction tenants with
  | nil => trivial
  | cons tenant tenants ih => exact (body_saveTenant _).bind fun _ ↦ ih

theorem processSaaSExpirations_wp (hunused : S.fresh → env.Unused d) (hS : ¬S.quiet) :
    postgres.wp (contract S .processSaaSExpirations env)
      (Request.processSaaSExpirations.script env) [] [] d := by
  have hnone : ∀ w ∈ ([] : List Write), Aside w := fun w hw ↦ (List.not_mem_nil hw).elim
  simp only [Request.script, Services.processSaaSExpirations, Prog.bind_assoc]
  refine wp_aside hS ⟨asideStatement_of_read fun _ _ _ h ↦
    (Prod.mk.inj (Except.ok.inj h)).2.symm, fun _ ↦ trivial⟩ hnone
    fun expired ws₁ lk₁ d₁ hrely₁ hws₁ ↦ ?_
  simp only [Prog.ite_bind, Prog.bind_assoc]
  split
  · exact fun _ _ ↦ rfl
  · refine wp_aside hS (body_suspendTenants _) hws₁ fun _ ws₂ lk₂ d₂ hrely₂ hws₂ ↦ ?_
    exact wp_commit_aside hS trivial (fun h ↦ hrely₂.unused h (hrely₁.unused h (hunused h))) hws₂
      fun _ h ↦ h

/-! ## Closing a shift -/

/-- The loop of the bulk update that freezes the payments of a shift. -/
theorem wp_freezeTransactions {openedAt : Timestamp} {shiftId : Uuid} {done ids : List Uuid}
    {f : Unit → Script Answer} (hS : ¬S.quiet)
    (h : Updating S req env (·.unfrozenSince tenantId openedAt)
      (fun t ↦ { t with cash_register_log_id := some shiftId }) done ws lk d)
    (hids : (done ++ ids).Nodup)
    (hnext : ∀ frozen ws' lk' d', Rely S req env lk d d' →
      Updating S req env (·.unfrozenSince tenantId openedAt)
        (fun t ↦ { t with cash_register_log_id := some shiftId }) frozen ws' lk' d' →
      postgres.wp (contract S req env) (f ()) ws' lk' d') :
    postgres.wp (contract S req env)
      (freezeTransactions tenantId openedAt shiftId ids >>= f) ws lk d := by
  induction ids generalizing done ws lk d with
  | nil => exact hnext done ws lk d Rely.refl h
  | cons id ids ih =>
    simp only [freezeTransactions, query, Prog.issue_bind, Prog.stmt_bind]
    have hid : id ∉ done := fun hmem ↦
      (List.nodup_append'.1 hids).2.2 hmem List.mem_cons_self
    refine h.wp_step (w := .freezeTransaction id shiftId) () hid (fun v ↦ ?_) (fun v hv ↦ ?_)
      (fun _ ↦ rfl) (fun _ ↦ rfl) (fun _ ↦ trivial) (fun h ↦ (hS h).elim)
      (fun ws' lk' d₁ hsub hrely₁ h₁ ↦ ?_) fun lk' d₁ hsub hrely₁ _ h₁ ↦ ?_
    · simp only [Sql.exec]
      split <;> rfl
    · simp only [Sql.locks, Sql.lockFound, hv, if_true]
      exact List.mem_cons_self
    · refine ih h₁ (by simpa using hids) fun frozen ws'' lk'' d' hrely' ↦ ?_
      exact hnext frozen ws'' lk'' d' (hrely₁.trans (hrely'.mono hsub))
    · refine ih h₁ ?_ fun frozen ws'' lk'' d' hrely' ↦ ?_
      · exact hids.sublist (List.Sublist.append_left (List.sublist_cons_self _ _) _)
      · exact hnext frozen ws'' lk'' d' (hrely₁.trans (hrely'.mono hsub))

/-- What closing a shift does once it has counted the cash. -/
theorem wp_freeze {dto : CloseTurnDto} {tenant : Tenant} {shift closed : CashRegisterLog}
    (hunused : S.fresh → env.Unused d) (hS : ¬S.quiet) :
    postgres.wp (contract S (.closeTurn tenantId dto) env)
      (saveShift closed >>= fun _ ↦
        .stmt (.selectUnfrozen tenantId shift.opened_at) fun rows ↦
          freezeTransactions tenantId shift.opened_at shift.id (env.scan rows) >>= fun _ ↦
            saveTenant { tenant with active_cash_shift_id := none } >>= fun _ ↦
              .commit (.ret (.shift closed))) [] lk d := by
  refine wp_saveShift hS fun ws₁ lk₁ d₁ hlk₁ hrely₁ haside₁ ↦ ?_
  refine wp_untracked hS fun d₂ rows ws₂ hrely₂ _ hexec ↦ ?_
  obtain ⟨rfl, rfl⟩ := Prod.mk.inj (Except.ok.inj hexec)
  have hstart : Updating S (.closeTurn tenantId dto) env (·.unfrozenSince tenantId shift.opened_at)
      (fun t ↦ { t with cash_register_log_id := some shift.id }) [] ([] ++ ws₁ ++ [])
      (lk₁ ++ (Sql.selectUnfrozen tenantId shift.opened_at).locks (postgres.view ([] ++ ws₁) d₂))
      d₂ := by
    rw [List.append_nil]
    exact Updating.nil.aside haside₁
  refine wp_freezeTransactions hS hstart ?_ fun frozen ws₃ lk₃ d₃ hrely₃ hupdating ↦ ?_
  · rw [List.nil_append, (env.scan_perm _).nodup_iff]
    exact (postgres.view _ d₂).transactions.nodup.sublist
      (List.Sublist.map _ List.filter_sublist)
  refine wp_saveTenant hS fun ws₄ lk₄ d₄ hlk₄ hrely₄ haside₄ ↦ ?_
  refine wp_commit (fun d₅ hrely₅ ↦ Or.inr ?_) fun _ _ _ _ ↦ rfl
  have hrely := hrely₄.trans (hrely₅.mono hlk₄)
  have hdone := hupdating.stable hlk₄ hrely
  refine ⟨_, (hdone.pending.aside haside₄).commit rfl (fun h ↦ (hS h).elim) (fun h ↦ ?_)
    (.close fun t ht hid ↦ hdone.of_mem ht hid)⟩
  exact hrely.unused h (hrely₃.unused h (hrely₂.unused h (hrely₁.unused h (hunused h))))

theorem closeTurn_wp {dto : CloseTurnDto} (hunused : S.fresh → env.Unused d) (hS : ¬S.quiet) :
    postgres.wp (contract S (.closeTurn tenantId dto) env)
      ((Request.closeTurn tenantId dto).script env) [] [] d := by
  simp only [Request.script, Services.closeTurn, Prog.bind_assoc]
  refine wp_lockTenant hS fun tenant lk₁ d₁ hrely₁ ↦ ?_
  cases tenant.active_cash_shift_id with
  | none => trivial
  | some activeShiftId =>
    simp only [query, Prog.issue_bind, Prog.stmt_bind]
    refine wp_untracked hS fun d₂ r₂ ws₂ hrely₂ _ hexec₂ ↦ ?_
    obtain ⟨-, rfl⟩ := Prod.mk.inj (Except.ok.inj hexec₂)
    cases r₂ with
    | none => trivial
    | some shift =>
      refine wp_untracked hS fun d₃ cash ws₃ hrely₃ _ hexec₃ ↦ ?_
      have hws₃ : ws₃ = [] := by
        simp only [Sql.exec] at hexec₃
        split at hexec₃
        · cases hexec₃
          rfl
        · cases hexec₃
      subst hws₃
      simp only [Prog.ite_bind, Prog.fail_bind, Prog.bind_assoc, Prog.commitTransaction_bind,
        Prog.commit_bind, Prog.pure_eq_ret, Prog.ret_bind, Prog.bind_eq, Prog.stmt_bind]
      split
      · trivial
      · exact wp_freeze (fun h ↦ hrely₃.unused h (hrely₂.unused h (hrely₁.unused h (hunused h)))) hS

end MicroErp.Commits
