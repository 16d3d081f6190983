import MicroErp.Commits.Alone
import MicroErp.Guarantees.Signatures
import MicroErp.Guarantees.StatusEdges
import MicroErp.Services.Registration

/-!
# Whether those who do not pay are suspended

The nightly job suspends the tenants that are past due, and nothing makes a tenant past due.  So it
leaves everybody active who was on trial or active before, however long they have not paid.
-/

namespace MicroErp.Guarantees

open MicroErp.Commits MicroErp.Concurrency MicroErp.Database MicroErp.Services MicroErp.Storage

/-- The tenant registered more than 17 days ago and has never paid, or its subscription ended more
than 3 days ago. -/
def Unpaid (now : Timestamp) (d : Db) (t : Tenant) : Prop :=
  (t.created_at < addDays now (-17) ∧ ∀ b ∈ d.billingEvents.rows, b.tenant_id ≠ t.id) ∨
    ∃ expires ∈ t.subscription_expires_at, expires < addDays now (-3)

instance (now : Timestamp) (d : Db) (t : Tenant) : Decidable (Unpaid now d t) :=
  inferInstanceAs (Decidable (_ ∨ _))

def Stopped (t : Tenant) : Prop := t.status = .SUSPENDED ∨ t.status = .CANCELLED

instance (t : Tenant) : Decidable (Stopped t) := inferInstanceAs (Decidable (_ ∨ _))

/-- No tenant goes on without paying. -/
def UnpaidStopped (now : Timestamp) (d : Db) : Prop :=
  ∀ t ∈ d.tenants.rows, Unpaid now d t → Stopped t

/-- Every tenant that has not paid is stopped already, or one that the job looks for. -/
def UnpaidFound (now : Timestamp) (d : Db) : Prop :=
  ∀ t ∈ d.tenants.rows, Unpaid now d t → Stopped t ∨ Due (addDays now (-3)) t

instance (now : Timestamp) (d : Db) : Decidable (UnpaidStopped now d) :=
  inferInstanceAs (Decidable (∀ _ ∈ _, _))

/-- What the job makes of a tenant. -/
def suspendDue (cutoffDate : Timestamp) (t : Tenant) : Tenant :=
  if Due cutoffDate t then { t with status := .SUSPENDED } else t

/-! ## The other tables of an installation -/

/-- An operation on the other tables does in an installation what it does on them. -/
theorem alone_onTables {α : Type} (p : Script α) (ws : List Write) (d : Installation) :
    installed.alone (onTables p) (ws.map .on) d =
      ((postgres.alone p ws d.db).1, { d with db := (postgres.alone p ws d.db).2 }) := by
  induction p generalizing ws d with
  | ret a => rfl
  | fail e => rfl
  | stmt o k ih =>
    rw [onTables, Engine.alone, Engine.alone, installed_view]
    simp only [installed_exec, InstallationSql.exec, postgres_exec]
    cases o.exec (postgres.view ws d.db) with
    | error e => rfl
    | ok x =>
      simp only [← List.map_append]
      exact ih x.1 (ws ++ x.2) d
  | commit k ih =>
    rw [onTables, Engine.alone, Engine.alone, installed_view]
    exact ih [] _

/-! ## The nightly job -/

theorem mem_ordered {α : Type} {env : Env} {key : α → Uuid} {rows : List α} {r : α}
    (hnodup : (rows.map key).Nodup) : r ∈ env.ordered key rows ↔ r ∈ rows := by
  refine ⟨Env.mem_of_mem_ordered, fun hr ↦ ?_⟩
  have hscan : key r ∈ env.scan (rows.map key) :=
    (env.scan_perm _).mem_iff.2 (List.mem_map_of_mem hr)
  refine List.mem_filterMap.2 ⟨key r, hscan, ?_⟩
  cases hfind : rows.find? fun r' ↦ key r' = key r with
  | none =>
    have hno := List.find?_eq_none.1 hfind r hr
    simp at hno
  | some r' =>
    have hkey : key r' = key r := by simpa using List.find?_some hfind
    rw [List.inj_on_of_nodup_map hnodup (List.mem_of_find?_eq_some hfind) hr hkey]

def suspended (t : Tenant) : Tenant := { t with status := .SUSPENDED }

/-- The job suspends the tenants that it has loaded, one after another. -/
theorem eval_suspendTenants (tenants : List Tenant) (v : Db) (hnodup : (tenants.map (·.id)).Nodup)
    (hrows : ∀ t ∈ tenants, t ∈ v.tenants.rows) :
    ∃ v', postgres.eval (suspendTenants tenants) v = .ok ((), v') ∧
      v'.tenants.rows = v.tenants.rows.map (fun t ↦ if t ∈ tenants then suspended t else t) ∧
      v'.billingEvents = v.billingEvents := by
  induction tenants generalizing v with
  | nil => exact ⟨v, rfl, by simp, rfl⟩
  | cons tenant tenants ih =>
    obtain ⟨hnot, hnodup⟩ := List.nodup_cons.1 hnodup
    have htenant : v.tenants.find (suspended tenant).id = some tenant :=
      Table.find_eq_some.2 ⟨hrows tenant List.mem_cons_self, rfl⟩
    have hother : ∀ t ∈ tenants, t.id ≠ tenant.id := fun t ht heq ↦
      hnot (List.mem_map.2 ⟨t, ht, heq⟩)
    have hkept : ∀ t ∈ tenants, t ∈ (putTenant (suspended tenant) v).tenants.rows := by
      intro t ht
      rw [rows_putTenant]
      exact List.mem_map.2 ⟨t, hrows t (List.mem_cons_of_mem _ ht), if_neg (hother t ht)⟩
    obtain ⟨v', heval, htenants, hevents⟩ := ih (putTenant (suspended tenant) v) hnodup hkept
    refine ⟨v', ?_, ?_, hevents⟩
    · rw [suspendTenants, Engine.eval_bind]
      change (postgres.eval (saveTenant (suspended tenant)) v >>= _) = _
      rw [eval_saveTenant _ v htenant]
      exact heval
    · rw [htenants, rows_putTenant, List.map_map]
      refine List.map_congr_left fun t ht ↦ ?_
      simp only [Function.comp_apply]
      by_cases hid : t.id = tenant.id
      · obtain rfl : t = tenant := Table.eq_of_find htenant ht hid
        have hgone : suspended t ∉ tenants := fun hmem ↦ hother _ hmem rfl
        rw [if_pos (show t.id = (suspended t).id from rfl), if_neg hgone,
          if_pos List.mem_cons_self]
      · have hne : t ≠ tenant := fun heq ↦ hid (congrArg Tenant.id heq)
        rw [if_neg (show ¬t.id = (suspended tenant).id from hid)]
        simp only [List.mem_cons, hne, false_or]

theorem silent_suspendTenants (tenants : List Tenant) : (suspendTenants tenants).Silent := by
  induction tenants with
  | nil => trivial
  | cons tenant tenants ih =>
    have hsave : (saveTenant { tenant with status := .SUSPENDED }).Silent :=
      silent_saveEntity (silent_query _) fun _ ↦ silent_query _
    exact hsave.bind_silent fun _ ↦ ih

/-- The tenants that the job loads. -/
def expiredTenants (cutoffDate : Timestamp) (d : Db) : List Tenant :=
  d.tenants.rows.filter fun t ↦ t.status = .PAST_DUE ∧
    ∃ expires ∈ t.subscription_expires_at, expires < cutoffDate

theorem mem_expiredTenants {cutoffDate : Timestamp} {d : Db} {t : Tenant} :
    t ∈ expiredTenants cutoffDate d ↔ t ∈ d.tenants.rows ∧ Due cutoffDate t := by
  rw [expiredTenants, List.mem_filter, decide_eq_true_eq]
  rfl

/-- What the job does with the tenants that it has loaded. -/
theorem alone_job (env : Env) (d : Db) :
    postgres.alone (Request.processSaaSExpirations.script env) [] d =
      if expiredTenants (graceCutoff env) d = [] then (.ok .done, d)
      else postgres.alone (suspendTenants (env.ordered (·.id) (expiredTenants (graceCutoff env) d)) >>=
        fun _ ↦ Prog.commit (.ret .done)) [] d := by
  simp only [Request.script, Services.processSaaSExpirations, query, Prog.issue_bind, Prog.stmt_bind]
  rw [Engine.alone]
  simp only [postgres_exec, Sql.exec, Engine.view_nil, List.append_nil]
  change postgres.alone ((if expiredTenants (graceCutoff env) d = [] then pure () else _) >>=
    fun _ ↦ pure Answer.done) [] d = _
  split
  · rfl
  · rw [Prog.bind_assoc]
    rfl

/-- Alone, the job suspends whom it looks for, and does nothing else to tenants and payments. -/
theorem job_suspends (env : Env) (d : Db) :
    (postgres.alone (Request.processSaaSExpirations.script env) [] d).2.tenants.rows =
        d.tenants.rows.map (suspendDue (graceCutoff env)) ∧
      (postgres.alone (Request.processSaaSExpirations.script env) [] d).2.billingEvents =
        d.billingEvents := by
  rw [alone_job]
  set expired := expiredTenants (graceCutoff env) d
  by_cases hnone : expired = []
  · rw [if_pos hnone]
    refine ⟨((List.map_congr_left fun t ht ↦ if_neg fun hdue ↦ ?_).trans (List.map_id _)).symm, rfl⟩
    have hin : t ∈ expired := mem_expiredTenants.2 ⟨ht, hdue⟩
    rw [hnone] at hin
    cases hin
  · rw [if_neg hnone]
    have hkeys : (expired.map (·.id)).Nodup := d.tenants.nodup.sublist (List.filter_sublist.map _)
    have hordered : ∀ t, t ∈ env.ordered (·.id) expired ↔ t ∈ d.tenants.rows ∧ Due (graceCutoff env) t :=
      fun t ↦ (mem_ordered hkeys).trans mem_expiredTenants
    obtain ⟨v', heval, htenants, hevents⟩ := eval_suspendTenants (env.ordered (·.id) expired) d
      (Env.nodup_ordered hkeys) fun t ht ↦ ((hordered t).1 ht).1
    have hwhole : postgres.eval (suspendTenants (env.ordered (·.id) expired) >>=
        fun _ ↦ Prog.commit (.ret Answer.done)) d = .ok (.done, v') := by
      rw [Engine.eval_bind, heval]
      rfl
    have hcommits : (suspendTenants (env.ordered (·.id) expired) >>=
        fun _ ↦ Prog.commit (.ret Answer.done)).Transactional postgres :=
      (silent_suspendTenants _).bind_transactional fun _ ↦ trivial
    rw [(Engine.alone_of_transactional hcommits [] d).2 _ hwhole]
    refine ⟨htenants.trans (List.map_congr_left fun t ht ↦ ?_), hevents⟩
    by_cases hdue : Due (graceCutoff env) t
    · rw [if_pos ((hordered t).2 ⟨ht, hdue⟩), suspendDue, if_pos hdue]
      rfl
    · rw [if_neg fun hin ↦ hdue ((hordered t).1 hin).2, suspendDue, if_neg hdue]

/-! ## Runs -/

theorem suspendDue_fields (cutoffDate : Timestamp) (t : Tenant) :
    (suspendDue cutoffDate t).id = t.id ∧ (suspendDue cutoffDate t).created_at = t.created_at ∧
      (suspendDue cutoffDate t).subscription_expires_at = t.subscription_expires_at := by
  unfold suspendDue
  split <;> exact ⟨rfl, rfl, rfl⟩

theorem unpaid_suspendDue {now cutoffDate : Timestamp} {d d' : Db} {t : Tenant}
    (h : d'.billingEvents = d.billingEvents) :
    Unpaid now d' (suspendDue cutoffDate t) ↔ Unpaid now d t := by
  obtain ⟨hid, hcreated, hexpires⟩ := suspendDue_fields cutoffDate t
  rw [Unpaid, Unpaid, h, hid, hcreated, hexpires]

theorem stopped_suspendDue {cutoffDate : Timestamp} {t : Tenant} :
    Stopped (suspendDue cutoffDate t) ↔ Stopped t ∨ Due cutoffDate t := by
  unfold suspendDue
  split
  · rename_i hdue
    exact ⟨fun _ ↦ Or.inr hdue, fun _ ↦ Or.inl rfl⟩
  · rename_i hdue
    exact (or_iff_left hdue).symm

/-- After any run that ends with the nightly job, those who have not paid are stopped exactly if
they were before or the job looked for them. -/
theorem unpaid_stopped_iff (d : Installation) (calls : List (SaasCall × Env)) (env : Env) :
    UnpaidStopped env.clock (servedCalls d (calls ++ [(.processSaaSExpirations, env)])).db ↔
      UnpaidFound env.clock (servedCalls d calls).db := by
  have hlast : (servedCalls d (calls ++ [(.processSaaSExpirations, env)])).db =
      (postgres.alone (Request.processSaaSExpirations.script env) [] (servedCalls d calls).db).2 := by
    have hjob := alone_onTables (Request.processSaaSExpirations.script env) [] (servedCalls d calls)
    rw [servedCalls, List.foldl_append]
    exact congrArg (fun x : _ × Installation ↦ x.2.db) hjob
  obtain ⟨htenants, hevents⟩ := job_suspends env (servedCalls d calls).db
  rw [hlast, UnpaidStopped, htenants, List.forall_mem_map]
  refine forall₂_congr fun t _ ↦ ?_
  rw [unpaid_suspendDue hevents, stopped_suspendDue]
  rfl

/-! ## Nothing makes a tenant past due -/

def TrialOrActive (t : Tenant) : Prop := t.status = .TRIAL ∨ t.status = .ACTIVE

theorem alone_register (env : Env) (hash : String → String) (dto : RegisterTenantDto)
    (d : Installation) :
    (installed.alone ((SaasCall.register hash dto).script env) [] d).2 = d ∨
      (installed.alone ((SaasCall.register hash dto).script env) [] d).2 =
        installed.view [.insertTenant (tenantRow env dto), .insertUser (adminRow env hash dto)] d := by
  simp only [SaasCall.script, register, installationQuery, Prog.issue_bind, Prog.stmt_bind]
  rw [Engine.alone]
  simp only [installed_exec, InstallationSql.exec, Engine.view_nil, List.append_nil]
  cases (d.users.rows.find? fun u ↦ u.email = dto.email).map (·.id) with
  | some id => exact Or.inl rfl
  | none =>
    simp only [Prog.stmt_bind]
    rw [Engine.alone]
    simp only [installed_exec, InstallationSql.exec, Engine.view_nil]
    split
    · rename_i e hexec
      exact Or.inl rfl
    · rename_i r ws hexec
      split at hexec
      · cases hexec
      · obtain ⟨-, rfl⟩ := Prod.mk.inj (Except.ok.inj hexec)
        rw [Engine.alone]
        split
        · exact Or.inl rfl
        · rename_i r' ws' hexec'
          simp only [installed_exec, InstallationSql.exec] at hexec'
          split at hexec'
          · cases hexec'
          · obtain ⟨-, rfl⟩ := Prod.mk.inj (Except.ok.inj hexec')
            exact Or.inr rfl

/-- A payment leaves every tenant on trial or active. -/
theorem trialOrActive_payment {env : Env} {call : PaymentCall} {d d' : Db}
    {out : Except ServiceError Answer} (hd : ∀ t ∈ d.tenants.rows, TrialOrActive t)
    (hrun : postgres.alone (call.request.script env) [] d = (out, d')) :
    ∀ t ∈ d'.tenants.rows, TrialOrActive t := by
  have halone := (Engine.alone_of_wp (C := deskContract Desk.plain call.request env) Write.locks
    (fun h ↦ Sql.locks_of_exec h) (fun _ _ ↦ DeskRely.refl) (allow_desk_plain _)
    processPayment_desk (fun _ h ↦ (List.not_mem_nil h).elim) hrun).1
  rcases halone with rfl | ⟨lk, ws, hdesk, -, rfl⟩
  · exact hd
  unfold PaymentCall.request at hdesk
  cases hdesk with
  | other _ hoff =>
    rw [tenants_off_desk hoff]
    exact hd
  | paid hheld =>
    rw [tenants_paid env _ hheld.1]
    intro t ht
    obtain ⟨t', ht', rfl⟩ := List.mem_map.1 ht
    split
    · exact Or.inr rfl
    · exact hd t' ht'

/-- No call makes a tenant anything else. -/
theorem trialOrActive_call {d : Installation} (hd : ∀ t ∈ d.db.tenants.rows, TrialOrActive t)
    (call : SaasCall) (env : Env) :
    ∀ t ∈ (installed.alone (call.script env) [] d).2.db.tenants.rows, TrialOrActive t := by
  cases call with
  | register hash dto =>
    rcases alone_register env hash dto d with hsame | hview
    · rwa [hsame]
    · rw [hview]
      intro t ht
      simp only [Engine.view_cons, Engine.view_nil, installed_write, InstallationWrite.apply,
        Table.insert] at ht
      split at ht
      · exact hd t ht
      · rcases List.mem_append.1 ht with ht | ht
        · exact hd t ht
        · obtain rfl := List.mem_singleton.1 ht
          exact Or.inl rfl
  | processPayment call =>
    have hcall := alone_onTables (call.request.script env) [] d
    rw [List.map_nil] at hcall
    rw [SaasCall.script, hcall]
    exact trialOrActive_payment hd rfl
  | processSaaSExpirations =>
    have hcall := alone_onTables (Request.processSaaSExpirations.script env) [] d
    rw [List.map_nil] at hcall
    rw [SaasCall.script, hcall, (job_suspends env d.db).1, List.forall_mem_map]
    -- a tenant on trial or active is not due
    intro t ht
    have hdue : ¬Due (graceCutoff env) t := fun h ↦ by
      rcases hd t ht with htrial | hactive
      · cases htrial.symm.trans h.1
      · cases hactive.symm.trans h.1
    rw [suspendDue, if_neg hdue]
    exact hd t ht

/-- In a run that begins with tenants on trial or active, no tenant is ever anything else. -/
theorem trialOrActive_served {d : Installation} (hd : ∀ t ∈ d.db.tenants.rows, TrialOrActive t)
    (calls : List (SaasCall × Env)) :
    ∀ t ∈ (servedCalls d calls).db.tenants.rows, TrialOrActive t := by
  induction calls generalizing d with
  | nil => exact hd
  | cons x calls ih => exact ih (trialOrActive_call hd x.1 x.2)

/-- So the job finds nobody who has not paid. -/
theorem unpaidFound_served {d : Installation} (hd : ∀ t ∈ d.db.tenants.rows, TrialOrActive t)
    (calls : List (SaasCall × Env)) (now : Timestamp) :
    UnpaidFound now (servedCalls d calls).db ↔
      ∀ t ∈ (servedCalls d calls).db.tenants.rows, ¬Unpaid now (servedCalls d calls).db t := by
  refine forall₂_congr fun t ht ↦ imp_congr_right fun _ ↦ ⟨fun h ↦ ?_, False.elim⟩
  rcases trialOrActive_served hd calls t ht with hstatus | hstatus
  all_goals
    rcases h with (h | h) | h
    · cases hstatus.symm.trans h
    · cases hstatus.symm.trans h
    · cases hstatus.symm.trans h.1

/-! ## A tenant that never pays -/

def kiosco : RegisterTenantDto :=
  { tenant_name := "Kiosco", email := "ana@kiosco.ar", password := "Secreta-1", name := "Ana",
    phone := none }

/-- The environment of the `n`-th call, at this time of this day. -/
def envOfDay (n : ℕ) (day : ℤ) : Env :=
  { sampleEnv n with now := addDays 0 day, clock := addDays 0 day }

/-- A registration, and the job on each of the days after it. -/
def registeredAndChecked (days : ℕ) : List (SaasCall × Env) :=
  (.register id kiosco, envOfDay 0 0) ::
    (List.range days).map fun day ↦ (.processSaaSExpirations, envOfDay (day + 1) (day + 1))

/-- A payment of a tenant that has a subscription, and the job on each of the days after it. -/
def paidAndChecked (days : ℕ) : List (SaasCall × Env) :=
  (.processPayment ⟨"pago", some "sub", .null⟩, envOfDay 0 0) ::
    (List.range days).map fun day ↦ (.processSaaSExpirations, envOfDay (day + 1) (day + 1))

def statusesOf (d : Installation) : List (TenantStatus × Option Timestamp) :=
  d.db.tenants.rows.map fun t ↦ (t.status, t.subscription_expires_at)

/-- On the 18th day of its trial a tenant goes on, and so does one whose month ended 5 days ago. -/
theorem unpaid_go_on :
    (statusesOf (servedCalls newInstallation (registeredAndChecked 18)) = [(.TRIAL, none)] ∧
      ¬UnpaidStopped (addDays 0 18) (servedCalls newInstallation (registeredAndChecked 18)).db) ∧
    (statusesOf (servedCalls ⟨Db.opened (subscribedTenant "sub"), Table.empty⟩ (paidAndChecked 35)) =
        [(.ACTIVE, some (addDays 0 30))] ∧
      ¬UnpaidStopped (addDays 0 35)
        (servedCalls ⟨Db.opened (subscribedTenant "sub"), Table.empty⟩ (paidAndChecked 35)).db) := by
  decide +kernel

end MicroErp.Guarantees
