import MicroErp.Commits.Scopes
import MicroErp.Guarantees.Signatures
import MicroErp.Services.Exports
import MicroErp.Services.NotificationsService

/-!
# No tenant sees another

While no job of the whole service runs, what a tenant gets is what it would get with the service to
itself: the same answers, the same rows and the same waiting, whatever the requests of the other
tenants are and however the statements of all mingle.
-/

namespace MicroErp.Guarantees

open MicroErp.Concurrency MicroErp.Commits MicroErp.Database MicroErp.Services MicroErp.Storage

/-! ## Rows keep their tenants -/

section Owners

variable {ι : Type} (own : Uuid → Option Uuid) (tenant : ι → Option Uuid)

/-- The statements of a session: those of its tenant, or clerical ones if it works for all. -/
def issuesFor : Option Uuid → Sql → Prop
  | some tenantId, o => o.Scoped own tenantId
  | none, o => o.Clerical

def writesFor : Option Uuid → Write → Prop
  | some tenantId, w => w.Scoped own tenantId
  | none, w => w.Clerical

/-- Every statement leaves the rows with the tenants of their identifiers. -/
def ownership : Flow postgres ι where
  inv := Db.Owned own
  issues i := issuesFor own (tenant i)
  answers := Sql.Brings own
  writes i := writesFor own (tenant i)
  exec {i o d r ws} hd hissue hexec := by
    refine ⟨Sql.brings_of_exec hd hexec, ?_⟩
    cases htenant : tenant i with
    | none =>
      rw [htenant] at hissue
      exact Sql.clerical_of_exec hissue hexec
    | some tenantId =>
      rw [htenant] at hissue
      exact Sql.scoped_of_exec hissue hd hexec
  write {i w d} hwrite hd := by
    cases htenant : tenant i with
    | none =>
      rw [htenant] at hwrite
      exact @Write.owned_apply own 0 d w (Or.inr hwrite) hd
    | some tenantId =>
      rw [htenant] at hwrite
      exact Write.owned_apply (Or.inl hwrite) hd

/-- Each tenant has its rows, its locks and its sessions. -/
def tenancy (tenant : ι → Uuid) : Partition (ownership own fun i ↦ some (tenant i)) Uuid where
  owner := tenant
  only tenantId d := d.only tenantId
  holds := LockName.HeldFor own
  needs_holds hd ho := Sql.locks_heldFor ho hd
  needs_only _ ho := Sql.locks_only ho
  exec_only hd ho := Sql.exec_only ho hd
  write_only hd hw := Write.apply_only hw hd
  write_other hd hw hne := Write.apply_other hw hd hne
  apart := LockName.conflicts_of_heldFor

end Owners

section Clerical

variable {own : Uuid → Option Uuid} {env : Env}

theorem saveTenant_clerical (t : Tenant) :
    (saveTenant t).Safe Sql.Clerical (Sql.Brings own) fun _ ↦ True := by
  refine Prog.Safe.bind (Q := fun _ ↦ True) ⟨trivial, fun _ _ ↦ trivial⟩ fun row _ ↦ ?_
  cases row with
  | none => trivial
  | some reread =>
    simp only
    split
    · trivial
    · exact ⟨trivial, fun _ _ ↦ trivial⟩

theorem blockCustomers_clerical (rule : BlockRule) :
    (blockCustomers env rule).Safe Sql.Clerical (Sql.Brings own) fun _ ↦ True := by
  have heach : ∀ ids, (blockEach rule ids).Safe Sql.Clerical (Sql.Brings own) fun _ ↦ True := by
    intro ids
    induction ids with
    | nil => trivial
    | cons id ids ih => exact ⟨trivial, fun _ _ ↦ ih⟩
  exact ⟨trivial, fun ids _ ↦ (heach _).bind fun _ _ ↦ trivial⟩

theorem processPayment_clerical (externalPaymentId : String) (subscriptionId : Option String)
    (rawPayload : JsonValue) :
    (processPayment env externalPaymentId subscriptionId rawPayload).Safe Sql.Clerical
      (Sql.Brings own) fun _ ↦ True := by
  refine ⟨trivial, fun event _ ↦ ?_⟩
  cases event with
  | some event => trivial
  | none =>
    refine ⟨trivial, fun row _ ↦ ?_⟩
    cases row with
    | none => trivial
    | some tenant =>
      refine ⟨trivial, fun _ _ ↦ ⟨fun row hrow ↦ ⟨tenant.id, List.mem_singleton.1 hrow⟩, fun _ _ ↦ ?_⟩⟩
      exact (saveTenant_clerical _).bind fun _ _ ↦ trivial

theorem processSaaSExpirations_clerical :
    (processSaaSExpirations env).Safe Sql.Clerical (Sql.Brings own) fun _ ↦ True := by
  have hsuspend : ∀ tenants, (suspendTenants tenants).Safe Sql.Clerical (Sql.Brings own)
      fun _ ↦ True := by
    intro tenants
    induction tenants with
    | nil => trivial
    | cons tenant tenants ih => exact (saveTenant_clerical _).bind fun _ _ ↦ ih
  refine Prog.Safe.bind (Q := fun _ ↦ True) ⟨trivial, fun _ _ ↦ trivial⟩ fun expired _ ↦ ?_
  split
  · trivial
  · exact (hsuspend _).bind fun _ _ ↦ trivial

theorem processOverdueCustomers_clerical (today : Date) :
    (processOverdueCustomers env today).Safe Sql.Clerical (Sql.Brings own) fun _ ↦ True := by
  have hmark : ∀ ids, (markCustomers ids).Safe Sql.Clerical (Sql.Brings own) fun _ ↦ True := by
    intro ids
    induction ids with
    | nil => trivial
    | cons id ids ih => exact ⟨trivial, fun _ _ ↦ ih⟩
  refine Prog.Safe.bind (Q := fun _ ↦ True) ⟨trivial, fun _ _ ↦ trivial⟩ fun ids _ ↦ ?_
  split
  · trivial
  · exact (hmark _).bind fun _ _ ↦ trivial

theorem script_clerical {req : Request} (htenant : tenantOf req = none) :
    (req.script env).Safe Sql.Clerical (Sql.Brings own) fun _ ↦ True := by
  cases req with
  | processPayment => exact (processPayment_clerical _ _ _).bind fun _ _ ↦ trivial
  | processSaaSExpirations => exact processSaaSExpirations_clerical.bind fun _ _ ↦ trivial
  | processOverdueCustomers => exact (processOverdueCustomers_clerical _).bind fun _ _ ↦ trivial
  | processAutoBlockOnLimit => exact (blockCustomers_clerical _).bind fun _ _ ↦ trivial
  | _ => cases htenant

end Clerical

section Sessions

variable {ι : Type} {req : ι → Request} {env : ι → Env} {d : Db} {own : Uuid → Option Uuid}

/-- The identifiers that the sessions generate belong to their tenants. -/
def Mints (own : Uuid → Option Uuid) (req : ι → Request) (env : ι → Env) : Prop :=
  ∀ i, ∀ tenantId ∈ tenantOf (req i), ∀ n, own ((env i).fresh n) = some tenantId

/-- As identifiers are generated once, they can be given to the tenants. -/
theorem exists_mints (hids : FreshIds req env) (own₀ : Uuid → Option Uuid) :
    ∃ own, Mints own req env ∧ ∀ id, (∀ i n, (env i).fresh n ≠ id) → own id = own₀ id := by
  classical
  refine ⟨fun id ↦ if h : ∃ i n, (env i).fresh n = id then tenantOf (req h.choose) else own₀ id, fun i tenantId htenant n ↦ ?_, fun id hid ↦ ?_⟩
  · have h : ∃ j m, (env j).fresh m = (env i).fresh n := ⟨i, n, rfl⟩
    obtain ⟨m, hm⟩ := h.choose_spec
    have hi : h.choose = i := (hids.distinct _ _ _ _ hm).1
    simp only [dif_pos h]
    rw [hi]
    exact htenant
  · exact dif_neg fun ⟨i, n, h⟩ ↦ hid i n h

theorem script_issues (hmints : Mints own req env) (i : ι) :
    ((req i).script (env i)).Safe (issuesFor own (tenantOf (req i))) (Sql.Brings own)
      fun _ ↦ True := by
  cases htenant : tenantOf (req i) with
  | none => exact script_clerical htenant
  | some tenantId => exact script_stays htenant (hmints i tenantId htenant)

variable [DecidableEq ι]

theorem owned_run (hmints : Mints own req env) (hd : d.Owned own) (es : List (Event ι)) :
    (ownership own fun i ↦ tenantOf (req i)).Holds (fun _ _ ↦ True)
      (postgres.run (serve req env d) es) :=
  (Flow.Holds.start hd fun i ↦ script_issues hmints i).run es

end Sessions

theorem owned_opened (own : Uuid → Option Uuid) (tenants : Table Tenant) : (Db.opened tenants).Owned own where
  customers _ h := (List.not_mem_nil h).elim
  transactions _ h := (List.not_mem_nil h).elim
  batches _ h := (List.not_mem_nil h).elim
  shifts _ h := (List.not_mem_nil h).elim

/-- In a reachable database the rows of every customer, group and shift lie with one tenant. -/
theorem owned_of_reachable {d : Db} (h : Reachable d) : ∃ own, d.Owned own := by
  obtain ⟨ι, _, req, env, tenants, es, hids, rfl⟩ := h
  obtain ⟨own, hmints, -⟩ := exists_mints hids fun _ ↦ none
  exact ⟨own, (owned_run hmints (owned_opened own tenants) es).db⟩

/-! ## The view of a tenant -/

/-- The generated identifiers do not occur in the database. -/
structure NewTo (env : Env) (d : Db) : Prop where
  customers : ∀ c ∈ d.customers.rows, ∀ n, env.fresh n ≠ c.id
  transactions : ∀ t ∈ d.transactions.rows, ∀ n,
    env.fresh n ≠ t.id ∧ env.fresh n ≠ t.customer_id ∧ t.reference_group_id ≠ some (env.fresh n)
  batches : ∀ b ∈ d.batches.rows, ∀ n, env.fresh n ≠ b.id
  shifts : ∀ s ∈ d.shifts.rows, ∀ n, env.fresh n ≠ s.id

section Views

variable {ι : Type} {req : ι → Request} {env : ι → Env} {d : Db}

/-- The identifiers in the database and the new ones together belong to tenants. -/
theorem exists_owner (hd : Reachable d) (hids : FreshIds req env) (hnew : ∀ i, NewTo (env i) d) :
    ∃ own, Mints own req env ∧ d.Owned own := by
  obtain ⟨own₀, hown₀⟩ := owned_of_reachable hd
  obtain ⟨own, hmints, hold⟩ := exists_mints hids own₀
  refine ⟨own, hmints, ⟨fun c hc ↦ ?_, fun t ht ↦ ⟨?_, ?_, fun g hg ↦ ?_⟩, fun b hb ↦ ?_,
    fun s hs ↦ ?_⟩⟩
  · rw [hold _ fun i n ↦ (hnew i).customers c hc n]
    exact hown₀.customers c hc
  · rw [hold _ fun i n ↦ ((hnew i).transactions t ht n).1]
    exact (hown₀.transactions t ht).id
  · rw [hold _ fun i n ↦ ((hnew i).transactions t ht n).2.1]
    exact (hown₀.transactions t ht).customer
  · rw [hold _ fun i n heq ↦ ((hnew i).transactions t ht n).2.2 (heq ▸ hg)]
    exact (hown₀.transactions t ht).group g hg
  · rw [hold _ fun i n ↦ (hnew i).batches b hb n]
    exact hown₀.batches b hb
  · rw [hold _ fun i n ↦ (hnew i).shifts s hs n]
    exact hown₀.shifts s hs

variable [DecidableEq ι] {tenant : ι → Uuid}

/-- The events of the sessions of a tenant. -/
def eventsOf (tenant : ι → Uuid) (tenantId : Uuid) (es : List (Event ι)) : List (Event ι) :=
  es.filter fun e ↦ tenant e.session = tenantId

/-- What a tenant sees of a run. -/
theorem projects_run (hd : Reachable d) (hids : FreshIds req env) (hnew : ∀ i, NewTo (env i) d)
    (htenant : ∀ i, tenantOf (req i) = some (tenant i)) (tenantId : Uuid) {script : ι → Script Answer}
    (hscript : ∀ i, tenant i = tenantId → script i = (req i).script (env i)) (es : List (Event ι)) :
    ∃ own, (tenancy own tenant).Projects tenantId (postgres.run (serve req env d) es)
      (postgres.run (Sys.start (d.only tenantId) script) (eventsOf tenant tenantId es)) := by
  obtain ⟨own, hmints, howned⟩ := exists_owner hd hids hnew
  have hholds : (ownership own fun i ↦ some (tenant i)).Holds (fun _ _ ↦ True)
      (serve req env d) := by
    refine Flow.Holds.start howned fun i ↦ ?_
    have hissues := script_issues hmints i
    rw [htenant i] at hissues
    exact hissues
  refine ⟨own, Partition.Projects.run ?_ hholds (fun h hh ↦ (List.not_mem_nil hh).elim) es⟩
  exact Partition.Projects.start d _ _ hscript

/-- While no job of the whole service runs, a tenant's answers and rows are those of its requests
alone on its rows, in the order in which they took their steps. -/
theorem tenant_runs_alone (hd : Reachable d) (hids : FreshIds req env)
    (hnew : ∀ i, NewTo (env i) d) (htenant : ∀ i, tenantOf (req i) = some (tenant i))
    (tenantId : Uuid) (es : List (Event ι)) :
    let s := postgres.run (serve req env d) es
    let alone := postgres.run (serve req env (d.only tenantId)) (eventsOf tenant tenantId es)
    alone.db = s.db.only tenantId ∧
      alone.log = s.log.filter (fun x ↦ tenant x.1 = tenantId) ∧
      ∀ i, tenant i = tenantId → alone.outcome i = s.outcome i := by
  obtain ⟨own, hsees⟩ := projects_run hd hids hnew htenant tenantId (fun _ _ ↦ rfl) es
  exact ⟨hsees.db, hsees.log, fun i hi ↦ hsees.outcome_eq hi⟩

end Views

theorem newTo_opened (env : Env) (tenants : Table Tenant) : NewTo env (Db.opened tenants) where
  customers _ h := (List.not_mem_nil h).elim
  transactions _ h := (List.not_mem_nil h).elim
  batches _ h := (List.not_mem_nil h).elim
  shifts _ h := (List.not_mem_nil h).elim

def neighbours : Table Tenant :=
  sampleTenants.insert
    { id := 2, tenant_name := "Almacén", subscription_plan := "FREE", subscription_expires_at := none,
      status := .ACTIVE, mp_subscription_id := none, settings := [], active_cash_shift_id := none,
      created_at := 0 }

/-- Two shops at work: the first has a customer who gets into debt, the second one tries to charge
the same customer. -/
def mingled : Fin 4 → Request
  | 0 => .createCustomer 1 ana
  | 1 => .createCustomer 2 beto
  | 2 => .registerDebt 1 2 (debtOf100 100 7)
  | 3 => .registerDebt 2 2 (debtOf100 100 7)

def shopOf : Fin 4 → Uuid
  | 0 => 1
  | 1 => 2
  | 2 => 1
  | 3 => 2

theorem tenantOf_mingled (i : Fin 4) : tenantOf (mingled i) = some (shopOf i) := by
  revert i
  decide

theorem freshIds_mingled : FreshIds mingled fun i ↦ sampleEnv i :=
  freshIds_sample Fin.val_injective (by decide) (by decide)

def sideBySide : List (Event (Fin 4)) :=
  inTurn [(0, 3), (1, 2), (0, 8), (1, 8), (2, 2), (3, 9), (2, 9)]

theorem tenant_runs_alone_mingled :
    (postgres.run (serve mingled (fun i ↦ sampleEnv i) ((Db.opened neighbours).only 1))
        (eventsOf shopOf 1 sideBySide)).db =
      (postgres.run (serve mingled (fun i ↦ sampleEnv i) (Db.opened neighbours)) sideBySide).db.only 1 :=
  (tenant_runs_alone (reachable_opened neighbours) freshIds_mingled
    (fun _ ↦ newTo_opened _ neighbours) tenantOf_mingled 1 sideBySide).1

/-! ## Two services that agree on a tenant -/

/-- What a tenant can read, with the order in which the database answers. -/
inductive Report where
  | getActiveSummary (env : Env)
  | getHistory (find : ShiftFind) (page limit : ℕ)
  | getShiftById (order : TransactionOrder) (shiftId : Uuid)
  | getMetrics (env : Env)
  | createDebtorsStream (order : DebtorOrder)
  | findAllByTenant (order : NameOrder)
  | findOne (customerId : Uuid)
  | exportCsv (order : NameOrder) (zone : ℤ)
  | findByCustomer (find : TransactionFind) (customerId : Uuid) (pagination : PaginationQueryDto)
  | getSettings
  | generateSummaryLink (customerId : Uuid)
  | getPublicSummary (order : TransactionOrder) (customerId : Uuid)

/-- Both databases give the tenant the same answer. -/
def Report.Same (tenantId : Uuid) (d d' : Db) : Report → Prop
  | getActiveSummary env =>
      Services.getActiveSummary env tenantId d = Services.getActiveSummary env tenantId d'
  | getHistory find page limit =>
      Services.getHistory find tenantId page limit d = Services.getHistory find tenantId page limit d'
  | getShiftById order shiftId =>
      Services.getShiftById order tenantId shiftId d = Services.getShiftById order tenantId shiftId d'
  | getMetrics env => Services.getMetrics env tenantId d = Services.getMetrics env tenantId d'
  | createDebtorsStream order =>
      Services.createDebtorsStream order tenantId d = Services.createDebtorsStream order tenantId d'
  | findAllByTenant order =>
      Services.findAllByTenant order tenantId d = Services.findAllByTenant order tenantId d'
  | findOne customerId =>
      Services.findOne tenantId customerId d = Services.findOne tenantId customerId d'
  | exportCsv order zone =>
      Services.exportCsv order zone tenantId d = Services.exportCsv order zone tenantId d'
  | findByCustomer find customerId pagination =>
      Services.findByCustomer find tenantId customerId pagination d =
        Services.findByCustomer find tenantId customerId pagination d'
  | getSettings => Services.getSettings tenantId d = Services.getSettings tenantId d'
  | generateSummaryLink customerId =>
      Services.generateSummaryLink tenantId customerId d =
        Services.generateSummaryLink tenantId customerId d'
  | getPublicSummary order customerId =>
      Services.getPublicSummary order (some ⟨tenantId, customerId, some "summary"⟩) d =
        Services.getPublicSummary order (some ⟨tenantId, customerId, some "summary"⟩) d'

section Reports

variable {tenantId : Uuid} {d d' : Db}

theorem paymentCount_only (openedAt : Timestamp) :
    (d.only tenantId).paymentCount tenantId openedAt = d.paymentCount tenantId openedAt := by
  unfold Db.paymentCount Db.only
  rw [Table.filter_restrict fun t ht ↦ ?_]
  simpa using (of_decide_eq_true ht).1.1

theorem transfersSince_only (openedAt : Timestamp) :
    (d.only tenantId).transfersSince tenantId openedAt = d.transfersSince tenantId openedAt := by
  unfold Db.transfersSince Db.only
  rw [Table.filter_restrict fun t ht ↦ ?_]
  simpa using (of_decide_eq_true ht).1.1

theorem movedSince_only (type : TransactionType) (since : Timestamp) :
    (d.only tenantId).movedSince tenantId type since = d.movedSince tenantId type since := by
  unfold Db.movedSince Db.only
  rw [Table.filter_restrict fun t ht ↦ ?_]
  simpa using (of_decide_eq_true ht).1

theorem debtorsOf_only : (d.only tenantId).debtorsOf tenantId = d.debtorsOf tenantId := by
  unfold Db.debtorsOf
  rw [Db.customersOf_only]

theorem getActiveSummary_only (env : Env) :
    getActiveSummary env tenantId (d.only tenantId) = getActiveSummary env tenantId d := by
  have hshifts : (d.only tenantId).shifts.rows.filter
      (fun s ↦ s.tenant_id = tenantId ∧ s.status = .OPEN) =
      d.shifts.rows.filter fun s ↦ s.tenant_id = tenantId ∧ s.status = .OPEN := by
    refine Table.filter_restrict fun s hs ↦ ?_
    simpa using (of_decide_eq_true hs).1
  unfold getActiveSummary
  rw [hshifts]
  simp only [Db.cashSince_only, paymentCount_only, transfersSince_only]

theorem getMetrics_only (env : Env) :
    getMetrics env tenantId (d.only tenantId) = getMetrics env tenantId d := by
  unfold getMetrics Db.totalReceivable
  simp only [Db.customersOf_only, debtorsOf_only, movedSince_only]

theorem getShiftById_only (order : TransactionOrder) (shiftId : Uuid) :
    getShiftById order tenantId shiftId (d.only tenantId) = getShiftById order tenantId shiftId d := by
  have hshift : ((d.only tenantId).shifts.find shiftId).filter (fun s ↦ s.tenant_id = tenantId) =
      (d.shifts.find shiftId).filter fun s ↦ s.tenant_id = tenantId := by
    unfold Db.only
    rw [Table.find_restrict, Option.filter_filter]
    simp
  have hrows : (d.only tenantId).transactions.rows.filter
      (fun t ↦ t.tenant_id = tenantId ∧ t.cash_register_log_id = some shiftId) =
      d.transactions.rows.filter fun t ↦
        t.tenant_id = tenantId ∧ t.cash_register_log_id = some shiftId := by
    refine Table.filter_restrict fun t ht ↦ ?_
    simpa using (of_decide_eq_true ht).1
  unfold getShiftById
  rw [hshift, hrows]

theorem getHistory_only (find : ShiftFind) (page limit : ℕ) :
    getHistory find tenantId page limit (d.only tenantId) = getHistory find tenantId page limit d := by
  have hrows : (d.only tenantId).shifts.rows.filter (fun s ↦ s.tenant_id = tenantId) =
      d.shifts.rows.filter fun s ↦ s.tenant_id = tenantId :=
    Table.filter_restrict fun _ hs ↦ hs
  unfold getHistory
  rw [hrows]

theorem getPublicSummary_only (order : TransactionOrder) (payload : SummaryTokenPayload)
    (h : payload.tenant_id = tenantId) :
    getPublicSummary order (some payload) (d.only tenantId) = getPublicSummary order (some payload) d := by
  subst h
  unfold getPublicSummary recentOf
  simp only [Db.transactionsOf_only, Db.find_tenant_only, Db.customer_only]

/-- Whatever a tenant reads is in its rows. -/
theorem Report.same_only (report : Report) : report.Same tenantId (d.only tenantId) d := by
  cases report with
  | getActiveSummary env => exact getActiveSummary_only env
  | getHistory find page limit => exact getHistory_only find page limit
  | getShiftById order shiftId => exact getShiftById_only order shiftId
  | getMetrics env => exact getMetrics_only env
  | createDebtorsStream order =>
    simp only [Same, Services.createDebtorsStream, Db.customersOf_only]
  | findAllByTenant order => simp only [Same, Services.findAllByTenant, Db.customersOf_only]
  | findOne customerId => simp only [Same, Services.findOne, Db.customer_only]
  | exportCsv order zone => simp only [Same, Services.exportCsv, Db.customersOf_only]
  | findByCustomer find customerId pagination =>
    simp only [Same, Services.findByCustomer, Db.transactionsOf_only]
  | getSettings => simp only [Same, Services.getSettings, Db.find_tenant_only]
  | generateSummaryLink customerId =>
    simp only [Same, Services.generateSummaryLink, Db.customer_only]
  | getPublicSummary order customerId => exact getPublicSummary_only order _ rfl

theorem Report.same_of_only {report : Report} (h : d.only tenantId = d'.only tenantId) :
    report.Same tenantId d d' := by
  have hd : report.Same tenantId (d.only tenantId) d := report.same_only
  have hd' : report.Same tenantId (d'.only tenantId) d' := report.same_only
  rw [h] at hd
  cases report <;> exact hd.symm.trans hd'

end Reports

section Worlds

variable {ι : Type} [DecidableEq ι] {req req' : ι → Request} {env env' : ι → Env} {d d' : Db}
  {tenant tenant' : ι → Uuid} {es es' : List (Event ι)}

/-- Two services that agree on the requests, the rows and the steps of a tenant give it the same
answers, the same rows and the same reports, whatever else differs. -/
theorem noninterference (hd : Reachable d) (hd' : Reachable d') (hids : FreshIds req env)
    (hids' : FreshIds req' env') (hnew : ∀ i, NewTo (env i) d) (hnew' : ∀ i, NewTo (env' i) d')
    (htenant : ∀ i, tenantOf (req i) = some (tenant i))
    (htenant' : ∀ i, tenantOf (req' i) = some (tenant' i)) (tenantId : Uuid)
    (hsessions : ∀ i, tenant i = tenantId ∨ tenant' i = tenantId → req i = req' i ∧ env i = env' i)
    (hrows : d.only tenantId = d'.only tenantId)
    (hsteps : eventsOf tenant tenantId es = eventsOf tenant' tenantId es') :
    let s := postgres.run (serve req env d) es
    let s' := postgres.run (serve req' env' d') es'
    s.db.only tenantId = s'.db.only tenantId ∧
      (∀ i, tenant i = tenantId → s.outcome i = s'.outcome i) ∧
      ∀ report : Report, report.Same tenantId s.db s'.db := by
  intro s s'
  obtain ⟨own, hsees⟩ := projects_run hd hids hnew htenant tenantId (fun _ _ ↦ rfl) es
  have hscript : ∀ i, tenant' i = tenantId →
      (req i).script (env i) = (req' i).script (env' i) := by
    intro i hi
    obtain ⟨hreq, henv⟩ := hsessions i (Or.inr hi)
    rw [hreq, henv]
  obtain ⟨own', hsees'⟩ := projects_run hd' hids' hnew' htenant' tenantId hscript es'
  rw [← hrows, ← hsteps] at hsees'
  have hdb : s.db.only tenantId = s'.db.only tenantId := hsees.db.symm.trans hsees'.db
  refine ⟨hdb, fun i hi ↦ ?_, fun report ↦ Report.same_of_only hdb⟩
  have hi' : tenant' i = tenantId := by
    have hsame := htenant' i
    rw [← (hsessions i (Or.inl hi)).1, htenant i, hi] at hsame
    exact (Option.some.inj hsame).symm
  exact (hsees.outcome_eq hi).symm.trans (hsees'.outcome_eq hi')

end Worlds

/-- The second shop does something else. -/
def elsewhere : Fin 4 → Request
  | 0 => .createCustomer 1 ana
  | 1 => .openTurn 2 3 openingTurn
  | 2 => .registerDebt 1 2 (debtOf100 100 7)
  | 3 => .createCustomer 2 carla

theorem tenantOf_elsewhere (i : Fin 4) : tenantOf (elsewhere i) = some (shopOf i) := by
  revert i
  decide

theorem freshIds_elsewhere : FreshIds elsewhere fun i ↦ sampleEnv i :=
  freshIds_sample Fin.val_injective (by decide) (by decide)

theorem mingled_eq_elsewhere (i : Fin 4) (h : shopOf i = 1 ∨ shopOf i = 1) :
    mingled i = elsewhere i ∧ sampleEnv i = sampleEnv i := by
  have hi : i = 0 ∨ i = 2 := by
    revert i
    decide
  rcases hi with rfl | rfl <;> exact ⟨rfl, rfl⟩

theorem noninterference_mingled :
    (postgres.run (serve mingled (fun i ↦ sampleEnv i) (Db.opened neighbours)) sideBySide).outcome 2 =
      (postgres.run (serve elsewhere (fun i ↦ sampleEnv i) (Db.opened neighbours))
        (inTurn [(0, 11), (2, 11)])).outcome 2 := by
  have hsteps : eventsOf shopOf 1 sideBySide = eventsOf shopOf 1 (inTurn [(0, 11), (2, 11)]) := rfl
  have h := noninterference (reachable_opened neighbours) (reachable_opened neighbours)
    freshIds_mingled freshIds_elsewhere (fun _ ↦ newTo_opened _ neighbours)
    (fun _ ↦ newTo_opened _ neighbours) tenantOf_mingled tenantOf_elsewhere 1 mingled_eq_elsewhere
    rfl hsteps
  exact h.2.1 2 rfl

end MicroErp.Guarantees
