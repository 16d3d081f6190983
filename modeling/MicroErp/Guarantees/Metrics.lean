import MicroErp.Guarantees.DailyJob
import MicroErp.Concurrency.Dataflow
import MicroErp.Concurrency.Single
import MicroErp.Services.DashboardService
import MicroErp.Services.Rounding

/-!
# Who counts as a debtor in arrears

The dashboard divides the debtors with an expired promise by the active debtors, and an expired
promise is one before this instant, while the daily job takes the promises before today.  So the
ratio is one of debtors when none of those in arrears is blocked, and the two counts agree when
nobody promised to pay today.
-/

namespace MicroErp.Guarantees

open MicroErp.Commits MicroErp.Concurrency MicroErp.Database MicroErp.Services MicroErp.Storage

/-! ## The ratio of two counts -/

/-- The double of a number of two decimals, next to `exact` but for the error of doubles. -/
def TwoDecimals (value exact : ℚ) : Prop :=
  ∃ m : ℤ, value = toDouble (m / 100) ∧ |m / 100 - exact| ≤ 1 / 200 + 1 / 10 ^ 12

section Ratio

variable {a n : ℕ}

/-- What is rounded to an integer is close to the exact ratio. -/
theorem abs_scaled_sub_le {q : ℚ} (hq : 0 ≤ q) (hle : q ≤ 1) :
    |toDouble (toDouble q * 10000) - q * 10000| ≤ 1 / 10 ^ 10 := by
  have hquotient := abs_toDouble_sub_le q
  have hproduct := abs_toDouble_sub_le (toDouble q * 10000)
  rw [abs_of_nonneg hq] at hquotient
  rw [abs_of_nonneg (mul_nonneg (toDouble_nonneg hq) (by norm_num))] at hproduct
  have hdouble : toDouble q ≤ 2 := by
    refine (toDouble_le hq).trans ?_
    norm_num
    linarith
  rw [abs_le] at hquotient hproduct ⊢
  norm_num at hquotient hproduct ⊢
  constructor <;> linarith

theorem toDouble_hundred : toDouble 100 = 100 := by decide +kernel

/-- Of a number of whole hundredths up to 100, the double is up to 100. -/
theorem toDouble_hundredths_le {m : ℤ} (hm : 0 ≤ m) (hle : m ≤ 10000) :
    toDouble (m / 100) ≤ 100 := by
  have hm' : (0 : ℚ) ≤ m := by exact_mod_cast hm
  rcases hle.eq_or_lt with rfl | hlt
  · rw [show ((10000 : ℤ) : ℚ) / 100 = 100 by norm_num, toDouble_hundred]
  · have hlt' : (m : ℚ) ≤ 9999 := by exact_mod_cast Int.lt_add_one_iff.1 hlt
    refine (toDouble_le (by positivity)).trans ?_
    norm_num
    linarith

/-- The ratio of a part to the whole is a percentage, to two decimals. -/
theorem moraRatio_spec (h : a ≤ n) :
    (0 ≤ moraRatio a n ∧ moraRatio a n ≤ 100) ∧ TwoDecimals (moraRatio a n) (100 * (a / n)) := by
  unfold moraRatio
  split
  · rename_i hpos
    have hn : (0 : ℚ) < n := by exact_mod_cast hpos
    have hle : (a : ℚ) / n ≤ 1 := by
      rw [div_le_one hn]
      exact_mod_cast h
    have hratio : (0 : ℚ) ≤ a / n := by positivity
    have hscaled := abs_le.1 (abs_scaled_sub_le hratio hle)
    generalize hx : toDouble (toDouble (a / n) * 10000) = x at hscaled ⊢
    have hx₀ : 0 ≤ x := hx ▸ toDouble_nonneg (mul_nonneg (toDouble_nonneg hratio) (by norm_num))
    have hm₀ : 0 ≤ mathRound x := mathRound_nonneg hx₀
    have hm : mathRound x ≤ 10000 := mathRound_le (by push_cast; linarith)
    have hround := abs_le.1 (abs_mathRound_sub_le x)
    refine ⟨⟨toDouble_nonneg ?_, toDouble_hundredths_le hm₀ hm⟩, mathRound x, rfl, ?_⟩
    · have hm₀' : (0 : ℚ) ≤ mathRound x := by exact_mod_cast hm₀
      positivity
    · rw [abs_le]
      constructor <;> linarith
  · rename_i hzero
    obtain rfl : n = 0 := by omega
    refine ⟨⟨le_rfl, by norm_num⟩, 0, ?_, by norm_num⟩
    norm_num [toDouble_zero]

end Ratio

/-! ## The debtors of a tenant -/

/-- The promise lies before this instant, as the dashboard sees it. -/
def PromiseBefore (now : Timestamp) (c : Customer) : Prop :=
  ∃ day ∈ c.next_payment_promise, midnight day < now

/-- The promise has expired, as the daily job sees it. -/
def Expired (today : Date) (c : Customer) : Prop := ∃ day ∈ c.next_payment_promise, day < today

instance (now : Timestamp) (c : Customer) : Decidable (PromiseBefore now c) :=
  inferInstanceAs (Decidable (∃ day ∈ c.next_payment_promise, midnight day < now))

instance (today : Date) (c : Customer) : Decidable (Expired today c) :=
  inferInstanceAs (Decidable (∃ day ∈ c.next_payment_promise, day < today))

variable {env : Env} {tenantId : Uuid} {d d' : Db} {metrics : DashboardMetrics} {today : Date}

def activeDebtors (tenantId : Uuid) (d : Db) : List Customer :=
  (d.debtorsOf tenantId).filter fun c ↦ c.is_active = true

/-- The active debtors with an expired promise. -/
def activeInArrears (now : Timestamp) (tenantId : Uuid) (d : Db) : List Customer :=
  (activeDebtors tenantId d).filter fun c ↦ PromiseBefore now c

theorem getMetrics_counts (h : getMetrics env tenantId d = .ok metrics) :
    metrics.active_debtors = (activeDebtors tenantId d).length ∧
      metrics.overdue_promises =
        ((d.debtorsOf tenantId).filter fun c ↦ PromiseBefore env.now c).length ∧
      metrics.mora_ratio = moraRatio metrics.overdue_promises metrics.active_debtors := by
  unfold getMetrics at h
  simp only [bind_eq_ok] at h
  obtain ⟨_, -, _, -, _, -, _, -, _, -, h⟩ := h
  obtain rfl := Except.ok.inj h
  exact ⟨rfl, rfl, rfl⟩

/-- Of two conditions the narrower one counts as many rows when the wider one implies it. -/
theorem length_filter_eq_iff {α : Type} {rows : List α} {P Q : α → Prop} [DecidablePred P]
    [DecidablePred Q] (h : ∀ r, Q r → P r) :
    (rows.filter fun r ↦ P r).length = (rows.filter fun r ↦ Q r).length ↔
      ∀ r ∈ rows, P r → Q r := by
  have hnarrow : (rows.filter fun r ↦ Q r) = (rows.filter fun r ↦ P r).filter fun r ↦ Q r := by
    rw [List.filter_filter]
    refine List.filter_congr fun r _ ↦ ?_
    simpa using h r
  rw [hnarrow, eq_comm, List.length_filter_eq_length_iff]
  simp only [List.mem_filter, decide_eq_true_eq, and_imp]

/-- All debtors in arrears are counted as debtors exactly when none of them is blocked. -/
theorem overdue_eq_iff (now : Timestamp) (tenantId : Uuid) (d : Db) :
    ((d.debtorsOf tenantId).filter fun c ↦ PromiseBefore now c).length =
        (activeInArrears now tenantId d).length ↔
      ∀ c ∈ d.customersOf tenantId, c.is_active = false → 0 < c.balance_cents →
        ¬PromiseBefore now c := by
  have hcomm : activeInArrears now tenantId d =
      (d.debtorsOf tenantId).filter fun c ↦ c.is_active = true ∧ PromiseBefore now c := by
    rw [activeInArrears, activeDebtors, List.filter_filter]
    exact List.filter_congr fun c _ ↦ by simp [Bool.and_comm]
  rw [hcomm, length_filter_eq_iff fun _ h ↦ h.2]
  constructor
  · intro hactive c hc hblocked hbalance hpromise
    have htrue := (hactive c (List.mem_filter.2 ⟨hc, decide_eq_true hbalance⟩) hpromise).1
    rw [hblocked] at htrue
    cases htrue
  · intro hnone c hdebtor hpromise
    obtain ⟨hc, hbalance⟩ := List.mem_filter.1 hdebtor
    refine ⟨by_contra fun hblocked ↦ ?_, hpromise⟩
    exact hnone c hc (Bool.eq_false_iff.2 hblocked) (of_decide_eq_true hbalance) hpromise

/-- The ratio is that of the debtors in arrears among the debtors, all of them counted by both. -/
structure RatioOfDebtors (env : Env) (tenantId : Uuid) (d : Db) (metrics : DashboardMetrics) :
    Prop where
  range : 0 ≤ metrics.mora_ratio ∧ metrics.mora_ratio ≤ 100
  ratio : TwoDecimals metrics.mora_ratio
    (100 * ((activeInArrears env.now tenantId d).length / (activeDebtors tenantId d).length))
  nested : metrics.overdue_promises = (activeInArrears env.now tenantId d).length
  noDebtors : activeDebtors tenantId d = [] → metrics.mora_ratio = 0

/-- The ratio is a percentage of the debtors exactly when no debtor with an expired promise is
blocked. -/
theorem ratio_of_debtors_iff (h : getMetrics env tenantId d = .ok metrics) :
    RatioOfDebtors env tenantId d metrics ↔
      ∀ c ∈ d.customersOf tenantId, c.is_active = false → 0 < c.balance_cents →
        ¬PromiseBefore env.now c := by
  obtain ⟨hactive, hoverdue, hratio⟩ := getMetrics_counts h
  rw [← overdue_eq_iff, ← hoverdue]
  constructor
  · exact fun hof ↦ hof.nested
  · intro hnested
    have hle : (activeInArrears env.now tenantId d).length ≤ (activeDebtors tenantId d).length :=
      List.length_filter_le _ _
    obtain ⟨hrange, hdecimals⟩ := moraRatio_spec hle
    rw [hnested, hactive] at hratio
    refine ⟨hratio ▸ hrange, hratio ▸ hdecimals, hnested, fun hnone ↦ ?_⟩
    rw [hratio, hnone]
    rfl

/-! ## The day of a job -/

/-- What the two counts read of a customer. -/
def debtOf (c : Customer) : Uuid × ℤ × Option Date :=
  (c.tenant_id, c.balance_cents, c.next_payment_promise)

/-- The statements of the job. -/
def JobStatement : Sql → Prop
  | .findOverdueCustomers _ | .markOverdue _ | .selectBlocked _ | .blockCustomer _ _
  | .findAutoBlockTenants => True
  | _ => False

/-- No statement of the job changes what anybody owes or promised. -/
def debtFlow (d : Db) : Flow postgres Unit where
  inv d' := d'.customers.rows.map debtOf = d.customers.rows.map debtOf
  issues _ := JobStatement
  answers _ _ := True
  writes _ w := ∃ (flag : Flag) (id : Uuid), w = flag.write id
  exec {_ o v r ws} _ hissued hexec := by
    refine ⟨trivial, fun w hw ↦ ?_⟩
    cases o with
    | findOverdueCustomers today =>
      obtain ⟨-, rfl⟩ := Prod.mk.inj (Except.ok.inj hexec)
      cases hw
    | selectBlocked rule =>
      obtain ⟨-, rfl⟩ := Prod.mk.inj (Except.ok.inj hexec)
      cases hw
    | markOverdue id =>
      obtain ⟨-, rfl⟩ := Prod.mk.inj (Except.ok.inj hexec)
      split at hw
      · exact ⟨.overdue, id, List.mem_singleton.1 hw⟩
      · cases hw
    | blockCustomer rule id =>
      obtain ⟨-, rfl⟩ := Prod.mk.inj (Except.ok.inj hexec)
      split at hw
      · exact ⟨.blocked, id, List.mem_singleton.1 hw⟩
      · cases hw
    | findAutoBlockTenants =>
      simp only [postgres_exec, Sql.exec] at hexec
      split at hexec
      · cases hexec
      · obtain ⟨-, rfl⟩ := Prod.mk.inj (Except.ok.inj hexec)
        cases hw
    | _ => exact hissued.elim
  write {_ w v} hw hv := by
    obtain ⟨flag, id, rfl⟩ := hw
    rw [← hv, postgres_write, rows_flagWrite, List.map_map]
    refine List.map_congr_left fun c _ ↦ ?_
    simp only [Function.comp_apply]
    split
    · cases flag <;> rfl
    · rfl

theorem safe_markCustomers (d : Db) (ids : List Uuid) :
    (markCustomers ids).Safe JobStatement (debtFlow d).answers fun _ ↦ True := by
  induction ids with
  | nil => trivial
  | cons id ids ih => exact Prog.Safe.bind (Prog.safe_issue trivial) fun _ _ ↦ ih

theorem safe_blockEach (d : Db) (rule : BlockRule) (ids : List Uuid) :
    (blockEach rule ids).Safe JobStatement (debtFlow d).answers fun _ ↦ True := by
  induction ids with
  | nil => trivial
  | cons id ids ih => exact Prog.Safe.bind (Prog.safe_issue trivial) fun _ _ ↦ ih

theorem safe_blockAll (d : Db) (env : Env) (rules : List BlockRule) :
    (blockAll env rules).Safe JobStatement (debtFlow d).answers fun _ ↦ True := by
  induction rules with
  | nil => trivial
  | cons rule rules ih =>
    refine Prog.Safe.bind (Q := fun _ ↦ True) ?_ fun _ _ ↦ ih
    exact Prog.Safe.bind (Prog.safe_issue trivial) fun ids _ ↦
      Prog.Safe.bind (safe_blockEach d rule (env.scan ids)) fun _ _ ↦ trivial

theorem safe_overdueJob (d : Db) (env : Env) (schedule : List BlockRule → List BlockRule)
    (today : Date) :
    (overdueJob env schedule today).Safe JobStatement (debtFlow d).answers fun _ ↦ True := by
  have hmark : (processOverdueCustomers env today).Safe JobStatement (debtFlow d).answers
      fun _ ↦ True := by
    refine Prog.Safe.bind (Prog.safe_issue trivial) fun overdueIds _ ↦ ?_
    split
    · trivial
    · exact Prog.Safe.bind (safe_markCustomers d (env.scan overdueIds)) fun _ _ ↦ trivial
  refine Prog.Safe.bind hmark fun processed _ ↦ ?_
  split
  · trivial
  · refine Prog.Safe.bind (Prog.safe_issue trivial) fun tenants _ ↦ ?_
    exact Prog.Safe.bind (safe_blockAll d env _) fun _ _ ↦ trivial

/-- The job alone in the database, wherever it has got to. -/
def jobRun (jobEnv : Env) (schedule : List BlockRule → List BlockRule) (today : Date) (d : Db)
    (es : List (Event Unit)) : Db :=
  (postgres.run (Sys.start d fun _ : Unit ↦ overdueJob jobEnv schedule today) es).db

theorem debts_jobRun (jobEnv : Env) (schedule : List BlockRule → List BlockRule) (today : Date)
    (d : Db) (es : List (Event Unit)) :
    (jobRun jobEnv schedule today d es).customers.rows.map debtOf = d.customers.rows.map debtOf :=
  (Flow.Holds.run (Flow.Holds.start (F := debtFlow d) (Q := fun _ _ ↦ True) rfl
    fun _ ↦ safe_overdueJob d jobEnv schedule today) es).db

/-- On the day itself the two notions differ on the promises for that day only. -/
theorem promiseBefore_iff {now : Timestamp} (hday : midnight today ≤ now)
    (hnext : now < midnight (today + 1)) (c : Customer) :
    PromiseBefore now c ↔
      Expired today c ∨ (c.next_payment_promise = some today ∧ midnight today < now) := by
  have hiff (day : Date) : midnight day < now ↔ day < today ∨ day = today ∧ midnight today < now := by
    unfold midnight at *
    constructor
    · intro hlt
      rcases lt_trichotomy day today with h | rfl | h
      · exact Or.inl h
      · exact Or.inr ⟨rfl, hlt⟩
      · have hle : (today + 1) * 86400000 ≤ day * 86400000 := by gcongr; exact h
        exact absurd (hlt.trans hnext) (not_lt.2 hle)
    · rintro (h | ⟨rfl, hlt⟩)
      · have hle : (day + 1) * 86400000 ≤ today * 86400000 := by gcongr; exact h
        refine lt_of_lt_of_le ?_ (hle.trans hday)
        rw [add_mul, lt_add_iff_pos_right]
        norm_num
      · exact hlt
  unfold PromiseBefore Expired
  cases hpromise : c.next_payment_promise with
  | none => simp
  | some day => simpa using hiff day

/-- The two counts agree on a day exactly at its midnight, or when no debtor of the tenant promised
to pay on it. -/
theorem overdue_promises_agree_iff {jobEnv : Env} {schedule : List BlockRule → List BlockRule}
    {es : List (Event Unit)} (hday : midnight today ≤ env.now)
    (hnext : env.now < midnight (today + 1))
    (h : getMetrics env tenantId (jobRun jobEnv schedule today d es) = .ok metrics) :
    metrics.overdue_promises = (((jobRun jobEnv schedule today d es).debtorsOf tenantId).filter
        fun c ↦ Expired today c).length ↔
      env.now = midnight today ∨ ∀ c ∈ d.debtorsOf tenantId, c.next_payment_promise ≠ some today := by
  have hiff := promiseBefore_iff hday hnext
  have hforall (F : Uuid × ℤ × Option Date → Prop) :
      (∀ c ∈ (jobRun jobEnv schedule today d es).customers.rows, F (debtOf c)) ↔
        ∀ c ∈ d.customers.rows, F (debtOf c) := by
    rw [← List.forall_mem_map, debts_jobRun, List.forall_mem_map]
  rw [(getMetrics_counts h).2.1, length_filter_eq_iff fun c hc ↦ (hiff c).2 (Or.inl hc)]
  have hmem (d : Db) : (∀ c ∈ d.debtorsOf tenantId, PromiseBefore env.now c → Expired today c) ↔
      env.now = midnight today ∨
        ∀ c ∈ d.debtorsOf tenantId, c.next_payment_promise ≠ some today := by
    constructor
    · intro hall
      refine or_iff_not_imp_left.2 fun hlater c hc hpromise ↦ ?_
      obtain ⟨day, hpast, hlt⟩ :=
        hall c hc ((hiff c).2 (Or.inr ⟨hpromise, lt_of_le_of_ne hday (Ne.symm hlater)⟩))
      rw [hpromise, Option.mem_some_iff] at hpast
      exact lt_irrefl _ (hpast ▸ hlt)
    · intro hnone c hc hpromise
      refine ((hiff c).1 hpromise).resolve_right fun htoday ↦ ?_
      rcases hnone with heq | hnone
      · exact absurd htoday.2 (heq ▸ lt_irrefl _)
      · exact hnone c hc htoday.1
  rw [hmem]
  refine or_congr_right ?_
  have h := hforall fun debt ↦ debt.1 = tenantId → 0 < debt.2.1 → debt.2.2 ≠ some today
  simp only [Db.debtorsOf, Db.customersOf, List.mem_filter, decide_eq_true_eq, and_imp]
  exact h

/-! ## Two customers who promised to pay on day 0 -/

/-- Both owe money and promised; then the second one is blocked. -/
def promises : Fin 7 → Request
  | 0 => .createCustomer 1 ana
  | 1 => .createCustomer 1 beto
  | 2 => .registerDebt 1 2 (debtOf100 100 7)
  | 3 => .registerDebt 1 2 (debtOf100 101 8)
  | 4 => .updatePromise 1 100 ⟨some 0⟩
  | 5 => .updatePromise 1 101 ⟨some 0⟩
  | 6 => .toggleBlock 1 101

def inArrears (blocked : Bool) : Db :=
  (postgres.run (serve promises (fun i ↦ sampleEnv i) (Db.opened sampleTenants))
    (inTurn ([(0, 10), (1, 10), (2, 12), (3, 12), (4, 8), (5, 8)] ++
      if blocked then [(6, 8)] else []))).db

theorem reachable_inArrears (blocked : Bool) : Reachable (inArrears blocked) :=
  ⟨Fin 7, inferInstance, promises, fun i ↦ sampleEnv i, sampleTenants, _,
    freshIds_sample Fin.val_injective (by decide) (by decide), rfl⟩

/-- A moment of a day. -/
def momentOf (day : Date) : Env := { sampleEnv 9 with now := midnight day + 9 }

theorem exists_of_map_ok {α β ε : Type} {x : Except ε α} {f : α → β} {b : β}
    (h : x.map f = .ok b) : ∃ a, x = .ok a ∧ f a = b := by
  cases x with
  | error e => cases h
  | ok a => exact ⟨a, rfl, Except.ok.inj h⟩

/-- With nobody blocked all debtors are in arrears. -/
theorem ratio_of_debtors_both : ∃ metrics,
    getMetrics (momentOf 1) 1 (inArrears false) = .ok metrics ∧ metrics.mora_ratio = 100 ∧
      RatioOfDebtors (momentOf 1) 1 (inArrears false) metrics := by
  obtain ⟨metrics, h, hratio⟩ : ∃ metrics,
      getMetrics (momentOf 1) 1 (inArrears false) = .ok metrics ∧ metrics.mora_ratio = 100 :=
    exists_of_map_ok (by decide +kernel)
  exact ⟨metrics, h, hratio, (ratio_of_debtors_iff h).2 (by decide +kernel)⟩

/-- Of the only active debtor, two are in arrears. -/
theorem ratio_of_200 : Reachable (inArrears true) ∧ ∃ metrics,
    getMetrics (momentOf 1) 1 (inArrears true) = .ok metrics ∧ metrics.mora_ratio = 200 ∧
      ¬RatioOfDebtors (momentOf 1) 1 (inArrears true) metrics := by
  obtain ⟨metrics, h, hratio⟩ : ∃ metrics,
      getMetrics (momentOf 1) 1 (inArrears true) = .ok metrics ∧ metrics.mora_ratio = 200 :=
    exists_of_map_ok (by decide +kernel)
  refine ⟨reachable_inArrears true, metrics, h, hratio, fun hof ↦ ?_⟩
  have hle := hof.range.2
  rw [hratio] at hle
  norm_num at hle

/-- The job of a day, on its own until it answers. -/
def jobOf (today : Date) : Db :=
  jobRun (sampleEnv 9) id today (inArrears false) (List.replicate 20 (.step ()))

theorem overdue_promises_agree_next_day : ∃ metrics,
    getMetrics (momentOf 1) 1 (jobOf 1) = .ok metrics ∧
      metrics.overdue_promises = (((jobOf 1).debtorsOf 1).filter fun c ↦ Expired 1 c).length := by
  obtain ⟨metrics, h, -⟩ : ∃ metrics,
      getMetrics (momentOf 1) 1 (jobOf 1) = .ok metrics ∧ metrics.overdue_promises = 2 :=
    exists_of_map_ok (by decide +kernel)
  exact ⟨metrics, h, (overdue_promises_agree_iff (by decide) (by decide) h).2
    (Or.inr (by decide +kernel))⟩

/-- On the day itself the dashboard counts both promises as expired, and the job neither. -/
theorem promises_for_today_counted : Reachable (inArrears false) ∧ ∃ metrics,
    getMetrics (momentOf 0) 1 (jobOf 0) = .ok metrics ∧ metrics.overdue_promises = 2 ∧
      (((jobOf 0).debtorsOf 1).filter fun c ↦ Expired 0 c).length = 0 := by
  obtain ⟨metrics, h, hcount⟩ : ∃ metrics,
      getMetrics (momentOf 0) 1 (jobOf 0) = .ok metrics ∧ metrics.overdue_promises = 2 :=
    exists_of_map_ok (by decide +kernel)
  exact ⟨reachable_inArrears false, metrics, h, hcount, by decide +kernel⟩

end MicroErp.Guarantees
