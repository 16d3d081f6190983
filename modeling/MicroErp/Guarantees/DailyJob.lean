import MicroErp.Commits.Runs

/-!
# The daily job run alone

A bulk update leaves no customer that meets its condition, and the later updates bring none back.
So the job leaves nobody active that it should block, unless it returns before its phases.
-/

namespace MicroErp.Guarantees

open MicroErp.Commits MicroErp.Concurrency MicroErp.Database MicroErp.Services MicroErp.Storage

/-! ## One bulk update -/

/-- What one row of a bulk update does to the view. -/
def flagRow (flag : Flag) (cond : Customer → Prop) [DecidablePred cond] (v : Db) (id : Uuid) : Db :=
  if ((v.customers.find id).filter fun c ↦ cond c).isSome then (flag.write id).apply v else v

/-- The tenants are the same, and each customer is one of before, perhaps with the flag. -/
structure Flagged (flag : Flag) (d d' : Db) : Prop where
  tenants : d'.tenants = d.tenants
  customers : ∀ c' ∈ d'.customers.rows, ∃ c ∈ d.customers.rows, c' = c ∨ c' = flag.set c

section Update

variable {flag : Flag} {cond : Customer → Prop} [DecidablePred cond] {d d' d'' v : Db} {id : Uuid}
  {ids : List Uuid} {α : Type} {ws : List Write}

theorem Flagged.refl (flag : Flag) (d : Db) : Flagged flag d d :=
  ⟨rfl, fun c hc ↦ ⟨c, hc, Or.inl rfl⟩⟩

theorem Flagged.trans (h : Flagged flag d d') (h' : Flagged flag d' d'') : Flagged flag d d'' where
  tenants := h'.tenants.trans h.tenants
  customers c'' hc'' := by
    obtain ⟨c', hc', heq'⟩ := h'.customers c'' hc''
    obtain ⟨c, hc, heq⟩ := h.customers c' hc'
    refine ⟨c, hc, ?_⟩
    rcases heq' with rfl | rfl
    · exact heq
    · right
      rcases heq with rfl | rfl
      · rfl
      · exact flag.set_set c

theorem flagged_flagRow (flag : Flag) (cond : Customer → Prop) [DecidablePred cond] (v : Db)
    (id : Uuid) : Flagged flag v (flagRow flag cond v id) := by
  unfold flagRow
  split
  · refine ⟨by cases flag <;> rfl, fun c' hc' ↦ ?_⟩
    rw [rows_flagWrite] at hc'
    obtain ⟨c, hc, rfl⟩ := List.mem_map.1 hc'
    refine ⟨c, hc, ?_⟩
    split
    · exact Or.inr rfl
    · exact Or.inl rfl
  · exact Flagged.refl flag v

/-- The row that meets the condition has the flag afterwards. -/
theorem flag_of_flagRow {c' : Customer} (hc' : c' ∈ (flagRow flag cond v id).customers.rows)
    (hid : c'.id = id) : ¬cond c' ∨ ∃ c, c' = flag.set c := by
  unfold flagRow at hc'
  split at hc'
  · right
    rw [rows_flagWrite] at hc'
    obtain ⟨c, hc, rfl⟩ := List.mem_map.1 hc'
    have hcid : c.id = id := by
      by_contra hne
      rw [if_neg hne] at hid
      exact hne hid
    exact ⟨c, if_pos hcid⟩
  · rename_i hnone
    left
    intro hcond
    refine hnone ?_
    rw [Table.find_eq_some.2 ⟨hc', hid⟩]
    simp [Option.filter, hcond]

/-- The whole update: a customer in its snapshot that still meets the condition has the flag. -/
theorem flag_of_foldl (flag : Flag) (cond : Customer → Prop) [DecidablePred cond] (ids : List Uuid) :
    ∀ v : Db, Flagged flag v (ids.foldl (flagRow flag cond) v) ∧
    ∀ c' ∈ (ids.foldl (flagRow flag cond) v).customers.rows, c'.id ∈ ids →
      cond c' → ∃ c, c' = flag.set c := by
  induction ids with
  | nil => exact fun v ↦ ⟨Flagged.refl flag v, fun _ _ h ↦ (List.not_mem_nil h).elim⟩
  | cons id ids ih =>
    intro v
    obtain ⟨hflagged, hrest⟩ := ih (flagRow flag cond v id)
    refine ⟨(flagged_flagRow flag cond v id).trans hflagged, fun c' hc' hmem hcond ↦ ?_⟩
    rcases List.mem_cons.1 hmem with hid | hmem
    · obtain ⟨c, hc, heq⟩ := hflagged.customers c' hc'
      rcases heq with rfl | rfl
      · exact (flag_of_flagRow hc hid).resolve_left fun h ↦ h hcond
      · exact ⟨c, rfl⟩
    · exact hrest c' hc' hmem hcond

/-- A row of a bulk update run alone. -/
theorem alone_flagRow (flag : Flag) (cond : Customer → Prop) [DecidablePred cond] (id : Uuid)
    {o : Sql} (k : o.Ans → Script α) (r : o.Ans)
    (hexec : ∀ v, o.exec v = .ok (r, if ((v.customers.find id).filter fun c ↦ cond c).isSome
      then [flag.write id] else [])) (ws : List Write) (d : Db) :
    ∃ ws', postgres.alone (.stmt o k) ws d = postgres.alone (k r) ws' d ∧
      postgres.view ws' d = flagRow flag cond (postgres.view ws d) id := by
  rw [Engine.alone, postgres_exec, hexec]
  refine ⟨_, rfl, ?_⟩
  unfold flagRow
  split
  · rw [Engine.view_append, Engine.view_cons, Engine.view_nil, postgres_write]
  · rw [List.append_nil]

theorem alone_markCustomers (ids : List Uuid) (f : Unit → Script α) : ∀ (ws : List Write) (d : Db),
    ∃ ws', postgres.alone (markCustomers ids >>= f) ws d = postgres.alone (f ()) ws' d ∧
      postgres.view ws' d = ids.foldl (flagRow .overdue fun _ ↦ True) (postgres.view ws d) := by
  induction ids with
  | nil => exact fun ws d ↦ ⟨ws, rfl, rfl⟩
  | cons id ids ih =>
    intro ws d
    simp only [markCustomers, query, Prog.issue_bind, Prog.stmt_bind, List.foldl_cons]
    obtain ⟨ws₁, hrun₁, hview₁⟩ := alone_flagRow .overdue (fun _ ↦ True) id
      (o := .markOverdue id) (fun _ ↦ markCustomers ids >>= f) ()
      (fun v ↦ by simp [Sql.exec, Flag.write]) ws d
    obtain ⟨ws₂, hrun₂, hview₂⟩ := ih ws₁ d
    exact ⟨ws₂, hrun₁.trans hrun₂, by rw [hview₂, hview₁]⟩

theorem alone_blockEach (rule : BlockRule) (ids : List Uuid) (f : Unit → Script α) :
    ∀ (ws : List Write) (d : Db),
    ∃ ws', postgres.alone (blockEach rule ids >>= f) ws d = postgres.alone (f ()) ws' d ∧
      postgres.view ws' d = ids.foldl (flagRow .blocked rule.Applies) (postgres.view ws d) := by
  induction ids with
  | nil => exact fun ws d ↦ ⟨ws, rfl, rfl⟩
  | cons id ids ih =>
    intro ws d
    simp only [blockEach, query, Prog.issue_bind, Prog.stmt_bind, List.foldl_cons]
    obtain ⟨ws₁, hrun₁, hview₁⟩ := alone_flagRow .blocked rule.Applies id
      (o := .blockCustomer rule id) (fun _ ↦ blockEach rule ids >>= f) ()
      (fun v ↦ by simp [Sql.exec, Flag.write]) ws d
    obtain ⟨ws₂, hrun₂, hview₂⟩ := ih ws₁ d
    exact ⟨ws₂, hrun₁.trans hrun₂, by rw [hview₂, hview₁]⟩

end Update

/-! ## The whole job -/

/-- The number `n` is the setting of the tenant. -/
def AutoBlocksAfter (t : Tenant) (n : ℤ) : Prop :=
  t.settings.lookup "auto_block_overdue_days" = some (.number n)

instance (t : Tenant) (n : ℤ) : Decidable (AutoBlocksAfter t n) :=
  inferInstanceAs (Decidable (_ = _))

/-- The customers that the job would mark. -/
def candidates (today : Date) (d : Db) : List Customer :=
  d.customers.rows.filter fun c ↦ (∃ day ∈ c.next_payment_promise, day < today) ∧
    0 < c.balance_cents ∧ c.is_overdue = false

/-- Nobody is active whom the settings of the tenant or the limit of the customer would block. -/
structure NobodyLeft (today : Date) (d : Db) : Prop where
  overdue : ∀ t ∈ d.tenants.rows, ∀ n, AutoBlocksAfter t n → 1 ≤ n → ∀ c ∈ d.customers.rows,
    ¬(c.is_active = true ∧ c.tenant_id = t.id ∧ c.is_overdue = true ∧ 0 < c.balance_cents ∧
      ∃ day ∈ c.next_payment_promise, day < today - n)
  onLimit : ∀ c ∈ d.customers.rows, c.auto_block_on_limit = true → 0 < c.credit_limit_cents →
    ¬(c.is_active = true ∧ c.credit_limit_cents ≤ c.balance_cents)

/-- Everybody who broke a promise and owes money is marked. -/
def AllMarked (today : Date) (d : Db) : Prop :=
  ∀ c ∈ d.customers.rows, (∃ day ∈ c.next_payment_promise, day < today) → 0 < c.balance_cents →
    c.is_overdue = true

/-- The rule blocks nobody any more. -/
def Exhausted (d : Db) (rule : BlockRule) : Prop := ∀ c ∈ d.customers.rows, ¬rule.Applies c

section Job

variable {env : Env} {today : Date} {d d' : Db} {α : Type} {rule : BlockRule}
  {rules : List BlockRule} {out : Except ServiceError α} {tenants : List (Uuid × ℤ)}

/-- A blocked customer meets no rule. -/
theorem Exhausted.flagged (h : Exhausted d rule) (hflagged : Flagged .blocked d d') :
    Exhausted d' rule := by
  intro c' hc' happlies
  obtain ⟨c, hc, heq⟩ := hflagged.customers c' hc'
  rcases heq with rfl | rfl
  · exact h c' hc happlies
  · cases rule with
    | overdue => exact Bool.noConfusion happlies.2.2.1
    | onLimit => exact Bool.noConfusion happlies.2.1

theorem AllMarked.flagged (h : AllMarked today d) (hflagged : Flagged .blocked d d') :
    AllMarked today d' := by
  intro c' hc' hday hbalance
  obtain ⟨c, hc, heq⟩ := hflagged.customers c' hc'
  rcases heq with rfl | rfl
  · exact h c' hc hday hbalance
  · exact h c hc hday hbalance

theorem alone_blockCustomers (env : Env) (rule : BlockRule) (f : Unit → Script α) (d : Db) :
    ∃ d', postgres.alone (blockCustomers env rule >>= f) [] d = postgres.alone (f ()) [] d' ∧
      Flagged .blocked d d' ∧ Exhausted d' rule := by
  simp only [blockCustomers, query, Prog.issue_bind, Prog.stmt_bind, Prog.bind_assoc]
  rw [Engine.alone]
  simp only [postgres_exec, Sql.exec, Engine.view_nil, List.append_nil]
  generalize hids : env.scan ((d.customers.rows.filter fun c ↦ rule.Applies c).map (·.id)) = ids
  obtain ⟨ws, hrun, hview⟩ := alone_blockEach rule ids
    (fun _ ↦ Prog.commitTransaction >>= f) [] d
  refine ⟨postgres.view ws d, hrun, ?_⟩
  rw [hview, Engine.view_nil]
  obtain ⟨hflagged, hflag⟩ := flag_of_foldl .blocked rule.Applies ids d
  refine ⟨hflagged, fun c' hc' happlies ↦ ?_⟩
  have hactive : ∀ c, c' ≠ Flag.blocked.set c := by
    rintro c rfl
    cases rule with
    | overdue => exact Bool.noConfusion happlies.2.2.1
    | onLimit => exact Bool.noConfusion happlies.2.1
  obtain ⟨c, hc, heq⟩ := hflagged.customers c' hc'
  obtain rfl := heq.resolve_right (hactive c)
  -- it met the rule before, so it is in the snapshot
  have hmem : c'.id ∈ ids := by
    rw [← hids, (env.scan_perm _).mem_iff]
    exact List.mem_map_of_mem (List.mem_filter.2 ⟨hc, decide_eq_true happlies⟩)
  obtain ⟨c, heq⟩ := hflag c' hc' hmem happlies
  exact hactive c heq

theorem alone_blockAll (env : Env) (f : Unit → Script α) : ∀ (rules : List BlockRule) (d : Db),
    ∃ d', postgres.alone (blockAll env rules >>= f) [] d = postgres.alone (f ()) [] d' ∧
      Flagged .blocked d d' ∧ ∀ rule ∈ rules, Exhausted d' rule := by
  intro rules
  induction rules with
  | nil => exact fun d ↦ ⟨d, rfl, Flagged.refl _ d, fun _ h ↦ (List.not_mem_nil h).elim⟩
  | cons rule rules ih =>
    intro d
    simp only [blockAll, Prog.bind_assoc]
    obtain ⟨d₁, hrun₁, hflagged₁, hrule⟩ := alone_blockCustomers env rule
      (fun _ ↦ blockAll env rules >>= f) d
    obtain ⟨d₂, hrun₂, hflagged₂, hrules⟩ := ih d₁
    refine ⟨d₂, hrun₁.trans hrun₂, hflagged₁.trans hflagged₂, fun rule' hmem ↦ ?_⟩
    rcases List.mem_cons.1 hmem with rfl | hmem
    · exact hrule.flagged hflagged₂
    · exact hrules rule' hmem

/-- The first part of the job marks all candidates and counts them. -/
theorem alone_processOverdueCustomers (env : Env) (today : Date) (f : ℕ → Script α) (d : Db) :
    ∃ d', postgres.alone (processOverdueCustomers env today >>= f) [] d =
        postgres.alone (f (candidates today d).length) [] d' ∧
      AllMarked today d' ∧ (candidates today d = [] → d' = d) := by
  simp only [processOverdueCustomers, query, Prog.issue_bind, Prog.stmt_bind, Prog.ite_bind,
    Prog.bind_assoc]
  rw [Engine.alone]
  simp only [postgres_exec, Sql.exec, Engine.view_nil, List.append_nil]
  rw [show (d.customers.rows.filter _) = candidates today d from rfl]
  split
  · rename_i hnone
    have hnil : candidates today d = [] := List.map_eq_nil_iff.1 hnone
    refine ⟨d, by rw [hnil]; rfl, fun c hc hday hbalance ↦ ?_, fun _ ↦ rfl⟩
    by_contra hmark
    have hmem : c ∈ candidates today d := List.mem_filter.2
      ⟨hc, decide_eq_true ⟨hday, hbalance, by simpa using hmark⟩⟩
    rw [hnil] at hmem
    cases hmem
  · rename_i hsome
    generalize hids : env.scan ((candidates today d).map (·.id)) = ids
    obtain ⟨ws, hrun, hview⟩ := alone_markCustomers ids
      (fun _ ↦ Prog.commitTransaction >>= fun _ ↦
        pure ((candidates today d).map (·.id)).length >>= f) [] d
    refine ⟨postgres.view ws d, ?_, ?_, fun hnone ↦ (hsome (by rw [hnone]; rfl)).elim⟩
    · rw [hrun, List.length_map]
      rfl
    rw [hview, Engine.view_nil]
    obtain ⟨hflagged, hflag⟩ := flag_of_foldl .overdue (fun _ ↦ True) ids d
    intro c' hc' hday hbalance
    obtain ⟨c, hc, heq⟩ := hflagged.customers c' hc'
    rcases heq with rfl | rfl
    · by_contra hmark
      have hmem : c'.id ∈ ids := by
        rw [← hids, (env.scan_perm _).mem_iff]
        exact List.mem_map_of_mem (List.mem_filter.2
          ⟨hc, decide_eq_true ⟨hday, hbalance, by simpa using hmark⟩⟩)
      obtain ⟨c, rfl⟩ := hflag c' hc' hmem trivial
      exact hmark rfl
    · rfl

theorem exists_of_mapM {β ε : Type} {f : α → Except ε β} : ∀ {l : List α} {l' : List β},
    l.mapM f = .ok l' → ∀ a ∈ l, ∃ b ∈ l', f a = .ok b := by
  intro l
  induction l with
  | nil => exact fun _ _ h ↦ (List.not_mem_nil h).elim
  | cons a l ih =>
    intro l' h x hx
    rw [List.mapM_cons] at h
    cases ha : f a with
    | error e =>
      rw [ha] at h
      cases h
    | ok b =>
      cases hl : l.mapM f with
      | error e =>
        rw [ha, hl] at h
        cases h
      | ok bs =>
        rw [ha, hl] at h
        obtain rfl : b :: bs = l' := Except.ok.inj h
        rcases List.mem_cons.1 hx with rfl | hx
        · exact ⟨b, List.mem_cons_self, ha⟩
        · obtain ⟨y, hy, hfy⟩ := ih hl x hx
          exact ⟨y, List.mem_cons_of_mem _ hy, hfy⟩

/-- If all settings can be cast, the tenants with a positive number are found. -/
theorem mem_autoBlockTenants (h : d.autoBlockTenants = .ok tenants) {t : Tenant} {n : ℤ}
    (ht : t ∈ d.tenants.rows) (hn : AutoBlocksAfter t n) (hpos : 1 ≤ n) :
    (t.id, n) ∈ tenants := by
  unfold Db.autoBlockTenants at h
  cases hall : d.tenants.rows.mapM fun t ↦ do pure (t.id, ← t.autoBlockDays) with
  | error e =>
    rw [hall] at h
    cases h
  | ok settings =>
    rw [hall] at h
    obtain rfl := Except.ok.inj h
    obtain ⟨x, hx, heq⟩ := exists_of_mapM hall t ht
    have hdays : t.autoBlockDays = if Int4 n then .ok (some n) else .error .numericValueOutOfRange := by
      rw [Tenant.autoBlockDays, hn]
      rfl
    rw [hdays] at heq
    split at heq
    · obtain rfl : (t.id, some n) = x := Except.ok.inj heq
      refine List.mem_filterMap.2 ⟨_, hx, ?_⟩
      simp [Option.filter, show 0 < n from hpos]
    · cases heq

/-- The phases block what the settings and the limits say. -/
theorem nobodyLeft_of_exhausted (htenants : d.autoBlockTenants = .ok tenants)
    (h : ∀ rule ∈ phaseRules today tenants, Exhausted d rule) : NobodyLeft today d where
  overdue t ht n hn hpos c hc hleft := by
    obtain ⟨hactive, htenant, hoverdue, hbalance, hday⟩ := hleft
    have hrule : BlockRule.overdue t.id (today - n) ∈ phaseRules today tenants :=
      List.mem_append_left _ (List.mem_map.2 ⟨(t.id, n), mem_autoBlockTenants htenants ht hn hpos, rfl⟩)
    exact h _ hrule c hc ⟨htenant, hoverdue, hactive, hbalance, hday⟩
  onLimit c hc hauto hlimit hleft :=
    h .onLimit (List.mem_append_right _ List.mem_cons_self) c hc ⟨hauto, hleft.1, hlimit, hleft.2⟩

/-- What the job answers, and what it leaves. -/
theorem overdueJob_spec {schedule : List BlockRule → List BlockRule}
    (hschedule : ∀ rules, (schedule rules).Perm rules) {processed : ℕ}
    (hrun : postgres.alone (overdueJob env schedule today) [] d = (.ok processed, d')) :
    processed = (candidates today d).length ∧ AllMarked today d' ∧
      (candidates today d = [] → d' = d) ∧ (candidates today d ≠ [] → NobodyLeft today d') := by
  unfold overdueJob at hrun
  obtain ⟨d₁, hrun₁, hmarked, hsame⟩ := alone_processOverdueCustomers env
    today (fun processed ↦ if processed = 0 then pure 0 else do
      let tenants ← query .findAutoBlockTenants
      blockAll env (schedule (phaseRules today tenants))
      pure processed) d
  rw [hrun₁] at hrun
  split at hrun
  · rename_i hzero
    have hnone : candidates today d = [] := List.length_eq_zero_iff.1 hzero
    have hdone : 0 = processed := Except.ok.inj (congrArg Prod.fst hrun)
    obtain rfl : d₁ = d' := congrArg Prod.snd hrun
    exact ⟨hdone.symm.trans hzero.symm, hmarked, hsame, fun hsome ↦ (hsome hnone).elim⟩
  · rename_i hpos
    have hsome : candidates today d ≠ [] := fun hnone ↦ hpos (by rw [hnone]; rfl)
    rw [query, Prog.issue_bind, Engine.alone_stmt_eq_ok] at hrun
    obtain ⟨tenants, ws, hexec, hrun⟩ := hrun
    obtain ⟨htenants, rfl⟩ : d₁.autoBlockTenants = .ok tenants ∧ ws = [] := by
      simp only [postgres_exec, Sql.exec, Engine.view_nil] at hexec
      split at hexec
      · cases hexec
      · rename_i tenants' htenants
        obtain ⟨rfl, rfl⟩ := Prod.mk.inj (Except.ok.inj hexec)
        exact ⟨htenants, rfl⟩
    obtain ⟨d₂, hrun₂, hflagged, hrules⟩ := alone_blockAll env
      (fun _ ↦ pure (candidates today d).length) (schedule (phaseRules today tenants)) d₁
    have hdone := hrun₂.symm.trans hrun
    have hcount : (candidates today d).length = processed :=
      Except.ok.inj (congrArg Prod.fst hdone)
    obtain rfl : d₂ = d' := congrArg Prod.snd hdone
    refine ⟨hcount.symm, hmarked.flagged hflagged, fun hnone ↦ (hsome hnone).elim, fun _ ↦ ?_⟩
    have hsame : d₂.autoBlockTenants = .ok tenants := by
      unfold Db.autoBlockTenants at htenants ⊢
      rw [hflagged.tenants, htenants]
    exact nobodyLeft_of_exhausted hsame fun rule hrule ↦ hrules rule ((hschedule _).mem_iff.2 hrule)

/-- After the job nobody who should be blocked is active if and only if it found somebody to mark,
or there was nobody to block in the first place. -/
theorem job_blocks_iff {schedule : List BlockRule → List BlockRule}
    (hschedule : ∀ rules, (schedule rules).Perm rules) {processed : ℕ}
    (hrun : postgres.alone (overdueJob env schedule today) [] d = (.ok processed, d')) :
    (NobodyLeft today d' ∧ AllMarked today d') ↔
      (candidates today d ≠ [] ∨ NobodyLeft today d) := by
  obtain ⟨-, hmarked, hsame, hblocked⟩ := overdueJob_spec hschedule hrun
  by_cases hnone : candidates today d = []
  · obtain rfl := hsame hnone
    exact ⟨fun h ↦ Or.inr h.1, fun h ↦ ⟨h.resolve_left fun hsome ↦ hsome hnone, hmarked⟩⟩
  · exact ⟨fun _ ↦ Or.inl hnone, fun _ ↦ ⟨hblocked hnone, hmarked⟩⟩

end Job

/-! ## A day with nobody to mark -/

/-- A tenant that blocks its customers three days after a broken promise. -/
def strictTenants : Table Tenant :=
  Table.empty.insert
    { id := 1, tenant_name := "Kiosco", subscription_plan := "FREE", subscription_expires_at := none,
      status := .ACTIVE, mp_subscription_id := none,
      settings := [("auto_block_overdue_days", .number 3)], active_cash_shift_id := none,
      created_at := 0 }

/-- A customer owes money and promises to pay on day 10; the job runs on day 11. -/
def promising : Fin 4 → Request
  | 0 => .createCustomer 1 ana
  | 1 => .registerDebt 1 2 (debtOf100 100 7)
  | 2 => .updatePromise 1 100 ⟨some 10⟩
  | 3 => .processOverdueCustomers 11

/-- The database before the job, and after it. -/
def promised (marked : Bool) : Db :=
  (postgres.run (serve promising (fun i ↦ sampleEnv i) (Db.opened strictTenants))
    (inTurn ([(0, 10), (1, 12), (2, 8)] ++ if marked then [(3, 8)] else []))).db

theorem reachable_promised (marked : Bool) : Reachable (promised marked) :=
  ⟨Fin 4, inferInstance, promising, fun i ↦ sampleEnv i, strictTenants, _,
    freshIds_sample Fin.val_injective (by decide) (by decide), rfl⟩

/-- The job of day 14, run on either database. -/
def jobOf14 (marked : Bool) : Except ServiceError ℕ × Db :=
  postgres.alone (overdueJob (sampleEnv 9) id 14) [] (promised marked)

theorem job_blocks_iff_promised :
    (jobOf14 false).1 = .ok 1 ∧ NobodyLeft 14 (jobOf14 false).2 ∧ AllMarked 14 (jobOf14 false).2 := by
  have hanswer : (jobOf14 false).1 = .ok 1 := by decide +kernel
  have hsome : candidates 14 (promised false) ≠ [] := by decide +kernel
  exact ⟨hanswer, (job_blocks_iff (fun rules ↦ .refl rules) (Prod.ext hanswer rfl)).2 (Or.inl hsome)⟩

/-- On day 14 nobody is left to be marked, and the customer of the broken promise stays active. -/
theorem overdue_stays_active : Reachable (promised true) ∧ (jobOf14 true).1 = .ok 0 ∧
    ∃ t ∈ (jobOf14 true).2.tenants.rows, AutoBlocksAfter t 3 ∧
      ∃ c ∈ (jobOf14 true).2.customers.rows, c.is_active = true ∧ c.tenant_id = t.id ∧
        c.is_overdue = true ∧ 0 < c.balance_cents ∧ ∃ day ∈ c.next_payment_promise, day < 14 - 3 :=
  ⟨reachable_promised true, by decide +kernel, by decide +kernel⟩

end MicroErp.Guarantees
