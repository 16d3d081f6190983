import MicroErp.Commits.Rules

/-!
# An inflation batch meets its contract

The batch locks the customers of the tenant one by one and then posts a row for each debtor.  Both
loops have a rule: what they hold or have pending grows by one customer at each turn.
-/

namespace MicroErp.Commits

open MicroErp.Concurrency MicroErp.Database MicroErp.Services MicroErp.Storage

variable {S : Setting} {req : Request} {env : Env} {d d' : Db} {tenantId userId : Uuid}
  {lk : List (LockName × LockMode)} {ws : List Write} {e e' : Effect}

/-! ## The snapshot of the customers -/

theorem customersOf_map_id (d : Db) (tenantId : Uuid) :
    (d.customersOf tenantId).map (·.id) =
      ((d.customers.rows.map Customer.fixed).filter fun x ↦ x.2.1 = tenantId).map Prod.fst := by
  rw [List.filter_map, List.map_map]
  rfl

theorem customer_eq_none {id : Uuid} : d.customer tenantId id = none ↔
    ∀ x ∈ d.customers.rows.map Customer.fixed, ¬(x.1 = id ∧ x.2.1 = tenantId) := by
  constructor
  · rintro h x hx ⟨rfl, rfl⟩
    obtain ⟨c, hc, rfl⟩ := List.mem_map.1 hx
    have hfind : d.customers.find c.id = some c := Table.find_eq_some.2 ⟨hc, rfl⟩
    change d.customer c.tenant_id c.id = none at h
    simp [Db.customer, hfind] at h
  · intro h
    rw [Db.customer, Option.filter_eq_none_iff]
    intro c hc
    obtain ⟨hmem, hid⟩ := Table.find_eq_some.1 hc
    have hno := h c.fixed (List.mem_map_of_mem hmem)
    simpa [Customer.fixed, show c.id = id from hid] using hno

/-! ## The loop over the locks -/

/-- The loop holds the customers it returns, each once. -/
theorem wp_lockCustomers {ids : List Uuid} {f : List Customer → Script Answer}
    (hcopies : S.copiesOn = none) (hchecked : ∀ id d, req.Checked id d)
    (h : ∀ rows lk' d', lk ⊆ lk' → Rely S req env lk d d' →
      (rows.map (·.id)).Sublist ids → (∀ c ∈ rows, Holds d' lk' tenantId c) →
        postgres.wp (contract S req env) (f rows) [] lk' d') :
    postgres.wp (contract S req env) (lockCustomers tenantId ids >>= f) [] lk d := by
  induction ids generalizing f lk d with
  | nil =>
    exact h [] lk d (List.Subset.refl _) Rely.refl List.Sublist.slnil fun c hc ↦
      (List.not_mem_nil hc).elim
  | cons id ids ih =>
    simp only [lockCustomers, query, Prog.issue_bind, Prog.stmt_bind, Prog.bind_assoc,
      Prog.pure_eq_ret, Prog.ret_bind]
    refine wp_lockRow (fun _ who hwho ↦ ?_) (fun d₁ hrely₁ hnone ↦ ⟨fun hS ↦ ?_, ?_⟩)
      fun c d₁ hrely₁ _ hid hc ↦ ?_
    · rw [hcopies] at hwho
      cases hwho
    · refine Engine.follows_of_exec fun d₂ hrely₂ ↦ ⟨⟨fun _ ↦ hchecked _ _, ?_⟩, ?_⟩
      · simp [hcopies]
      · have hcustomers := ((hrely₂ : Rely S req env lk d₁ d₂).quiet hS).customers
        have hnone' : d₂.customer tenantId id = none := by
          rw [customer_eq_none, hcustomers]
          exact customer_eq_none.1 hnone
        simp only [postgres_exec, Sql.exec, Engine.view_nil, hnone']
    · refine ih fun rows lk' d₂ hlk' hrely₂ hsub hrows ↦ ?_
      exact h rows lk' d₂ hlk' (hrely₁.trans hrely₂) (hsub.cons _) hrows
    · refine ih fun rows lk' d₂ hlk' hrely₂ hsub hrows ↦ ?_
      have hlk := List.Subset.trans (List.subset_append_left _ _) hlk'
      refine h (c :: rows) lk' d₂ hlk (hrely₁.trans (hrely₂.mono (List.subset_append_left _ _)))
        ?_ ?_
      · rw [List.map_cons, hid]
        exact hsub.cons_cons _
      · intro x hx
        rcases List.mem_cons.1 hx with rfl | hx
        · exact (hc.stable hrely₂).mono hlk'
        · exact hrows x hx

/-! ## The loop over the debtors -/

/-- Effects that agree on the committed customers have the same outcome. -/
theorem Pending.congr (h : Pending S req env ws lk d e) (hrows : e'.rows = e.rows)
    (htweak : e'.tweak = e.tweak) (hcustomers : e'.customers = e.customers)
    (hbatches : e'.batches = e.batches) (hid : ∀ x, (e'.customer x).id = x.id)
    (hcustomer : ∀ d', Rely S req env lk d d' → ∀ x ∈ d'.customers.rows,
      e'.customer x = e.customer x) : Pending S req env ws lk d e' where
  yields d' hrely := by
    have hy := h.yields d' hrely
    refine ⟨?_, ?_, ?_⟩
    · rw [hrows, htweak]
      exact hy.transactions
    · rw [hcustomers, hy.customers, List.map_congr_left (hcustomer d' hrely)]
    · rw [hbatches]
      exact hy.batches
  vacant := hrows ▸ h.vacant
  slots := hrows ▸ h.slots
  core := htweak ▸ h.core
  id := hid
  customers := hcustomers.trans h.customers

/-- The debtors adjusted so far. -/
def adjusting (dto : InflationAdjustmentDto) (adjusted : List (Customer × Transaction)) : Effect :=
  { Effect.none with
    rows := adjusted.map Prod.snd
    customer := adjustCustomer dto (adjusted.map Prod.fst) }

theorem adjustCustomer_id (dto : InflationAdjustmentDto) (adjusted : List Customer) (x : Customer) :
    (adjustCustomer dto adjusted x).id = x.id :=
  congrArg Prod.fst (adjustCustomer_fixed dto adjusted x)

/-- Saving the next debtor adjusts it along with the others. -/
theorem Pending.adjust {dto : InflationAdjustmentDto} {done : List (Customer × Transaction)}
    {c : Customer} {row : Transaction} {balance : ℤ}
    (h : Pending S req env ws lk d { adjusting dto done with
      rows := done.map Prod.snd ++ [row]
      customer := setCustomer { c with balance_cents := balance } ∘
        adjustCustomer dto (done.map Prod.fst) })
    (hbalance : balance = c.balance_cents + adjustmentOf dto c.balance_cents)
    (hc : Holds d lk tenantId c) : Pending S req env ws lk d (adjusting dto (done ++ [(c, row)])) := by
  refine h.congr (by simp [adjusting]) rfl rfl rfl (adjustCustomer_id dto _) fun d' hrely x hx ↦ ?_
  simp only [adjusting, Function.comp_apply, setCustomer, adjustCustomer_id, List.map_append,
    List.map_cons, List.map_nil]
  by_cases hid : x.id = c.id
  · obtain rfl := Db.eq_of_find_customer (hc.stable hrely).1 hx hid
    simp [adjustCustomer, hbalance]
  · have hne : x ≠ c := fun h ↦ hid (congrArg (·.id) h)
    have hmem : x ∈ done.map Prod.fst ++ [c] ↔ x ∈ done.map Prod.fst := by simp [hne]
    simp only [adjustCustomer, hid, if_false, hmem]

/-- The loop has a row and an adjusted customer more pending for each debtor it adjusts. -/
theorem wp_adjustDebtors {dto : InflationAdjustmentDto} {debtors : List Customer} {index : ℕ}
    {total : ℤ} {done : List (Customer × Transaction)} {f : ℤ → Script Answer}
    (hp : Pending S req env ws lk d (adjusting dto done))
    (hholds : ∀ c ∈ debtors, Holds d lk tenantId c)
    (hdistinct : ((done.map Prod.fst ++ debtors).map (·.id)).Nodup)
    (h : ∀ adjusted total' ws' lk' d', lk ⊆ lk' → Rely S req env lk d d' →
      Adjusts env tenantId userId dto index adjusted →
      (adjusted.map Prod.fst).Sublist debtors →
      Pending S req env ws' lk' d' (adjusting dto (done ++ adjusted)) →
        postgres.wp (contract S req env) (f total') ws' lk' d') :
    postgres.wp (contract S req env)
      (adjustDebtors env tenantId userId dto index debtors total >>= f) ws lk d := by
  induction debtors generalizing index total done ws lk d with
  | nil =>
    refine h [] total ws lk d (List.Subset.refl _) Rely.refl (.nil index) List.Sublist.slnil ?_
    rw [List.append_nil]
    exact hp
  | cons c debtors ih =>
    have hc := hholds c List.mem_cons_self
    simp only [adjustDebtors, Prog.ite_bind, Prog.bind_assoc]
    split
    · refine ih hp (fun x hx ↦ hholds x (List.mem_cons_of_mem _ hx)) ?_ ?_
      · refine hdistinct.sublist (List.Sublist.map _ ?_)
        exact List.Sublist.append_left (List.sublist_cons_self _ _) _
      · intro adjusted total' ws' lk' d' hlk' hrely hadjusts hsub
        exact h adjusted total' ws' lk' d' hlk' hrely hadjusts.skip (hsub.cons _)
    · rename_i hpos
      have hnew : c ∉ done.map Prod.fst := by
        intro hmem
        rw [List.map_append, List.nodup_append'] at hdistinct
        exact hdistinct.2.2 (List.mem_map_of_mem hmem) (List.mem_map_of_mem List.mem_cons_self)
      refine wp_insertTransaction hp fun lk₁ d₁ hlk₁ hrely₁ hp₁ ↦ ?_
      have hc₁ := (hc.stable hrely₁).mono hlk₁
      refine wp_saveCustomer hp₁ hc₁ rfl fun lk₂ d₂ hlk₂ hrely₂ hp₂ ↦ ?_
      have hc₂ := (hc₁.stable hrely₂).mono hlk₂
      have hrely₀₂ := hrely₁.trans (hrely₂.mono hlk₁)
      have hlk₀₂ := List.Subset.trans hlk₁ hlk₂
      refine ih (hp₂.adjust rfl hc₂) (fun x hx ↦ ?_) ?_ ?_
      · exact ((hholds x (List.mem_cons_of_mem _ hx)).stable hrely₀₂).mono hlk₀₂
      · simpa using hdistinct
      · intro adjusted total' ws' lk' d' hlk' hrely hadjusts hsub hp'
        refine h (_ :: adjusted) total' ws' lk' d' (List.Subset.trans hlk₀₂ hlk')
          (hrely₀₂.trans (hrely.mono hlk₀₂)) (.adjust (by simpa using hpos) hadjusts)
          (hsub.cons_cons _) ?_
        rw [List.append_assoc] at hp'
        exact hp'

/-! ## The row of the batch -/

/-- The end of a batch: its row takes the slot of the key, and the transaction commits. -/
theorem wp_sealBatch {row : IdempotentBatchOperation} {a : Answer}
    (hp : Pending S req env ws lk d e) (hbatches : e.batches = [])
    (hcommit : ∀ lk' d', lk ⊆ lk' → Rely S req env lk d d' →
      (.batchKey row.tenant_id row.idempotency_key, .update) ∈ lk' →
      d'.batchByKey row.tenant_id row.idempotency_key = none →
      ({ e with batches := [row] } : Effect).Yields d'
        (postgres.view (ws ++ [.insertBatch row]) d') →
      Commit S req env lk' d' (postgres.view (ws ++ [.insertBatch row]) d')
        { e with batches := [row] })
    (hanswer : ∀ d', row ∈ d'.batches.rows → Answered S req env a d') :
    postgres.wp (contract S req env) (.stmt (.insertBatch row) fun _ ↦ .commit (.ret a)) ws lk d := by
  intro d₁ hrely₁ _ r ws' hexec
  have hview : ∀ d', Rely S req env lk d d' →
      (postgres.view ws d').batches.rows = d'.batches.rows := by
    intro d' hrely
    rw [(hp.yields d' hrely).batches, hbatches, List.append_nil]
  obtain ⟨⟨hid, hkey⟩, hint, rfl⟩ :
      (d₁.batches.find row.id = none ∧ d₁.batchByKey row.tenant_id row.idempotency_key = none) ∧
      Int4 row.affected_customers ∧ ws' = [.insertBatch row] := by
    simp only [postgres_exec, Sql.exec, Db.batchByKey, Table.find, hview d₁ hrely₁] at hexec
    split at hexec
    · cases hexec
    · rename_i hfree
      obtain ⟨hint, rfl⟩ := Sql.writing_eq_ok hexec
      exact ⟨by simpa [Db.batchByKey, Table.find] using hfree, hint, rfl⟩
  set lk₁ := lk ++ postgres.needs (.insertBatch row) (postgres.view ws d₁) with hlk₁
  have hsub : lk ⊆ lk₁ := List.subset_append_left _ _
  have hlocks : (.batch row.id, .update) ∈ lk₁ ∧
      (.batchKey row.tenant_id row.idempotency_key, .update) ∈ lk₁ := by
    simp [hlk₁, Sql.locks]
  have hfree : ∀ d', Rely S req env lk₁ d₁ d' →
      d'.batches.find row.id = none ∧ d'.batchByKey row.tenant_id row.idempotency_key = none :=
    fun d' hrely ↦ ⟨(hrely.batch _ _ hlocks.1 (by decide)).trans hid,
      hrely.batchKey _ _ hlocks.2 hkey⟩
  have hdone : ∀ d', Rely S req env lk₁ d₁ d' →
      Commit S req env lk₁ d' (postgres.view (ws ++ [.insertBatch row]) d')
        { e with batches := [row] } := by
    intro d' hrely
    have hrely₀ := hrely₁.trans (hrely.mono hsub)
    have hy := hp.yields d' hrely₀
    refine hcommit lk₁ d' hsub hrely₀ hlocks.2 (hfree d' hrely).2 ?_
    rw [Engine.view_append]
    refine ⟨hy.transactions, hy.customers, ?_⟩
    have hfind : (postgres.view ws d').batches.find row.id = none := by
      simpa only [Table.find, hview d' hrely₀] using (hfree d' hrely).1
    simp only [Engine.view_cons, Engine.view_nil, postgres_write, Write.apply]
    rw [Table.rows_insert_of_fresh hfind, hview d' hrely₀]
  refine ⟨fun _ ↦ Engine.follows_of_exec fun d' hrely ↦ ⟨trivial, ?_⟩, ?_⟩
  · have hrely₀ := hrely₁.trans (Rely.mono hsub hrely)
    have hnone := hfree d' hrely
    simp only [Db.batchByKey, Table.find] at hnone
    simp only [postgres_exec, Sql.exec, Db.batchByKey, Table.find, hview d' hrely₀, hnone,
      Sql.writing, hint, if_true]
    simp
  · refine wp_commit (fun d' hrely ↦ Or.inr ⟨_, hdone d' hrely⟩) fun d' d'' hrely hrely' ↦ ?_
    refine hanswer d'' (hrely'.batches.subset ?_)
    rw [(hdone d' hrely).yields.batches]
    exact List.mem_append_right _ List.mem_cons_self

/-- What a batch does once it has the snapshot of the customers. -/
theorem wp_postBatch {dto : InflationAdjustmentDto} {ids : List Uuid} (hcopies : S.copiesOn = none)
    (hunused : S.fresh → env.Unused d) (hids : ids.Nodup) :
    postgres.wp (contract S (.applyInflationAdjustment tenantId userId dto) env)
      (lockCustomers tenantId ids >>= fun customers ↦
        adjustDebtors env tenantId userId dto 0 (customers.filter fun c ↦ c.balance_cents > 0) 0 >>=
          fun total ↦ .stmt (.insertBatch (batchRow env tenantId dto
              (customers.filter fun c ↦ c.balance_cents > 0).length total)) fun _ ↦
            .commit (.ret (.inflation
              ⟨(customers.filter fun c ↦ c.balance_cents > 0).length, total⟩))) [] lk d := by
  refine wp_lockCustomers hcopies (fun _ _ ↦ trivial) fun rows lk₁ d₁ hlk₁ hrely₁ hsub hrows ↦ ?_
  set debtors := rows.filter fun c ↦ c.balance_cents > 0
  have hdebtors : debtors.Sublist rows := List.filter_sublist
  have hnodup : (debtors.map (·.id)).Nodup := (hids.sublist hsub).sublist (hdebtors.map _)
  have hstart : Pending S (.applyInflationAdjustment tenantId userId dto) env [] lk₁ d₁
      (adjusting dto []) := Pending.nil
  refine wp_adjustDebtors hstart (fun c hc ↦ hrows c (hdebtors.subset hc))
    (by simpa using hnodup) fun adjusted total ws lk₂ d₂ hlk₂ hrely₂ hadjusts hadjusted hp ↦ ?_
  refine wp_sealBatch hp rfl (fun lk₃ d₃ hlk₃ hrely₃ hlock hkey hyields ↦ ?_) fun d' hmem ↦
    ⟨_, hmem, rfl, rfl⟩
  have hp₃ := hp.stable hlk₃ hrely₃
  refine ⟨hyields, hp₃.vacant, hp₃.slots, fun b hb ↦ ?_, fun _ h ↦ (List.not_mem_nil h).elim,
    fun _ who hwho ↦ ?_, fun hS ↦ ?_, .inflate hadjusts ?_ fun x hx ↦ ?_⟩
  · obtain rfl := List.mem_singleton.1 hb
    exact ⟨hlock, hkey⟩
  · rw [hcopies] at hwho
    cases hwho
  · exact hrely₃.unused hS (hrely₂.unused hS (hrely₁.unused hS (hunused hS)))
  · have hlist := hnodup.sublist (hadjusted.map _)
    rwa [List.map_map] at hlist
  · have hc := hrows x.1 (hdebtors.subset (hadjusted.subset (List.mem_map_of_mem hx)))
    exact (((hc.stable hrely₂).mono hlk₂).stable hrely₃).mono hlk₃

theorem applyInflationAdjustment_wp {dto : InflationAdjustmentDto}
    (hunused : S.fresh → env.Unused d)
    (hwho : ∀ who, S.copiesOn = some who →
      (Request.applyInflationAdjustment tenantId userId dto).LocksOnly who d) :
    postgres.wp (contract S (.applyInflationAdjustment tenantId userId dto) env)
      ((Request.applyInflationAdjustment tenantId userId dto).script env) [] [] d := by
  have hcopies : S.copiesOn = none := Option.eq_none_iff_forall_ne_some.2 hwho
  simp only [Request.script, Services.applyInflationAdjustment, query, Prog.issue_bind,
    Prog.stmt_bind]
  intro d₁ hrely₁ _ r ws hexec
  obtain ⟨rfl, rfl⟩ : d₁.batchByKey tenantId dto.idempotency_key = r ∧ [] = ws := by
    simpa [Sql.exec] using hexec
  cases hfound : d₁.batchByKey tenantId dto.idempotency_key with
  | some b =>
    have hb : b ∈ d₁.batches.rows ∧ b.tenant_id = tenantId ∧
        b.idempotency_key = dto.idempotency_key :=
      ⟨List.mem_of_find?_eq_some hfound, by simpa using List.find?_some hfound⟩
    refine ⟨fun _ ↦ Or.inl ⟨_, ⟨rfl, rfl⟩⟩, fun d₂ hrely₂ ↦
      ⟨Or.inl ⟨rfl, Or.inr (Or.inl rfl)⟩, Or.inl ⟨_, rfl⟩, ?_⟩⟩
    intro d₃ hrely₃
    refine ⟨b, (hrely₂.batches.trans hrely₃.batches).subset hb.1, ?_, rfl⟩
    rw [hb.2.1, hb.2.2]
    rfl
  | none =>
    refine ⟨fun hS ↦ Or.inr fun d₂ hrely₂ _ ↦ ⟨trivial, ?_⟩, ?_⟩
    · have hkey : ∀ d, (Request.applyInflationAdjustment tenantId userId dto).KeyUnused d ↔
          d.batchByKey tenantId dto.idempotency_key = none := fun _ ↦ keyUnused_iff_of_batch rfl
      have hnone : d₂.batchByKey tenantId dto.idempotency_key = none := by
        refine (hkey d₂).1 ((Rely.quiet hrely₂ hS).keyUnused (fun who h ↦ ?_) ((hkey d₁).2 hfound))
        rw [hcopies] at h
        cases h
      rw [Engine.alone]
      simp only [postgres_exec, Sql.exec, Engine.view_nil, hnone, List.append_nil]
    · intro d₂ hrely₂ _ ids ws₂ hexec₂
      obtain ⟨rfl, rfl⟩ : (d₂.customersOf tenantId).map (·.id) = ids ∧ [] = ws₂ := by
        simpa [Sql.exec] using hexec₂
      refine ⟨fun hS ↦ Engine.follows_of_exec fun d₃ hrely₃ ↦ ⟨trivial, ?_⟩, ?_⟩
      · simp only [postgres_exec, Sql.exec, List.append_nil, Engine.view_nil, customersOf_map_id,
          (Rely.quiet hrely₃ hS).customers]
      · have hunused₂ : S.fresh → env.Unused d₂ := fun hS ↦
          Rely.unused hrely₂ hS (Rely.unused hrely₁ hS (hunused hS))
        simp only [Prog.bind_eq, Prog.bind_assoc, Prog.stmt_bind, Prog.commitTransaction_bind,
          Prog.commit_bind, Prog.pure_eq_ret, Prog.ret_bind, List.append_nil]
        exact wp_postBatch hcopies hunused₂ (((env.scan_perm _).nodup_iff).2
          (d₂.customers.nodup.sublist (List.Sublist.map _ List.filter_sublist)))

end MicroErp.Commits
