import MicroErp.Commits.Alone
import MicroErp.Commits.Runs

/-!
# What a merge changes

Whichever of the two customers is locked first, a merge that succeeds moves the whole of the second
one to the first one and touches nothing else.  One that fails at any step changes nothing.
-/

namespace MicroErp.Guarantees

open MicroErp.Commits MicroErp.Concurrency MicroErp.Database MicroErp.Services MicroErp.Storage

variable {env : Env} {tenantId : Uuid} {dto : MergeCustomersDto} {d d' : Db} {p s : Customer}

/-- What a merge of `s` into `p` makes of `d`. -/
structure Conserves (tenantId : Uuid) (p s : Customer) (d d' : Db) : Prop where
  primary : d'.customers.find p.id = some { p with
    balance_cents := p.balance_cents + s.balance_cents
    credit_limit_cents := max p.credit_limit_cents s.credit_limit_cents }
  secondary : d'.customers.find s.id = some { s with is_active := false, balance_cents := 0 }
  otherCustomers : ∀ id, id ≠ p.id → id ≠ s.id → d'.customers.find id = d.customers.find id
  /-- The rows of `p` are those of both, with no other column changed. -/
  union : ∀ t, t ∈ d'.transactionsOf tenantId p.id ↔
    ∃ t₀ ∈ d.transactionsOf tenantId p.id ++ d.transactionsOf tenantId s.id,
      t = { t₀ with customer_id := p.id }
  emptied : d'.transactionsOf tenantId s.id = []
  otherTransactions : ∀ t, ¬(t.tenant_id = tenantId ∧ (t.customer_id = p.id ∨ t.customer_id = s.id)) →
    (t ∈ d'.transactions.rows ↔ t ∈ d.transactions.rows)
  count : d'.transactions.rows.length = d.transactions.rows.length
  otherTables : d' = { d with customers := d'.customers, transactions := d'.transactions }

theorem mem_transactionsOf {t : Transaction} {id : Uuid} :
    t ∈ d.transactionsOf tenantId id ↔ t ∈ d.transactions.rows ∧ Carries tenantId id t := by
  simp [Db.transactionsOf, Carries, and_comm]

/-- The rows after the bulk update of all those of `s`. -/
theorem mem_moved {v : Db} {primaryId secondaryId : Uuid}
    (hrows : v.transactions.rows = d.transactions.rows.map fun t ↦
      if Carries tenantId secondaryId t then carriedBy primaryId t else t) (t : Transaction) :
    t ∈ v.transactions.rows ↔ ∃ t₀ ∈ d.transactions.rows,
      t = if Carries tenantId secondaryId t₀ then carriedBy primaryId t₀ else t₀ := by
  rw [hrows, List.mem_map]
  exact exists_congr fun t₀ ↦ and_congr_right fun _ ↦ eq_comm

theorem conserves_of_rows {v : Db} (hp : v.customers.find p.id = some p)
    (hs : v.customers.find s.id = some s) (hne : p.id ≠ s.id)
    (hv : v = { d with transactions := v.transactions })
    (hrows : v.transactions.rows = d.transactions.rows.map fun t ↦
      if Carries tenantId s.id t then carriedBy p.id t else t) :
    Conserves tenantId p s d (putCustomer (absorbed s) (putCustomer (mergedPrimary p s) v)) where
  primary := (find_putCustomer_of_ne (absorbed s) _ hne).trans
    (find_putCustomer (mergedPrimary p s) hp)
  secondary := find_putCustomer (absorbed s)
    ((find_putCustomer_of_ne (mergedPrimary p s) v hne.symm).trans hs)
  otherCustomers id hidp hids := by
    rw [find_putCustomer_of_ne (absorbed s) _ hids, find_putCustomer_of_ne (mergedPrimary p s) v hidp,
      hv]
  union t := by
    rw [mem_transactionsOf, transactions_putCustomer, transactions_putCustomer, mem_moved hrows]
    constructor
    · rintro ⟨⟨t₀, hmem, rfl⟩, hcarries⟩
      refine ⟨t₀, ?_, ?_⟩
      · rw [List.mem_append, mem_transactionsOf, mem_transactionsOf]
        by_cases hs₀ : Carries tenantId s.id t₀
        · exact Or.inr ⟨hmem, hs₀⟩
        · rw [if_neg hs₀] at hcarries
          exact Or.inl ⟨hmem, hcarries⟩
      · by_cases hs₀ : Carries tenantId s.id t₀
        · exact if_pos hs₀
        · rw [if_neg hs₀] at hcarries ⊢
          rw [← hcarries.2]
    · rintro ⟨t₀, hmem, rfl⟩
      rw [List.mem_append, mem_transactionsOf, mem_transactionsOf] at hmem
      rcases hmem with ⟨hmem, hcarries⟩ | ⟨hmem, hcarries⟩
      · refine ⟨⟨t₀, hmem, ?_⟩, hcarries.1, rfl⟩
        rw [if_neg fun h ↦ hne (hcarries.2.symm.trans h.2), ← hcarries.2]
      · exact ⟨⟨t₀, hmem, (if_pos hcarries).symm⟩, hcarries.1, rfl⟩
  emptied := by
    rw [List.eq_nil_iff_forall_not_mem]
    intro t ht
    obtain ⟨hmem, hcarries⟩ := mem_transactionsOf.1 ht
    obtain ⟨t₀, -, rfl⟩ := (mem_moved hrows t).1 hmem
    by_cases hs₀ : Carries tenantId s.id t₀
    · rw [if_pos hs₀] at hcarries
      exact hne hcarries.2
    · rw [if_neg hs₀] at hcarries
      exact hs₀ hcarries
  otherTransactions t hother := by
    rw [transactions_putCustomer, transactions_putCustomer, mem_moved hrows]
    constructor
    · rintro ⟨t₀, hmem, rfl⟩
      by_cases hs₀ : Carries tenantId s.id t₀
      · rw [if_pos hs₀] at hother
        exact (hother ⟨hs₀.1, Or.inl rfl⟩).elim
      · rwa [if_neg hs₀]
    · intro hmem
      exact ⟨t, hmem, (if_neg fun h ↦ hother ⟨h.1, Or.inr h.2⟩).symm⟩
  count := by
    rw [transactions_putCustomer, transactions_putCustomer, hrows, List.length_map]
  otherTables := by
    rw [hv]
    rfl

/-! ## The merge alone -/

/-- A merge with both customers at hand. -/
def mergeLocked (env : Env) (tenantId : Uuid) (primary secondary : Customer) :
    Script Customer := do
  let rows ← query (.selectTransactionsOf tenantId secondary.id)
  moveTransactions tenantId secondary.id primary.id (env.scan rows)
  saveCustomer (mergedPrimary primary secondary)
  saveCustomer (absorbed secondary)
  Prog.commitTransaction
  pure (mergedPrimary primary secondary)

theorem mergeCustomers_eq (env : Env) (tenantId : Uuid) (dto : MergeCustomersDto) :
    mergeCustomers env tenantId dto =
      if dto.primary_id.chars = dto.secondary_id.chars then
        Prog.fail (.unprocessableEntity "No se puede fusionar un cliente consigo mismo")
      else if dto.primary_id.chars < dto.secondary_id.chars then
        lockMerged tenantId dto dto.primary_id >>= fun p ↦
          lockMerged tenantId dto dto.secondary_id >>= fun s ↦ mergeLocked env tenantId p s
      else lockMerged tenantId dto dto.secondary_id >>= fun s ↦
        lockMerged tenantId dto dto.primary_id >>= fun p ↦ mergeLocked env tenantId p s := by
  by_cases hlt : dto.primary_id.chars < dto.secondary_id.chars
  · simp only [mergeCustomers, hlt, if_true]
    split
    · rfl
    · congr 1
      funext p
      congr 1
      funext s
      rw [if_pos hlt, if_pos rfl]
      rfl
  · simp only [mergeCustomers, hlt, if_false]
    split
    · rfl
    · rename_i hdistinct
      congr 1
      funext s
      congr 1
      funext p
      rw [if_neg hlt, if_neg hdistinct]
      rfl

theorem eval_lockMerged (tenantId : Uuid) (dto : MergeCustomersDto) (id : UuidText) (v : Db) :
    (∀ c ∈ v.customer tenantId id.value,
        postgres.eval (lockMerged tenantId dto id) v = .ok (c, v)) ∧
      (v.customer tenantId id.value = none →
        ∃ message, postgres.eval (lockMerged tenantId dto id) v = .error (.notFound message)) := by
  rw [lockMerged, Engine.eval_bind, eval_query]
  simp only [Sql.exec, Except.map]
  constructor
  · intro c hc
    rw [Option.mem_def.1 hc]
    rfl
  · intro hnone
    rw [hnone]
    exact ⟨_, rfl⟩

/-- The columns that the two saves write are in range. -/
def MergeFits (p s : Customer) : Prop :=
  (mergedPrimary p s = p ∨ Int4 (mergedPrimary p s).balance_cents ∧
      Int4 (mergedPrimary p s).credit_limit_cents) ∧
    (absorbed s = s ∨ Int4 (absorbed s).balance_cents ∧ Int4 (absorbed s).credit_limit_cents)

instance (p s : Customer) : Decidable (MergeFits p s) :=
  inferInstanceAs (Decidable ((_ ∨ _ ∧ _) ∧ (_ ∨ _ ∧ _)))

theorem eval_mergeLocked (env : Env) (tenantId : Uuid) (hp : d.customers.find p.id = some p)
    (hs : d.customers.find s.id = some s) (hne : p.id ≠ s.id) :
    ∃ d', Conserves tenantId p s d d' ∧ postgres.eval (mergeLocked env tenantId p s) d =
      if MergeFits p s then .ok (mergedPrimary p s, d') else .error outOfRange := by
  obtain ⟨table, hmoved, hrows⟩ := eval_moveTransactions tenantId s.id p.id
    (env.scan ((d.transactionsOf tenantId s.id).map (·.id))) d
  have hrows' : table.rows = d.transactions.rows.map fun t ↦
      if Carries tenantId s.id t then carriedBy p.id t else t := by
    rw [hrows]
    apply List.map_congr_left
    intro t ht
    by_cases hcarries : Carries tenantId s.id t
    · have hid : t.id ∈ env.scan ((d.transactionsOf tenantId s.id).map (·.id)) := by
        rw [(env.scan_perm _).mem_iff]
        exact List.mem_map_of_mem (mem_transactionsOf.2 ⟨ht, hcarries⟩)
      rw [if_pos ⟨hid, hcarries⟩, if_pos hcarries]
    · rw [if_neg fun h ↦ hcarries h.2, if_neg hcarries]
  refine ⟨_, conserves_of_rows (v := { d with transactions := table }) hp hs hne rfl hrows', ?_⟩
  have hs₁ : (putCustomer (mergedPrimary p s) { d with transactions := table }).customers.find
      (absorbed s).id = some s :=
    (find_putCustomer_of_ne (mergedPrimary p s) { d with transactions := table } hne.symm).trans hs
  rw [mergeLocked, Engine.eval_bind, eval_query]
  simp only [Engine.eval_bind, Sql.exec, Except.map, ok_bind, Engine.view_nil, hmoved]
  rw [eval_saveCustomer (mergedPrimary p s) { d with transactions := table } hp]
  unfold MergeFits
  split
  · rename_i hfirst
    rw [ok_bind, eval_saveCustomer (absorbed s) _ hs₁]
    split
    · rename_i hsecond
      exact (if_pos ⟨hfirst, hsecond⟩).symm
    · rename_i hsecond
      exact (if_neg fun h ↦ hsecond h.2).symm
  · rename_i hfirst
    exact (if_neg fun h ↦ hfirst h.1).symm

/-- A merge that answers has found both customers with the tenant and merged them. -/
theorem conserves_of_eval (hne : dto.primary_id.value ≠ dto.secondary_id.value) {c : Customer}
    (h : postgres.eval (mergeCustomers env tenantId dto) d = .ok (c, d')) :
    ∃ p ∈ d.customer tenantId dto.primary_id.value,
      ∃ s ∈ d.customer tenantId dto.secondary_id.value, Conserves tenantId p s d d' := by
  have hlocked : ∀ {f : Customer → Script Customer} {id : UuidText},
      postgres.eval (lockMerged tenantId dto id >>= f) d = .ok (c, d') →
        ∃ p ∈ d.customer tenantId id.value, postgres.eval (f p) d = .ok (c, d') := by
    intro f id h
    obtain ⟨hfound, hmissing⟩ := eval_lockMerged tenantId dto id d
    rw [Engine.eval_bind] at h
    cases hp : d.customer tenantId id.value with
    | none =>
      obtain ⟨message, hfail⟩ := hmissing hp
      rw [hfail] at h
      cases h
    | some p =>
      rw [hfound p hp] at h
      exact ⟨p, rfl, h⟩
  have hmerged : ∀ p ∈ d.customer tenantId dto.primary_id.value,
      ∀ s ∈ d.customer tenantId dto.secondary_id.value,
        postgres.eval (mergeLocked env tenantId p s) d = .ok (c, d') →
          Conserves tenantId p s d d' := by
    intro p hp s hs h
    have hp' := (Option.filter_eq_some_iff.1 hp).1
    have hs' := (Option.filter_eq_some_iff.1 hs).1
    have hpid : p.id = dto.primary_id.value := Table.find_key hp'
    have hsid : s.id = dto.secondary_id.value := Table.find_key hs'
    obtain ⟨d₁, hconserves, heval⟩ := eval_mergeLocked env tenantId
      (hpid ▸ hp') (hsid ▸ hs') (by rwa [hpid, hsid])
    rw [heval] at h
    split at h
    · obtain rfl : d₁ = d' := congrArg Prod.snd (Except.ok.inj h)
      exact hconserves
    · cases h
  rw [mergeCustomers_eq] at h
  split at h
  · cases h
  split at h
  · obtain ⟨p, hp, h⟩ := hlocked h
    obtain ⟨s, hs, h⟩ := hlocked h
    exact ⟨p, hp, s, hs, hmerged p hp s hs h⟩
  · obtain ⟨s, hs, h⟩ := hlocked h
    obtain ⟨p, hp, h⟩ := hlocked h
    exact ⟨p, hp, s, hs, hmerged p hp s hs h⟩

/-! ## Every run of a merge -/

theorem committing_merge :
    ((Request.mergeCustomers tenantId dto).script env).Committing := by
  simp only [Request.script, mergeCustomers]
  split
  · trivial
  · simp only [Prog.bind_assoc]
    refine Prog.committing_bind fun first ↦ Prog.committing_bind fun second ↦
      Prog.committing_bind fun rows ↦ Prog.committing_bind fun _ ↦ Prog.committing_bind fun _ ↦
        Prog.committing_bind fun _ ↦ ?_
    trivial

theorem commitsLast_merge (env : Env) (tenantId : Uuid) (dto : MergeCustomersDto) :
    ((Request.mergeCustomers tenantId dto).script env).CommitsLast := by
  have hlocked : ∀ p s, (mergeLocked env tenantId p s >>= fun a ↦
      (pure (Answer.customer a) : Script Answer)).CommitsLast := by
    intro p s
    simp only [mergeLocked, Prog.bind_assoc]
    refine Prog.Silent.bind (silent_query _) fun rows ↦ ?_
    refine Prog.Silent.bind (silent_moveTransactions tenantId s.id p.id (env.scan rows)) fun _ ↦ ?_
    refine Prog.Silent.bind (silent_saveCustomer (mergedPrimary p s)) fun _ ↦ ?_
    refine Prog.Silent.bind (silent_saveCustomer (absorbed s)) fun _ ↦ ?_
    exact ⟨_, rfl⟩
  rw [Request.script, mergeCustomers_eq]
  split
  · trivial
  split
  · rw [Prog.bind_assoc]
    refine Prog.Silent.bind (silent_lockMerged tenantId dto _) fun p ↦ ?_
    rw [Prog.bind_assoc]
    exact Prog.Silent.bind (silent_lockMerged tenantId dto _) fun s ↦ hlocked p s
  · rw [Prog.bind_assoc]
    refine Prog.Silent.bind (silent_lockMerged tenantId dto _) fun s ↦ ?_
    rw [Prog.bind_assoc]
    exact Prog.Silent.bind (silent_lockMerged tenantId dto _) fun p ↦ hlocked p s

/-- What the run of a merge that has ended has done. -/
def MergedWhole (env : Env) (tenantId : Uuid) (dto : MergeCustomersDto) (d : Db)
    (es : List (Event Unit)) : Prop :=
  let s := postgres.run (serve (fun _ ↦ .mergeCustomers tenantId dto) (fun _ ↦ env) d) es
  (∀ a, s.outcome () = some (.ok a) → ∃ p ∈ d.customer tenantId dto.primary_id.value,
      ∃ q ∈ d.customer tenantId dto.secondary_id.value, Conserves tenantId p q d s.db) ∧
    ∀ e, s.outcome () = some (.error e) → s.db = d

theorem merge_conserves (env : Env) (tenantId : Uuid) (dto : MergeCustomersDto)
    (hne : dto.primary_id.value ≠ dto.secondary_id.value) (d : Db) (es : List (Event Unit)) :
    MergedWhole env tenantId dto d es := by
  have hlast := commitsLast_merge env tenantId dto
  constructor
  · intro a ha
    have heval := Engine.eval_of_answer (hlast.transactional committing_merge) ha
    rw [Request.script, Engine.eval_bind, bind_eq_ok] at heval
    obtain ⟨⟨c, d'⟩, hmerge, hanswer⟩ := heval
    obtain rfl := congrArg Prod.snd (Except.ok.inj hanswer)
    exact conserves_of_eval hne hmerge
  · intro e he
    exact Engine.unchanged_of_error hlast he

/-- Customer 101 takes over the debt of customer 100, whose identifier is the smaller one. -/
def takeover : MergeCustomersDto := { primary_id := ⟨101, 0⟩, secondary_id := ⟨100, 0⟩ }

theorem merge_conserves_takeover :
    ((postgres.run (serve (fun _ ↦ .mergeCustomers 1 takeover) (fun _ ↦ sampleEnv 10) owing)
        (List.replicate 15 (.step ()))).db.customers.rows.map fun c ↦ (c.id, c.balance_cents)) =
      [(100, 0), (101, 100)] ∧
    MergedWhole (sampleEnv 10) 1 takeover owing (List.replicate 15 (.step ())) :=
  ⟨by decide +kernel, merge_conserves (sampleEnv 10) 1 takeover (by decide) owing _⟩

end MicroErp.Guarantees
