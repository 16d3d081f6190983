import MicroErp.Commits.Bulk

/-!
# A merge meets its contract

The merge locks both customers, moves the rows of the second one in a bulk update and saves both.
-/

namespace MicroErp.Commits

open MicroErp.Concurrency MicroErp.Database MicroErp.Services MicroErp.Storage

variable {S : Setting} {req : Request} {env : Env} {d d' : Db} {tenantId : Uuid}
  {lk lk' : List (LockName × LockMode)} {ws : List Write}

/-- The rows that a merge moves. -/
def Carries (tenantId customerId : Uuid) (t : Transaction) : Prop :=
  t.tenant_id = tenantId ∧ t.customer_id = customerId

instance (tenantId customerId : Uuid) : DecidablePred (Carries tenantId customerId) := fun t ↦
  inferInstanceAs (Decidable (t.tenant_id = tenantId ∧ t.customer_id = customerId))

def carriedBy (customerId : Uuid) (t : Transaction) : Transaction :=
  { t with customer_id := customerId }

/-- A held customer keeps its rows, as far as the rely says. -/
theorem carrying_stable {id : Uuid} (hS : S.exclusive ∨ S.quiet)
    (hlock : (.customer id, .update) ∈ lk) (hrely : Rely S req env lk d d') :
    d'.carrying id = d.carrying id := by
  rcases hS with hS | hS
  · rw [hrely.exclusive hS]
  · exact (hrely.quiet hS).carried id hlock

theorem mem_carrying {id : Uuid} {t : Transaction} :
    t ∈ d.carrying id ↔ t ∈ d.transactions.rows ∧ t.customer_id = id := by
  simp [Db.carrying]

theorem carries_iff {tenantId id : Uuid} {t : Transaction} :
    t ∈ d.transactions.rows ∧ Carries tenantId id t ↔
      t ∈ d.carrying id ∧ t.tenant_id = tenantId := by
  rw [mem_carrying, Carries]
  tauto

/-- The condition of the bulk update. -/
theorem found_carried (v : Db) (tenantId customerId id : Uuid) :
    (v.transaction tenantId id).filter (fun t ↦ t.customer_id = customerId) =
      (v.transactions.find id).filter fun t ↦ Carries tenantId customerId t := by
  rw [Db.transaction, Option.filter_filter]
  congr 1
  funext t
  rw [Bool.eq_iff_iff, Bool.and_eq_true, decide_eq_true_iff, decide_eq_true_iff,
    decide_eq_true_iff, Carries]

/-- The recheck of a row answers the same while the customer is held. -/
theorem find_carried_stable {id customerId : Uuid}
    (hcarrying : d'.carrying customerId = d.carrying customerId) :
    ((d'.transactions.find id).filter fun t ↦ Carries tenantId customerId t).isSome =
      ((d.transactions.find id).filter fun t ↦ Carries tenantId customerId t).isSome := by
  have hiff : ∀ d : Db, ((d.transactions.find id).filter fun t ↦
      Carries tenantId customerId t).isSome = true ↔
        ∃ t ∈ d.carrying customerId, t.tenant_id = tenantId ∧ t.id = id := by
    intro d
    rw [Option.isSome_iff_exists]
    constructor
    · rintro ⟨t, ht⟩
      obtain ⟨hfind, hp⟩ := Option.filter_eq_some_iff.1 ht
      obtain ⟨hmem, hid⟩ := Table.find_eq_some.1 hfind
      have hboth := carries_iff.1 ⟨hmem, of_decide_eq_true hp⟩
      exact ⟨t, hboth.1, hboth.2, hid⟩
    · rintro ⟨t, hmem, htenant, hid⟩
      obtain ⟨hmem, hp⟩ := carries_iff.2 ⟨hmem, htenant⟩
      exact ⟨t, Option.filter_eq_some_iff.2
        ⟨Table.find_eq_some.2 ⟨hmem, hid⟩, decide_eq_true hp⟩⟩
  rw [Bool.eq_iff_iff, hiff, hiff, hcarrying]

/-- The loop of the bulk update: at the end all rows of the customer are moved, as far as the
setting keeps new ones away. -/
theorem wp_moveTransactions {secondaryId primaryId : Uuid} {done ids : List Uuid}
    {f : Unit → Script Answer}
    (h : Updating S req env (Carries tenantId secondaryId) (carriedBy primaryId) done ws lk d)
    (hlock : (.customer secondaryId, .update) ∈ lk) (hids : (done ++ ids).Nodup)
    (hall : S.exclusive ∨ S.quiet → ∀ t ∈ d.transactions.rows, Carries tenantId secondaryId t →
      t.id ∈ done ++ ids)
    (hnext : ∀ moved ws' lk' d', lk ⊆ lk' → Rely S req env lk d d' →
      Updating S req env (Carries tenantId secondaryId) (carriedBy primaryId) moved ws' lk' d' →
      (S.exclusive ∨ S.quiet → ∀ t ∈ d'.transactions.rows, Carries tenantId secondaryId t →
        t.id ∈ moved) → postgres.wp (contract S req env) (f ()) ws' lk' d') :
    postgres.wp (contract S req env)
      (moveTransactions tenantId secondaryId primaryId ids >>= f) ws lk d := by
  induction ids generalizing done ws lk d with
  | nil =>
    rw [List.append_nil] at hall
    exact hnext done ws lk d (List.Subset.refl _) Rely.refl h hall
  | cons id ids ih =>
    simp only [moveTransactions, query, Prog.issue_bind, Prog.stmt_bind]
    have hkept : ∀ d', Rely S req env lk d d' → S.exclusive ∨ S.quiet →
        ∀ t ∈ d'.transactions.rows, Carries tenantId secondaryId t → t.id ∈ done ++ id :: ids := by
      intro d' hrely hS t ht hp
      have hcarried := carries_iff.1 ⟨ht, hp⟩
      rw [carrying_stable hS hlock hrely] at hcarried
      have hold := carries_iff.2 hcarried
      exact hall hS t hold.1 hold.2
    have hid : id ∉ done := fun hmem ↦
      (List.nodup_append'.1 hids).2.2 hmem List.mem_cons_self
    refine h.wp_step (w := .moveTransaction id primaryId) () hid (fun v ↦ ?_)
      (fun v hv ↦ ?_) (fun _ ↦ rfl) (fun _ ↦ rfl) (fun _ ↦ trivial)
      (fun hS lk' d₁ d₂ hsub hrely₁ hrely₂ ↦ ?_) (fun ws' lk' d₁ hsub hrely₁ h₁ ↦ ?_)
      fun lk' d₁ hsub hrely₁ hgone h₁ ↦ ?_
    · simp only [Sql.exec, found_carried]
      split <;> rfl
    · simp only [Sql.locks, found_carried, hv, if_true]
      exact List.mem_cons_self
    · exact find_carried_stable (carrying_stable (Or.inr hS) (hsub hlock) hrely₂)
    · refine ih h₁ (hsub hlock) (by simpa using hids) (by simpa using hkept d₁ hrely₁) ?_
      intro moved ws'' lk'' d' hsub' hrely'
      exact hnext moved ws'' lk'' d' (List.Subset.trans hsub hsub')
        (hrely₁.trans (hrely'.mono hsub))
    · refine ih h₁ (hsub hlock) ?_ (fun hS t ht hp ↦ ?_) ?_
      · exact hids.sublist (List.Sublist.append_left (List.sublist_cons_self _ _) _)
      · have hmem := hkept d₁ hrely₁ hS t ht hp
        have hne : t.id ≠ id := fun heq ↦ hgone t ht heq hp
        simpa [hne] using hmem
      · intro moved ws'' lk'' d' hsub' hrely'
        exact hnext moved ws'' lk'' d' (List.Subset.trans hsub hsub')
          (hrely₁.trans (hrely'.mono hsub))

/-- The merge once both customers are locked. -/
theorem wp_mergeLocked {dto : MergeCustomersDto} {primary secondary : Customer}
    (hcopies : S.copiesOn = none) (hunused : S.fresh → env.Unused d)
    (hprimary : Holds d lk tenantId primary) (hsecondary : Holds d lk tenantId secondary)
    (hprimaryId : primary.id = dto.primary_id.value)
    (hsecondaryId : secondary.id = dto.secondary_id.value) :
    postgres.wp (contract S (.mergeCustomers tenantId dto) env)
      (.stmt (.selectTransactionsOf tenantId secondary.id) fun rows ↦
        moveTransactions tenantId secondary.id primary.id (env.scan rows) >>= fun _ ↦
          saveCustomer (mergedPrimary primary secondary) >>= fun _ ↦
            saveCustomer (absorbed secondary) >>= fun _ ↦
              .commit (.ret (.customer (mergedPrimary primary secondary)))) [] lk d := by
  intro d₁ hrely₁ _ rows ws hexec
  obtain ⟨rfl, rfl⟩ : (d₁.transactionsOf tenantId secondary.id).map (·.id) = rows ∧ [] = ws := by
    simpa [Sql.exec] using hexec
  have hlock := hsecondary.2.2
  have hrows : ∀ d : Db, d.transactionsOf tenantId secondary.id =
      (d.carrying secondary.id).filter fun t ↦ t.tenant_id = tenantId := by
    intro d
    simp [Db.transactionsOf, Db.carrying, List.filter_filter, Bool.and_comm]
  refine ⟨fun hS ↦ Engine.follows_of_exec fun d₂ hrely₂ ↦ ⟨trivial, ?_⟩, ?_⟩
  · have hcarrying : d₂.carrying secondary.id = d₁.carrying secondary.id :=
      carrying_stable (Or.inr hS) (List.mem_append_left _ hlock) hrely₂
    simp only [postgres_exec, Sql.exec, Engine.view_nil, hrows, hcarrying]
  simp only [postgres_needs, Sql.locks, List.append_nil]
  have hids : (env.scan ((d₁.transactionsOf tenantId secondary.id).map (·.id))).Nodup :=
    ((env.scan_perm _).nodup_iff).2
      (d₁.transactions.nodup.sublist (List.Sublist.map _ List.filter_sublist))
  refine wp_moveTransactions Updating.nil hlock (by simpa using hids) (fun _ t ht hp ↦ ?_)
    fun moved ws lk₂ d₂ hlk₂ hrely₂ hupdating hmoved ↦ ?_
  · rw [List.nil_append, (env.scan_perm _).mem_iff]
    exact List.mem_map_of_mem (List.mem_filter.2 ⟨ht, decide_eq_true ⟨hp.2, hp.1⟩⟩)
  have hprimary₂ := ((hprimary.stable hrely₁).stable hrely₂).mono hlk₂
  have hsecondary₂ := ((hsecondary.stable hrely₁).stable hrely₂).mono hlk₂
  refine wp_saveCustomer hupdating.pending hprimary₂ rfl fun lk₃ d₃ hlk₃ hrely₃ hp₃ ↦ ?_
  refine wp_saveCustomer hp₃ ((hsecondary₂.stable hrely₃).mono hlk₃) rfl
    fun lk₄ d₄ hlk₄ hrely₄ hp₄ ↦ ?_
  refine wp_commit (fun d₅ hrely₅ ↦ Or.inr ?_) fun _ _ _ _ ↦ rfl
  have hrely₂₅ := hrely₃.trans ((hrely₄.trans (hrely₅.mono hlk₄)).mono hlk₃)
  have hlk₂₄ := List.Subset.trans hlk₃ hlk₄
  have hupdating₅ := hupdating.stable hlk₂₄ hrely₂₅
  refine ⟨_, (hp₄.stable (List.Subset.refl _) hrely₅).commit rfl (fun _ who hwho ↦ ?_)
    (fun hS ↦ ?_) ?_⟩
  · rw [hcopies] at hwho
    cases hwho
  · exact hrely₂₅.unused hS (hrely₂.unused hS (Rely.unused hrely₁ hS (hunused hS)))
  · refine .merge ((hprimary₂.stable hrely₂₅).mono hlk₂₄) ((hsecondary₂.stable hrely₂₅).mono hlk₂₄)
      hprimaryId hsecondaryId (fun t ht hid ↦ ?_) fun hS t ht hcustomer htenant ↦ ?_
    · exact (hupdating₅.of_mem ht hid).symm
    · have hcarried := carries_iff.1 ⟨ht, htenant, hcustomer⟩
      rw [carrying_stable hS (hlk₂ hlock) hrely₂₅] at hcarried
      obtain ⟨hmem, hp⟩ := carries_iff.2 hcarried
      exact hmoved hS t hmem hp

theorem mergeCustomers_wp {dto : MergeCustomersDto} (hunused : S.fresh → env.Unused d)
    (hwho : ∀ who, S.copiesOn = some who →
      (Request.mergeCustomers tenantId dto).LocksOnly who d) :
    postgres.wp (contract S (.mergeCustomers tenantId dto) env)
      ((Request.mergeCustomers tenantId dto).script env) [] [] d := by
  have hcopies : S.copiesOn = none := Option.eq_none_iff_forall_ne_some.2 hwho
  have hpinned : ∀ id, S.quiet → ∀ who, S.copiesOn = some who → id = who := by
    intro id _ who h
    rw [hcopies] at h
    cases h
  -- the smaller text is locked first, so the two locks come in either order
  by_cases hlt : dto.primary_id.chars < dto.secondary_id.chars
  · simp only [Request.script, Services.mergeCustomers, hlt, if_true]
    simp only [lockMerged, query, Prog.issue_bind, Prog.stmt_bind, Prog.ite_bind, Prog.fail_bind,
      Prog.bind_assoc]
    split
    · trivial
    refine wp_lockCustomer (hpinned _) ⟨_, rfl⟩ fun primary d₁ hrely₁ _ hprimaryId hprimary ↦ ?_
    refine wp_lockCustomer (hpinned _) ⟨_, rfl⟩
      fun secondary d₂ hrely₂ _ hsecondaryId hsecondary ↦ ?_
    simp only [Prog.pure_eq_ret, Prog.ret_bind, Prog.commitTransaction_bind]
    rw [if_pos hlt, if_pos rfl]
    exact wp_mergeLocked hcopies (fun hS ↦ hrely₂.unused hS (hrely₁.unused hS (hunused hS)))
      ((hprimary.stable hrely₂).mono (List.subset_append_left _ _)) hsecondary hprimaryId
      hsecondaryId
  · simp only [Request.script, Services.mergeCustomers, hlt, if_false]
    simp only [lockMerged, query, Prog.issue_bind, Prog.stmt_bind, Prog.ite_bind, Prog.fail_bind,
      Prog.bind_assoc]
    split
    · trivial
    rename_i hdistinct
    refine wp_lockCustomer (hpinned _) ⟨_, rfl⟩
      fun secondary d₁ hrely₁ _ hsecondaryId hsecondary ↦ ?_
    refine wp_lockCustomer (hpinned _) ⟨_, rfl⟩ fun primary d₂ hrely₂ _ hprimaryId hprimary ↦ ?_
    simp only [Prog.pure_eq_ret, Prog.ret_bind, Prog.commitTransaction_bind]
    rw [if_neg hlt, if_neg hdistinct]
    exact wp_mergeLocked hcopies (fun hS ↦ hrely₂.unused hS (hrely₁.unused hS (hunused hS)))
      hprimary ((hsecondary.stable hrely₂).mono (List.subset_append_left _ _)) hprimaryId
      hsecondaryId

end MicroErp.Commits
