import MicroErp.Commits.Rules

/-!
# The operations on customers meet their contract

Only the credit limit is set under a lock.  The other edits load the customer, and their `save`
reads it again; what the two reads have in common is its immutable columns.
-/

namespace MicroErp.Commits

open MicroErp.Concurrency MicroErp.Database MicroErp.Services MicroErp.Storage

variable {S : Setting} {req : Request} {env : Env} {d : Db} {tenantId customerId : Uuid}
  {lk : List (LockName × LockMode)} {ws : List Write}

theorem updateCreditLimit_wp {dto : UpdateCreditLimitDto} (hunused : S.fresh → env.Unused d)
    (hwho : ∀ who, S.copiesOn = some who →
      (Request.updateCreditLimit tenantId customerId dto).LocksOnly who d) :
    postgres.wp (contract S (.updateCreditLimit tenantId customerId dto) env)
      ((Request.updateCreditLimit tenantId customerId dto).script env) [] [] d := by
  simp only [Request.script, Services.updateCreditLimit, Services.lockCustomer, query,
    Prog.issue_bind, Prog.stmt_bind, Prog.bind_assoc]
  refine wp_lockCustomer (fun _ who h ↦ (hwho who h).elim) ⟨_, rfl⟩ fun c d₁ hrely₁ _ hid hc ↦ ?_
  simp only [Prog.pure_eq_ret, Prog.ret_bind, Prog.commitTransaction_bind]
  refine wp_saveCustomer Pending.nil hc rfl fun lk₂ d₂ hlk₂ hrely₂ hp₂ ↦ ?_
  refine wp_commit (fun d₃ hrely₃ ↦ Or.inr ?_) fun _ _ _ _ ↦ rfl
  have hc₃ := (((hc.stable hrely₂).mono hlk₂).stable hrely₃)
  refine ⟨_, (hp₂.stable (List.Subset.refl _) hrely₃).commit rfl
    (fun _ who h ↦ (hwho who h).elim) (fun hS ↦ ?_) (.limit hc₃ hid)⟩
  exact hrely₃.unused hS (hrely₂.unused hS (hrely₁.unused hS (hunused hS)))

/-! ## Statements of a session that is not tracked -/

/-- Of a statement of an untracked session only its answer and its writes matter. -/
theorem wp_untracked {o : Sql} {k : o.Ans → Script Answer} (hS : ¬S.quiet)
    (h : ∀ d' r ws', Rely S req env lk d d' → S.allow req env o (postgres.view ws d') →
      o.exec (postgres.view ws d') = .ok (r, ws') →
        postgres.wp (contract S req env) (k r) (ws ++ ws')
          (lk ++ o.locks (postgres.view ws d')) d') :
    postgres.wp (contract S req env) (.stmt o k) ws lk d :=
  fun d' hrely hallow r ws' hexec ↦ ⟨fun hquiet ↦ (hS hquiet).elim, h d' r ws' hrely hallow hexec⟩

/-- A read whose answer is only checked. -/
theorem wp_rejectDuplicate {value : Option String} {find : String → Script (Option Customer)}
    {message : String} {f : Unit → Script Answer}
    (hfind : ∀ v (k : Option Customer → Script Answer),
      (∀ r d', Rely S req env [] d d' → postgres.wp (contract S req env) (k r) [] [] d') →
        postgres.wp (contract S req env) (find v >>= k) [] [] d)
    (h : ∀ d', Rely S req env [] d d' → postgres.wp (contract S req env) (f ()) [] [] d') :
    postgres.wp (contract S req env) (rejectDuplicate value find message >>= f) [] [] d := by
  cases value with
  | none => exact h d Rely.refl
  | some v =>
    simp only [rejectDuplicate, Prog.bind_assoc]
    refine hfind v _ fun r d' hrely ↦ ?_
    cases r with
    | none => exact h d' hrely
    | some c => trivial

section Edits

variable {mem : Customer}

/-- The immutable columns of the entity are those of a committed row. -/
def Based (mem : Customer) (d : Db) : Prop := mem.fixed ∈ d.customers.rows.map Customer.fixed

theorem Based.stable {d' : Db} (h : Based mem d) (hrely : Rely S req env lk d d') :
    Based mem d' :=
  hrely.customers.subset h

theorem Based.fixed_eq {reread : Customer} (h : Based mem d)
    (hread : d.customers.find mem.id = some reread) : mem.fixed = reread.fixed := by
  obtain ⟨c, hc, hfixed⟩ := List.mem_map.1 h
  have hid : c.id = mem.id := congrArg Prod.fst hfixed
  have hfind : d.customers.find mem.id = some c := Table.find_eq_some.2 ⟨hc, hid⟩
  obtain rfl : c = reread := Option.some.inj (hfind.symm.trans hread)
  exact hfixed.symm

/-- A save that commits on its own.  It compares `compared reread` with the row that it reads again,
where `mem` is the entity in memory. -/
def savedAlone (mem : Customer) (compared : Customer → Customer) (kept changed : Answer) :
    Script Answer :=
  .stmt (.rereadCustomer mem) fun row ↦ match row with
    | none => .fail .entityNotFound
    | some reread =>
        if compared reread = reread then .commit (.ret kept)
        else .stmt (.updateCustomer (compared reread) reread) fun _ ↦ .commit (.ret changed)

theorem saveCustomerAlone_bind (c : Customer) :
    (saveCustomerAlone c >>= fun a ↦ pure (Answer.customer a)) =
      savedAlone c (fun _ ↦ c) (.customer c) (.customer c) := by
  simp only [saveCustomerAlone, saveCustomer, saveEntity_bind, query, Prog.issue_bind,
    Prog.stmt_bind]
  refine congrArg (Prog.stmt (Sql.rereadCustomer c)) (funext fun row ↦ ?_)
  cases row with
  | none => rfl
  | some reread => exact Prog.ite_bind _ _ _ _

theorem saveAssignedAlone_bind (c : AssignedCustomer) :
    (saveAssignedAlone c >>= fun a ↦ pure (Answer.edited a)) =
      savedAlone c.loaded c.compared (.edited c) (.edited c.updated) := by
  simp only [saveAssignedAlone, query, Prog.issue_bind, Prog.stmt_bind]
  refine congrArg (Prog.stmt (Sql.rereadCustomer c.loaded)) (funext fun row ↦ ?_)
  cases row with
  | none => rfl
  | some reread => exact Prog.ite_bind _ _ _ _

/-- The update of an entity that has the immutable columns of the row that was read again. -/
theorem commit_edit {reread : Customer} (hS : ¬S.quiet)
    (hwho : req.editedId = some (mem.tenant_id, mem.id)) (hunused : S.fresh → env.Unused d)
    (hmem : Based mem d) (hfixed : mem.fixed = reread.fixed)
    (hmoney : S.exclusive ∨ S.editsFresh → mem.balance_cents = reread.balance_cents ∧
      mem.credit_limit_cents = reread.credit_limit_cents) :
    Commit S req env lk d (postgres.view [.updateCustomer mem reread] d) { Effect.none with
      customer := fun x ↦ if x.id = mem.id then Customer.saved mem reread x else x } := by
  refine ⟨⟨?_, ?_, ?_⟩, ⟨List.nodup_nil, fun _ h ↦ (List.not_mem_nil h).elim, List.nodup_nil,
    fun _ h ↦ (List.not_mem_nil h).elim⟩, fun _ h ↦ (List.not_mem_nil h).elim,
    fun _ h ↦ (List.not_mem_nil h).elim, fun _ h ↦ (List.not_mem_nil h).elim,
    fun h ↦ (hS h).elim, hunused, ?_⟩
  · simp [Effect.none, Write.apply]
  · simp only [Engine.view_cons, Engine.view_nil, postgres_write, Write.apply,
      Table.rows_modify, Effect.none, List.append_nil, Customer.key_eq]
    exact List.map_congr_left fun x _ ↦ if_ctx_congr Iff.rfl (fun _ ↦ if_pos rfl) fun _ ↦ rfl
  · simp [Effect.none, Write.apply]
  · obtain ⟨c, hc, heq⟩ := List.mem_map.1 hmem
    exact .edit (Request.isEdit_of_editedId hwho) (congrArg (·.1) hfixed) (congrArg (·.2.1) hfixed)
      (congrArg (·.2.2) hfixed) hmoney hwho
      ⟨c, hc, congrArg (·.1) heq, congrArg (·.2.1) heq⟩

/-- What a save keeps of the entity in memory. -/
structure KeepsMoney (mem : Customer) (compared : Customer → Customer) : Prop where
  fixed : ∀ reread, (compared reread).fixed = mem.fixed
  balance : ∀ reread, (compared reread).balance_cents = mem.balance_cents
  limit : ∀ reread, (compared reread).credit_limit_cents = mem.credit_limit_cents

theorem wp_savedAlone {compared : Customer → Customer} {kept changed : Answer} (hS : ¬S.quiet)
    (hwho : req.editedId = some (mem.tenant_id, mem.id)) (hunused : S.fresh → env.Unused d)
    (hmem : Based mem d) (hkeeps : KeepsMoney mem compared)
    (hexclusive : S.exclusive → ∀ c ∈ d.customers.find mem.id,
      mem.balance_cents = c.balance_cents ∧ mem.credit_limit_cents = c.credit_limit_cents)
    (hanswer : ∀ d', req.transactionKey = none →
      Answered S req env kept d' ∧ Answered S req env changed d') :
    postgres.wp (contract S req env) (savedAlone mem compared kept changed) [] [] d := by
  have hedit := Request.isEdit_of_editedId hwho
  have hkey := Request.transactionKey_of_isEdit hedit
  refine wp_untracked hS fun d₁ r ws₁ hrely₁ hallow hexec ↦ ?_
  obtain ⟨rfl, rfl⟩ : d₁.customers.find mem.id = r ∧ [] = ws₁ := by simpa [Sql.exec] using hexec
  cases hfind : d₁.customers.find mem.id with
  | none => trivial
  | some reread =>
    have hfixed := (hkeeps.fixed reread).trans ((hmem.stable hrely₁).fixed_eq hfind)
    have hmoney : S.exclusive ∨ S.editsFresh →
        (compared reread).balance_cents = reread.balance_cents ∧
          (compared reread).credit_limit_cents = reread.credit_limit_cents := by
      rw [hkeeps.balance, hkeeps.limit]
      rintro (h | h)
      · exact hexclusive h reread (hrely₁.exclusive h ▸ hfind)
      · obtain ⟨hbalance, hlimit⟩ := hallow h hedit reread hfind
        exact ⟨hbalance.symm, hlimit.symm⟩
    have hbased : ∀ {d'}, Rely S req env [] d₁ d' → Based (compared reread) d' := by
      intro d' hrely
      rw [Based, hkeeps.fixed reread]
      exact (hmem.stable hrely₁).stable hrely
    have hwritten : req.editedId = some ((compared reread).tenant_id, (compared reread).id) := by
      rw [hwho, show mem.tenant_id = (compared reread).tenant_id from
        congrArg (·.2.1) (hkeeps.fixed reread).symm, show mem.id = (compared reread).id from
        congrArg (·.1) (hkeeps.fixed reread).symm]
    simp only
    by_cases heq : compared reread = reread
    · rw [if_pos heq]
      exact wp_commit (fun _ _ ↦ Or.inl ⟨rfl, Or.inr (Or.inr hedit)⟩) fun _ d' _ _ ↦
        (hanswer d' hkey).1
    · rw [if_neg heq]
      refine wp_untracked hS fun d₂ r₂ ws₂ hrely₂ _ hexec₂ ↦ ?_
      obtain ⟨-, rfl⟩ := Sql.writing_eq_ok hexec₂
      refine wp_commit (fun d₃ hrely₃ ↦ ?_) fun _ d' _ _ ↦ (hanswer d' hkey).2
      have hrely : Rely S req env [] d₁ d₃ := hrely₂.trans (hrely₃.mono (List.nil_subset _))
      exact Or.inr ⟨_, commit_edit hS hwritten
        (fun h ↦ hrely.unused h (hrely₁.unused h (hunused h))) (hbased hrely) hfixed hmoney⟩

/-- An edit that keeps the immutable columns, the balance and the limit of what it loaded. -/
theorem wp_saveEdited {c : Customer} {compared : Customer → Customer} {kept changed : Answer}
    {d' : Db} (hS : ¬S.quiet) (hwho : req.editedId = some (c.tenant_id, c.id))
    (hunused : S.fresh → env.Unused d) (hfind : d.customers.find c.id = some c)
    (hfixed : mem.fixed = c.fixed)
    (hmoney : mem.balance_cents = c.balance_cents ∧ mem.credit_limit_cents = c.credit_limit_cents)
    (hkeeps : KeepsMoney mem compared) (hrely : Rely S req env [] d d')
    (hanswer : ∀ d', req.transactionKey = none →
      Answered S req env kept d' ∧ Answered S req env changed d') :
    postgres.wp (contract S req env) (savedAlone mem compared kept changed) [] [] d' := by
  have hid : mem.id = c.id := congrArg Prod.fst hfixed
  have htenant : mem.tenant_id = c.tenant_id := congrArg (·.2.1) hfixed
  refine wp_savedAlone hS (by rw [hwho, hid, htenant]) (fun h ↦ hrely.unused h (hunused h)) ?_ hkeeps
    (fun h c' hc' ↦ ?_) hanswer
  · refine hrely.customers.subset (List.mem_map.2 ⟨c, (Table.find_eq_some.1 hfind).1, ?_⟩)
    exact hfixed.symm
  · rw [hrely.exclusive h, hid, hfind] at hc'
    obtain rfl := Option.some.inj hc'
    exact hmoney

/-- An edit loads its customer first. -/
theorem wp_findCustomerOrFail {f : Customer → Script Answer} (hS : ¬S.quiet)
    (h : ∀ c d', Rely S req env [] d d' → d'.customers.find c.id = some c →
      (tenantId, customerId) = (c.tenant_id, c.id) →
        postgres.wp (contract S req env) (f c) [] [] d') :
    postgres.wp (contract S req env) (findCustomerOrFail tenantId customerId >>= f) [] [] d := by
  simp only [findCustomerOrFail, query, Prog.issue_bind, Prog.stmt_bind]
  refine wp_untracked hS fun d₁ r ws₁ hrely₁ _ hexec ↦ ?_
  obtain ⟨rfl, rfl⟩ : d₁.customer tenantId customerId = r ∧ [] = ws₁ := by
    simpa [Sql.exec] using hexec
  cases hfound : d₁.customer tenantId customerId with
  | none => trivial
  | some c =>
    obtain ⟨hfind, htenant⟩ := Option.filter_eq_some_iff.1 hfound
    obtain rfl : c.id = customerId := (Table.find_eq_some.1 hfind).2
    exact h c d₁ hrely₁ hfind (by rw [← of_decide_eq_true htenant])

end Edits

theorem toggleBlock_wp (hunused : S.fresh → env.Unused d) (hS : ¬S.quiet) :
    postgres.wp (contract S (.toggleBlock tenantId customerId) env)
      ((Request.toggleBlock tenantId customerId).script env) [] [] d := by
  simp only [Request.script, Services.toggleBlock, Prog.bind_assoc]
  refine wp_findCustomerOrFail hS fun c d₁ hrely₁ hfind hwho ↦ ?_
  rw [saveCustomerAlone_bind]
  exact wp_saveEdited hS (congrArg some hwho) (fun h ↦ hrely₁.unused h (hunused h)) hfind rfl
    ⟨rfl, rfl⟩ ⟨fun _ ↦ rfl, fun _ ↦ rfl, fun _ ↦ rfl⟩ Rely.refl fun _ h ↦ ⟨h, h⟩

theorem updatePromise_wp {dto : UpdatePromiseDto} (hunused : S.fresh → env.Unused d)
    (hS : ¬S.quiet) :
    postgres.wp (contract S (.updatePromise tenantId customerId dto) env)
      ((Request.updatePromise tenantId customerId dto).script env) [] [] d := by
  simp only [Request.script, Services.updatePromise, Prog.bind_assoc]
  refine wp_findCustomerOrFail hS fun c d₁ hrely₁ hfind hwho ↦ ?_
  rw [saveCustomerAlone_bind]
  exact wp_saveEdited hS (congrArg some hwho) (fun h ↦ hrely₁.unused h (hunused h)) hfind rfl
    ⟨rfl, rfl⟩ ⟨fun _ ↦ rfl, fun _ ↦ rfl, fun _ ↦ rfl⟩ Rely.refl fun _ h ↦ ⟨h, h⟩

theorem updateCustomer_wp {dto : UpdateCustomerDto} (hunused : S.fresh → env.Unused d)
    (hS : ¬S.quiet) :
    postgres.wp (contract S (.updateCustomer tenantId customerId dto) env)
      ((Request.updateCustomer tenantId customerId dto).script env) [] [] d := by
  simp only [Request.script, Services.updateCustomer, Prog.bind_assoc, query]
  refine wp_findCustomerOrFail hS fun c d₁ hrely₁ hfind hwho ↦ ?_
  refine wp_rejectDuplicate (fun v k hk ↦ ?_) fun d₂ hrely₂ ↦ ?_
  · refine wp_untracked hS fun d' r ws' hrely _ hexec ↦ ?_
    cases hexec
    exact hk _ d' hrely
  refine wp_rejectDuplicate (fun v k hk ↦ ?_) fun d₃ hrely₃ ↦ ?_
  · refine wp_untracked hS fun d' r ws' hrely _ hexec ↦ ?_
    cases hexec
    exact hk _ d' hrely
  refine wp_rejectDuplicate (fun v k hk ↦ ?_) fun d₄ hrely₄ ↦ ?_
  · refine wp_untracked hS fun d' r ws' hrely _ hexec ↦ ?_
    cases hexec
    exact hk _ d' hrely
  rw [Prog.ite_bind]
  split
  · trivial
  · rw [saveAssignedAlone_bind]
    exact wp_saveEdited hS (congrArg some hwho) (fun h ↦ hrely₁.unused h (hunused h)) hfind rfl
      ⟨rfl, rfl⟩ ⟨fun _ ↦ rfl, fun _ ↦ rfl, fun _ ↦ rfl⟩ (hrely₂.trans (hrely₃.trans hrely₄))
      fun _ h ↦ ⟨h, h⟩

/-! ## The creation of a customer -/

theorem insertCustomer_eq_ok {row : Customer} {v : Db} {r : Unit}
    (h : (Sql.insertCustomer row).exec v = .ok (r, ws)) : v.customers.find row.id = none ∧
      (∀ key ∈ row.idempotency_key, v.customerByKey row.tenant_id key = none) ∧
        ws = [.insertCustomer row] := by
  simp only [Sql.exec] at h
  split at h
  · cases h
  · rename_i hfree
    obtain ⟨-, rfl⟩ := Sql.writing_eq_ok h
    simp only [not_or, Bool.not_eq_true, Option.isSome_eq_false_iff, Option.isNone_iff_eq_none,
      Option.bind_eq_none_iff] at hfree
    exact ⟨hfree.1, hfree.2, rfl⟩

/-- The insert of a customer and its commit. -/
theorem wp_insertCustomer {dto : CreateCustomerDto} (hS : ¬S.quiet)
    (hunused : S.fresh → env.Unused d) :
    postgres.wp (contract S (.createCustomer tenantId dto) env)
      (.stmt (.insertCustomer (newCustomer env tenantId dto)) fun _ ↦
        .stmt (.keyShare [.tenant tenantId]) fun _ ↦
          .commit (.ret (.customer (newCustomer env tenantId dto)))) [] [] d := by
  set row := newCustomer env tenantId dto
  refine wp_untracked hS fun d₁ r ws₁ hrely₁ _ hexec ↦ ?_
  obtain ⟨hid, hkey, rfl⟩ := insertCustomer_eq_ok hexec
  set lk₁ := [] ++ Sql.locks (.insertCustomer row) (postgres.view [] d₁) with hlk₁
  refine wp_untracked hS fun d₂ r₂ ws₂ hrely₂ _ hexec₂ ↦ ?_
  cases hexec₂
  refine wp_commit (fun d₃ hrely₃ ↦ Or.inr ⟨{ Effect.none with customers := [row] }, ?_⟩)
    fun _ _ _ _ ↦ rfl
  have hrely := hrely₂.trans (hrely₃.mono (List.subset_append_left _ _))
  have hslots : (.customer row.id, .update) ∈ lk₁ ∧ ∀ key ∈ row.idempotency_key,
      (.customerKey row.tenant_id key, .update) ∈ lk₁ := by
    refine ⟨by simp [hlk₁, Sql.locks], fun key hkey ↦ ?_⟩
    simp [hlk₁, Sql.locks, Option.mem_def.1 hkey]
  have hfree : d₃.customers.find row.id = none :=
    (hrely.customer _ _ hslots.1 (by decide)).trans hid
  refine ⟨⟨?_, ?_, ?_⟩, ⟨List.nodup_nil, fun _ h ↦ (List.not_mem_nil h).elim, List.nodup_nil,
    fun _ h ↦ (List.not_mem_nil h).elim⟩, fun _ h ↦ (List.not_mem_nil h).elim,
    fun _ h ↦ (List.not_mem_nil h).elim, fun c hc key hckey ↦ ?_, fun h ↦ (hS h).elim,
    fun h ↦ hrely.unused h (hrely₁.unused h (hunused h)), .create⟩
  · simp [Effect.none, Write.apply]
  · simp [Effect.none, Write.apply, Table.rows_insert_of_fresh hfree]
  · simp [Effect.none, Write.apply]
  · obtain rfl := List.mem_singleton.1 hc
    exact ⟨List.mem_append_left _ (hslots.2 key hckey),
      hrely.customerKey _ _ (hslots.2 key hckey) (hkey key hckey)⟩

/-- A creation whose key was not found. -/
theorem wp_createNew {dto : CreateCustomerDto} (hS : ¬S.quiet) (hunused : S.fresh → env.Unused d) :
    postgres.wp (contract S (.createCustomer tenantId dto) env)
      (rejectDuplicate (truthy dto.phone)
          (fun phone ↦ query (.findCustomerByPhone tenantId none phone))
          "Ya existe un cliente con ese teléfono en tu comercio" >>= fun _ ↦
        rejectDuplicate (truthy dto.dni)
            (fun dni ↦ query (.findCustomerByDni tenantId none dni))
            "Ya existe un cliente con ese DNI en tu comercio" >>= fun _ ↦
          .stmt (.insertCustomer (newCustomer env tenantId dto)) fun _ ↦
            .stmt (.keyShare [.tenant tenantId]) fun _ ↦
              .commit (.ret (.customer (newCustomer env tenantId dto)))) [] [] d := by
  refine wp_rejectDuplicate (fun v k hk ↦ ?_) fun d₁ hrely₁ ↦ ?_
  · refine wp_untracked hS fun d' r ws' hrely _ hexec ↦ ?_
    cases hexec
    exact hk _ d' hrely
  refine wp_rejectDuplicate (fun v k hk ↦ ?_) fun d₂ hrely₂ ↦ ?_
  · refine wp_untracked hS fun d' r ws' hrely _ hexec ↦ ?_
    cases hexec
    exact hk _ d' hrely
  exact wp_insertCustomer hS fun h ↦ hrely₂.unused h (hrely₁.unused h (hunused h))

theorem createCustomer_wp {dto : CreateCustomerDto} (hunused : S.fresh → env.Unused d)
    (hS : ¬S.quiet) :
    postgres.wp (contract S (.createCustomer tenantId dto) env)
      ((Request.createCustomer tenantId dto).script env) [] [] d := by
  simp only [Request.script, Services.createCustomer, query]
  cases dto.idempotency_key with
  | none =>
    simp only [Prog.pure_eq_ret, Prog.ret_bind, Prog.bind_assoc, Prog.issue_bind,
      Prog.commitTransaction_bind, Prog.stmt_bind, Prog.commit_bind]
    exact wp_createNew hS hunused
  | some key =>
    simp only [Prog.issue_bind, Prog.stmt_bind]
    refine wp_untracked hS fun d₁ r ws₁ hrely₁ _ hexec ↦ ?_
    obtain ⟨rfl, rfl⟩ : d₁.customerByKey tenantId key = r ∧ [] = ws₁ := by
      simpa [Sql.exec] using hexec
    cases d₁.customerByKey tenantId key with
    | some existing => exact fun _ _ ↦ rfl
    | none =>
      simp only [Prog.pure_eq_ret, Prog.ret_bind, Prog.bind_assoc, Prog.commitTransaction_bind,
        Prog.stmt_bind, Prog.commit_bind]
      exact wp_createNew hS fun h ↦ hrely₁.unused h (hunused h)

end MicroErp.Commits
