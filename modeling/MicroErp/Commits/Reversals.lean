import MicroErp.Commits.Rules

/-!
# A reversal meets its contract

The reversal reads its transaction before it locks the customer and saves the whole entity at the
end.  `Loaded` is what it still knows of the transaction in between.
-/

namespace MicroErp.Commits

open MicroErp.Concurrency MicroErp.Database MicroErp.Services MicroErp.Storage

variable {S : Setting} {req : Request} {env : Env} {d d' : Db} {tenantId userId : Uuid}
  {lk : List (LockName × LockMode)} {ws : List Write} {e : Effect}

/-! ## The save of a loaded transaction -/

/-- What `save` writes of a transaction whose row it read again. -/
def savedTransaction (mem reread : Transaction) : List Write :=
  if mem = reread then [] else [.updateTransaction mem reread]

theorem Transaction.saved_same (mem t : Transaction) : Transaction.saved mem mem t = t := by
  simp only [Transaction.saved, savedColumn_self]

/-- Saving rewrites the present row and leaves the pending ones alone. -/
theorem Effect.Yields.savedTransaction {v : Db} (h : e.Yields d v) (mem reread : Transaction)
    (htweak : e.tweak = id) (hrows : ∀ r ∈ e.rows, r.id ≠ mem.id) :
    ({ e with tweak := fun t ↦ if t.id = mem.id then Transaction.saved mem reread t else t } :
      Effect).Yields d (postgres.view (savedTransaction mem reread) v) := by
  have hold := h.transactions
  rw [htweak, List.map_id] at hold
  unfold Commits.savedTransaction
  split
  · rename_i heq
    refine ⟨?_, h.customers, h.batches⟩
    simp only [Engine.view_nil, hold, ← heq, Transaction.saved_same, ite_self, List.map_id']
  · refine ⟨?_, h.customers, h.batches⟩
    simp only [Engine.view_cons, Engine.view_nil, postgres_write, Write.apply, Table.rows_modify,
      hold, List.map_append, Transaction.key_eq]
    congr 1
    · exact List.map_congr_left fun t _ ↦ if_ctx_congr Iff.rfl (fun _ ↦ if_pos rfl) fun _ ↦ rfl
    · exact (List.map_congr_left fun r hr ↦ if_neg (hrows r hr)).trans (List.map_id _)

/-! ## The loaded transaction -/

/-- What a reversal knows of the transaction it loaded while it holds the customer. -/
structure Loaded (S : Setting) (req : Request) (original : Transaction) (d : Db) : Prop where
  core : original.toCore ∈ d.cores
  checked : S.checked → req.Checked original.customer_id d
  exact : S.exclusive ∨ S.quiet → original ∈ d.transactions.rows

theorem Loaded.stable {original : Transaction} (h : Loaded S req original d)
    (hlock : (.customer original.customer_id, .update) ∈ lk) (hrely : Rely S req env lk d d') :
    Loaded S req original d' where
  core := hrely.cores.subset h.core
  checked hS := checked_stable (h.checked hS) hS hlock hrely
  exact hS := by
    rcases hS with hS | hS
    · exact hrely.exclusive hS ▸ h.exact (Or.inl hS)
    · have hmem : original ∈ d.carrying original.customer_id := by
        simpa [Db.carrying] using h.exact (Or.inr hS)
      rw [← (hrely.quiet hS).carried _ hlock] at hmem
      exact List.mem_of_mem_filter hmem

/-- A transaction that is unreversed and of the same customer when the lock is taken is the one
that was read before, unless a shift closed. -/
theorem loaded_of_lock {transactionId : Uuid} {dto : ReverseTransactionDto}
    {original : Transaction}
    (hfound : d.transaction tenantId transactionId = some original)
    (hunreversed : original.is_reversed = false)
    (hstep : S.quiet → S.checked ∨ S.copiesOn.isSome)
    (hrely : Rely S (.reverseTransaction tenantId userId transactionId dto) env lk d d')
    (hallow : S.allow (.reverseTransaction tenantId userId transactionId dto) env
      (.lockCustomer tenantId original.customer_id) d') :
    Loaded S (.reverseTransaction tenantId userId transactionId dto) original d' := by
  obtain ⟨hfind, htenant⟩ := Option.filter_eq_some_iff.1 hfound
  obtain ⟨hmem, hid⟩ := Table.find_eq_some.1 hfind
  refine ⟨hrely.cores.subset (Db.mem_cores.2 ⟨original, hmem, rfl⟩), hallow.1, ?_⟩
  rintro (hS | hS)
  · exact hrely.exclusive hS ▸ hmem
  rcases hstep hS with hchecked | hcopies
  · obtain ⟨t, hfound', hreversed, hcustomer⟩ := hallow.1 hchecked
    obtain ⟨hmem', hid'⟩ := Table.find_eq_some.1 (Option.filter_eq_some_iff.1 hfound').1
    obtain ⟨t', ht', hcore, hshift⟩ := (hrely.quiet hS).shifts original hmem
    obtain rfl : t' = t :=
      Db.eq_of_id ht' hmem' ((congrArg (·.id) hcore).trans (hid.trans hid'.symm))
    have heq : t' = original := by
      cases t'
      cases original
      simp_all
    exact heq ▸ ht'
  · exact (hrely.quiet hS).copies hcopies (hallow.2 hcopies) ▸ hmem

/-- What the row that `save` reads again has in common with the loaded one. -/
structure Reread (S : Setting) (original reread : Transaction) (d : Db) : Prop where
  core : reread.toCore = original.toCore
  marks : reread.is_reversed = true → ∃ t ∈ d.transactions.rows, t.id = original.id ∧
    t.is_reversed = true
  checked : S.checked → reread.customer_id = original.customer_id ∧ reread.is_reversed = false
  saves : S.savesFresh → reread.customer_id = original.customer_id ∧
    reread.cash_register_log_id = original.cash_register_log_id
  exact : S.exclusive ∨ S.quiet → reread = original

theorem Reread.of_loaded {dto : ReverseTransactionDto} {original reread : Transaction}
    (h : Loaded S (.reverseTransaction tenantId userId original.id dto) original d)
    (hread : d.transactions.find original.id = some reread)
    (hsaves : S.savesFresh → reread.customer_id = original.customer_id ∧
      reread.cash_register_log_id = original.cash_register_log_id) :
    Reread S original reread d := by
  obtain ⟨hmem, hrid⟩ := Table.find_eq_some.1 hread
  obtain ⟨t, ht, hcore⟩ := Db.mem_cores.1 h.core
  obtain rfl : t = reread :=
    Db.eq_of_id ht hmem ((congrArg (·.id) hcore).trans hrid.symm)
  refine ⟨hcore, fun hmark ↦ ⟨t, hmem, hrid, hmark⟩, fun hS ↦ ?_, hsaves, fun hS ↦ Db.eq_of_id hmem (h.exact hS) hrid⟩
  obtain ⟨t', hfound, hreversed, hcustomer⟩ := h.checked hS
  obtain ⟨hmem', hid'⟩ := Table.find_eq_some.1 (Option.filter_eq_some_iff.1 hfound).1
  rw [Db.eq_of_id hmem hmem' (hrid.trans hid'.symm)]
  exact ⟨hcustomer, hreversed⟩

theorem Reread.stable {original reread : Transaction} (h : Reread S original reread d)
    (hrely : Rely S req env lk d d') : Reread S original reread d' where
  core := h.core
  marks hmark := by
    obtain ⟨t, ht, hid, hreversed⟩ := h.marks hmark
    obtain ⟨t', ht', hcore, hreversed'⟩ := hrely.reversed t ht hreversed
    exact ⟨t', ht', (congrArg (·.id) hcore).trans hid, hreversed'⟩
  checked := h.checked
  saves := h.saves
  exact := h.exact

/-! ## The end of a reversal -/

/-- A reversal whose row and whose balance are pending. -/
structure Reversing (S : Setting) (env : Env) (tenantId userId : Uuid) (dto : ReverseTransactionDto)
    (original : Transaction) (c : Customer) (ws : List Write)
    (lk : List (LockName × LockMode)) (d : Db) : Prop where
  tenant : original.tenant_id = tenantId
  unreversed : original.is_reversed = false
  customer : c.id = original.customer_id
  pinned : S.quiet → ∀ who, S.copiesOn = some who → c.id = who
  unused : S.fresh → env.Unused d
  holds : Holds d lk tenantId c
  loaded : Loaded S (.reverseTransaction tenantId userId original.id dto) original d
  pending : Pending S (.reverseTransaction tenantId userId original.id dto) env ws lk d
    (posting c [reversalRow env tenantId userId dto original]
      (balanceAfterReversal original.type original.amount_cents c.balance_cents))

namespace Reversing

variable {dto : ReverseTransactionDto} {original reread : Transaction} {c : Customer}
  {lk' : List (LockName × LockMode)}

theorem stable (h : Reversing S env tenantId userId dto original c ws lk d) (hlk : lk ⊆ lk')
    (hrely : Rely S (.reverseTransaction tenantId userId original.id dto) env lk d d') :
    Reversing S env tenantId userId dto original c ws lk' d' where
  tenant := h.tenant
  unreversed := h.unreversed
  customer := h.customer
  pinned := h.pinned
  unused hS := hrely.unused hS (h.unused hS)
  holds := (h.holds.stable hrely).mono hlk
  loaded := h.loaded.stable (h.customer ▸ h.holds.2.2) hrely
  pending := h.pending.stable hlk hrely

/-- What `save` reads again is the committed row, for the pending one has an id of its own. -/
theorem find (h : Reversing S env tenantId userId dto original c ws lk d) :
    ∃ t, d.transactions.find original.id = some t ∧
      (postgres.view ws d).transactions.find original.id = some t := by
  obtain ⟨t, ht, hcore⟩ := Db.mem_cores.1 h.loaded.core
  have hid : t.id = original.id := congrArg (·.id) hcore
  refine ⟨t, Table.find_eq_some.2 ⟨ht, hid⟩, Table.find_eq_some.2 ⟨?_, hid⟩⟩
  rw [(h.pending.yields d Rely.refl).transactions]
  exact List.mem_append_left _ (List.mem_map.2 ⟨t, ht, rfl⟩)

theorem commit (h : Reversing S env tenantId userId dto original c ws lk d)
    (hR : Reread S original reread d) :
    ∃ e, Commit S (.reverseTransaction tenantId userId original.id dto) env lk d
      (postgres.view (ws ++ savedTransaction { original with is_reversed := true } reread) d) e ∧
        e.rows = [reversalRow env tenantId userId dto original] := by
  have hp := h.pending
  have hrow : ∀ r ∈ [reversalRow env tenantId userId dto original], r.id ≠ original.id := by
    intro r hr hid
    obtain ⟨t, hfind, -⟩ := h.find
    have hfree := hp.vacant.id_free r hr
    rw [hid, hfind] at hfree
    cases hfree
  have hyields := (hp.yields d Rely.refl).savedTransaction
    { original with is_reversed := true } reread rfl hrow
  rw [← Engine.view_append] at hyields
  refine ⟨_, ⟨hyields, hp.vacant, hp.slots, fun _ h ↦ (List.not_mem_nil h).elim,
    fun _ h ↦ (List.not_mem_nil h).elim, fun hS who hwho ↦ h.pinned hS who hwho ▸ h.holds.2.2,
    h.unused, ?_⟩, rfl⟩
  refine .reverse rfl h.tenant h.unreversed h.holds h.customer (Db.mem_cores.1 h.loaded.core)
    hR.core (fun hS ↦ ⟨hR.checked hS, fun t ht hid ↦ ?_⟩) hR.saves
    (fun hS ↦ ⟨h.loaded.exact hS, hR.exact hS⟩) fun hmark t ht hid ↦ ?_
  case refine_2 =>
    obtain ⟨t', ht', hid', hreversed⟩ := hR.marks hmark
    rw [Db.eq_of_id ht ht' (hid.trans hid'.symm)]
    exact hreversed
  obtain ⟨t', hfound, hreversed, hsame⟩ := h.loaded.checked hS
  obtain ⟨ht', hid'⟩ := Table.find_eq_some.1 (Option.filter_eq_some_iff.1 hfound).1
  obtain rfl := Db.eq_of_id ht ht' (hid.trans hid'.symm)
  exact ⟨hsame, hreversed⟩

theorem wp_commit (h : Reversing S env tenantId userId dto original c ws lk d)
    (hR : Reread S original reread d) :
    postgres.wp (contract S (.reverseTransaction tenantId userId original.id dto) env)
      (.commit (.ret (Answer.transaction (reversalRow env tenantId userId dto original))))
      (ws ++ savedTransaction { original with is_reversed := true } reread) lk d := by
  refine Commits.wp_commit (fun d' hrely ↦ ?_) fun d' d'' hrely hrely' ↦ ?_
  · obtain ⟨e, hcommit, -⟩ := (h.stable (List.Subset.refl _) hrely).commit (hR.stable hrely)
    exact Or.inr ⟨e, hcommit⟩
  · obtain ⟨e, hcommit, hrows⟩ := (h.stable (List.Subset.refl _) hrely).commit (hR.stable hrely)
    refine ⟨hcommit.recorded (hrows ▸ List.mem_cons_self) rfl hrely', fun _ ↦ ⟨rfl, rfl⟩⟩

/-- The whole entity is saved, and the transaction commits. -/
theorem wp_save (h : Reversing S env tenantId userId dto original c ws lk d) :
    postgres.wp (contract S (.reverseTransaction tenantId userId original.id dto) env)
      (saveTransaction { original with is_reversed := true } >>= fun _ ↦
        .commit (.ret (Answer.transaction (reversalRow env tenantId userId dto original)))) ws lk d := by
  rw [saveTransaction, saveEntity_bind]
  intro d' hrely hallow r ws' hexec
  have h' := h.stable (List.Subset.refl _) hrely
  obtain ⟨reread, hfind, hview⟩ := h'.find
  obtain ⟨rfl, rfl⟩ : some reread = r ∧ [] = ws' := by
    simp only [postgres_exec, Sql.exec, Except.ok.injEq, Prod.mk.injEq] at hexec
    exact ⟨hview.symm.trans hexec.1, hexec.2⟩
  have hR : Reread S original reread d' := .of_loaded h'.loaded hfind fun hS ↦ hallow hS reread hview
  refine ⟨fun hS ↦ Engine.follows_of_exec fun d'' hrely' ↦ ?_, ?_⟩
  · -- a tracked reversal has the row itself in its hands
    have h'' := h'.stable (List.Subset.refl _) (Rely.mono (List.subset_append_left _ _) hrely')
    obtain ⟨t, hfind', hview'⟩ := h''.find
    obtain ⟨ht, hid⟩ := Table.find_eq_some.1 hfind'
    obtain rfl : t = original := Db.eq_of_id ht (h''.loaded.exact (Or.inr hS)) hid
    refine ⟨fun _ t' ht' ↦ ?_, ?_⟩
    · obtain rfl : t = t' := Option.some.inj (hview'.symm.trans ht')
      exact ⟨rfl, rfl⟩
    · simp only [postgres_exec, Sql.exec, hview', hR.exact (Or.inr hS)]
  · rw [List.append_nil]
    simp only [postgres_needs, Sql.locks, List.append_nil]
    set mem : Transaction := { original with is_reversed := true }
    set row := reversalRow env tenantId userId dto original
    change postgres.wp _ (if mem = reread then .commit (.ret (Answer.transaction row))
      else .stmt (.updateTransaction mem reread) fun _ ↦ .commit (.ret (Answer.transaction row))) ws lk d'
    by_cases heq : mem = reread
    · have hend := h'.wp_commit hR
      rw [savedTransaction, if_pos heq, List.append_nil] at hend
      rw [if_pos heq]
      exact hend
    · rw [if_neg heq]
      intro d₂ hrely₂ _ r₂ ws₂ hexec₂
      obtain ⟨hint, rfl⟩ := Sql.writing_eq_ok hexec₂
      refine ⟨fun _ ↦ Engine.follows_of_exec fun _ _ ↦ ⟨trivial, if_pos hint⟩, ?_⟩
      have hend := (h'.stable (List.subset_append_left _ (postgres.needs
        (.updateTransaction mem reread) (postgres.view ws d₂))) hrely₂).wp_commit (hR.stable hrely₂)
      rw [savedTransaction, if_neg heq] at hend
      exact hend

end Reversing

/-- The first read of a reversal: from then on it is in step with a run alone if it locks the
customer in time. -/
theorem wp_findTransaction {transactionId : Uuid} {dto : ReverseTransactionDto}
    {k : Option Transaction → Script Answer}
    (hstep : S.quiet → S.checked ∨ S.copiesOn.isSome)
    (hnone : ∃ err, k none = .fail err)
    (hreversed : ∀ t, t.is_reversed = true → ∃ err, k (some t) = .fail err)
    (hnext : ∀ t, t.is_reversed = false → ∀ d', postgres.ready
      (contract S (.reverseTransaction tenantId userId transactionId dto) env) (k (some t)) [] d' →
        S.allow (.reverseTransaction tenantId userId transactionId dto) env
          (.lockCustomer tenantId t.customer_id) d')
    (hsome : ∀ t d', Rely S (.reverseTransaction tenantId userId transactionId dto) env [] d d' →
      S.allow (.reverseTransaction tenantId userId transactionId dto) env
        (.findTransaction tenantId transactionId) d' →
      d'.transaction tenantId transactionId = some t → t.is_reversed = false →
      postgres.wp (contract S (.reverseTransaction tenantId userId transactionId dto) env)
        (k (some t)) [] [] d') :
    postgres.wp (contract S (.reverseTransaction tenantId userId transactionId dto) env)
      (.stmt (.findTransaction tenantId transactionId) k) [] [] d := by
  intro d' hrely hallow r ws hexec
  obtain ⟨rfl, rfl⟩ : d'.transaction tenantId transactionId = r ∧ [] = ws := by
    simpa [Sql.exec] using hexec
  cases hfound : d'.transaction tenantId transactionId with
  | none =>
    obtain ⟨err, herr⟩ := hnone
    rw [herr]
    exact ⟨fun _ ↦ Or.inl ⟨.error err, by rw [herr]; rfl⟩, trivial⟩
  | some t =>
    cases hflag : t.is_reversed with
    | true =>
      obtain ⟨err, herr⟩ := hreversed t hflag
      rw [herr]
      exact ⟨fun _ ↦ Or.inl ⟨.error err, by rw [herr]; rfl⟩, trivial⟩
    | false =>
      refine ⟨fun hS ↦ Or.inr fun d'' hrely' hready ↦ ?_, hsome t d' hrely hallow hfound hflag⟩
      have hlock := hnext t hflag d'' hready
      have hloaded := loaded_of_lock hfound hflag hstep hrely' hlock
      obtain ⟨hfind, htenant⟩ := Option.filter_eq_some_iff.1 hfound
      obtain rfl : t.id = transactionId := (Table.find_eq_some.1 hfind).2
      have hfound' : d''.transaction tenantId t.id = some t :=
        Option.filter_eq_some_iff.2
          ⟨Table.find_eq_some.2 ⟨hloaded.exact (Or.inr hS), rfl⟩, htenant⟩
      refine ⟨hlock.2, ?_⟩
      rw [Engine.alone]
      simp only [postgres_exec, Sql.exec, Engine.view_nil, hfound', List.append_nil]

theorem reverseTransaction_wp {transactionId : Uuid} {dto : ReverseTransactionDto}
    (hunused : S.fresh → env.Unused d) (hstep : S.quiet → S.checked ∨ S.copiesOn.isSome)
    (hwho : ∀ who, S.copiesOn = some who →
      (Request.reverseTransaction tenantId userId transactionId dto).LocksOnly who d) :
    postgres.wp (contract S (.reverseTransaction tenantId userId transactionId dto) env)
      ((Request.reverseTransaction tenantId userId transactionId dto).script env) [] [] d := by
  simp only [Request.script, Services.reverseTransaction, findByIdempotencyKey, query,
    Prog.issue_bind, Prog.stmt_bind]
  refine wp_findByKey_replay .transaction rfl (fun hS d' hready ↦ hready hS) (fun t ↦ rfl)
    (fun t d' hS h ↦ ⟨h, fun h' ↦ (hS h').elim⟩) fun d₁ hrely₁ _ ↦ ?_
  refine wp_findTransaction hstep ⟨_, rfl⟩ (fun t ht ↦ ⟨_, by simp only [ht, if_true]; rfl⟩)
    (fun t ht d' hready ↦ ?_) fun original d₂ hrely₂ hallow₂ hfound hunreversed ↦ ?_
  · simp only [ht, Bool.false_eq_true, if_false] at hready
    exact hready
  simp only [hunreversed, Bool.false_eq_true, if_false, Services.lockCustomer, query,
    Prog.issue_bind, Prog.stmt_bind, Prog.bind_eq, Prog.bind_assoc]
  have hrely := hrely₁.trans hrely₂
  obtain ⟨hfind, htenant⟩ := Option.filter_eq_some_iff.1 hfound
  obtain rfl : original.id = transactionId := (Table.find_eq_some.1 hfind).2
  have hpinned : S.quiet → ∀ who, S.copiesOn = some who → original.customer_id = who := by
    intro hS who hcopies
    have hsome : S.copiesOn.isSome := by rw [hcopies]; rfl
    obtain rfl := (hrely.quiet hS).copies hsome (hallow₂ hsome)
    exact hwho who hcopies original hfound
  refine wp_lockCustomer hpinned ⟨_, rfl⟩ fun c d₃ hrely₃ hallow₃ hid hc ↦ ?_
  simp only [Prog.pure_eq_ret, Prog.ret_bind, Prog.commitTransaction_bind]
  have hloaded := loaded_of_lock hfound hunreversed hstep hrely₃ hallow₃
  refine wp_insertTransaction Pending.nil fun lk₁ d₄ hlk₁ hrely₄ hp₁ ↦ ?_
  have hc₁ := (hc.stable hrely₄).mono hlk₁
  refine wp_saveCustomer hp₁ hc₁ rfl fun lk₂ d₅ hlk₂ hrely₅ hp₂ ↦ ?_
  have hrely₃₅ := hrely₄.trans (hrely₅.mono hlk₁)
  refine Reversing.wp_save ⟨by simpa using htenant, hunreversed, hid,
    fun hS who hwho ↦ hid.trans (hpinned hS who hwho), fun hS ↦ ?_,
    (hc₁.stable hrely₅).mono hlk₂, hloaded.stable (hid ▸ hc.2.2) hrely₃₅, hp₂⟩
  exact hrely₃₅.unused hS (hrely₃.unused hS (hrely.unused hS (hunused hS)))

end MicroErp.Commits
