import MicroErp.Commits.Runs

/-!
# A replay is transparent

After a success the ledger keeps what was answered, whatever is served later.  So the same request
finds its key and is answered with the same rows, and nothing changes.
-/

namespace MicroErp.Guarantees

open MicroErp.Commits MicroErp.Concurrency MicroErp.Database MicroErp.Services MicroErp.Storage

/-- The second answer has the rows of the first one, as far as rows are immutable. -/
def SameAnswer : Answer → Answer → Prop
  | .transaction t, .transaction t' => t'.toCore = t.toCore
  | .mixed rows, .mixed rows' =>
      rows'.cash.toCore = rows.cash.toCore ∧ rows'.transfer.toCore = rows.transfer.toCore
  | .inflation result, .inflation result' => result' = result
  | _, _ => False

/-! ## The replay -/

section Replay

variable {S : Setting} {r : Request} {env : Env} {d : Db} {tenantId key : Uuid}

theorem alone_found {t : Transaction} {k : Option Transaction → Script Answer}
    (hfound : d.transactionByKey tenantId key = some t) :
    postgres.alone (.stmt (.findTransactionByKey tenantId key) k) [] d =
      postgres.alone (k (some t)) [] d := by
  rw [Engine.alone]
  simp only [postgres_exec, Sql.exec, Engine.view_nil, hfound, List.append_nil]

theorem alone_foundBatch {b : IdempotentBatchOperation}
    {k : Option IdempotentBatchOperation → Script Answer}
    (hfound : d.batchByKey tenantId key = some b) :
    postgres.alone (.stmt (.findBatch tenantId key) k) [] d =
      postgres.alone (k (some b)) [] d := by
  rw [Engine.alone]
  simp only [postgres_exec, Sql.exec, Engine.view_nil, hfound, List.append_nil]

theorem found_of_recorded (hwf : d.WellFormed) {t : Transaction} (h : Recorded r t d)
    (hslot : r.transactionKey = some (tenantId, key)) :
    ∃ t', d.transactionByKey tenantId key = some t' ∧ t'.toCore = t.toCore := by
  obtain ⟨hcore, hkey⟩ := h
  obtain ⟨htenant, hkey⟩ := Prod.mk.inj (Option.some.inj (hslot.symm.trans hkey))
  subst htenant hkey
  cases hfound : d.transactionByKey t.tenant_id t.idempotency_key with
  | none => exact (Db.transactionByKey_eq_none.1 hfound _ hcore ⟨rfl, rfl⟩).elim
  | some t' =>
    obtain ⟨hcore', htenant', hkey'⟩ := core_of_transactionByKey hfound
    exact ⟨t', rfl, eq_core_of_key hwf hcore' hcore htenant' hkey'⟩

theorem found_of_mixedCores (hwf : d.WellFormed) {rows : MixedPayment}
    (h : mixedCores d tenantId key = some (rows.cash.toCore, rows.transfer.toCore)) :
    ∃ t, d.transactionByKey tenantId key = some t ∧
      (replayedRows d t).cash.toCore = rows.cash.toCore ∧
        (replayedRows d t).transfer.toCore = rows.transfer.toCore := by
  cases hfound : d.transactionByKey tenantId key with
  | none =>
    rw [Db.transactionByKey_eq_none] at hfound
    have hnone : d.cores.find? (fun r ↦ r.tenant_id = tenantId ∧ r.idempotency_key = key) = none :=
      List.find?_eq_none.2 fun core hcore ↦ by simpa using hfound core hcore
    rw [mixedCores, hnone] at h
    cases h
  | some t =>
    obtain ⟨hcore, htenant, hkey⟩ := core_of_transactionByKey hfound
    rw [mixedCores_replayedRows hwf hcore htenant hkey] at h
    exact ⟨t, rfl, Prod.mk.inj (Option.some.inj h)⟩

theorem found_of_batch (hwf : d.WellFormed) {b : IdempotentBatchOperation}
    (hb : b ∈ d.batches.rows) : d.batchByKey b.tenant_id b.idempotency_key = some b := by
  cases hfound : d.batchByKey b.tenant_id b.idempotency_key with
  | none => exact (Db.batchByKey_eq_none.1 hfound b hb ⟨rfl, rfl⟩).elim
  | some b' =>
    have hkeys : b'.tenant_id = b.tenant_id ∧ b'.idempotency_key = b.idempotency_key := by
      simpa using List.find?_some hfound
    rw [List.inj_on_of_nodup_map hwf.batchKeys (List.mem_of_find?_eq_some hfound) hb
      (Prod.ext hkeys.1 hkeys.2)]

/-- What has been answered once is answered again and changes nothing. -/
theorem alone_replay (hwf : d.WellFormed) {a : Answer} (hS : S.fresh) {env₁ : Env} {d₀ d₁ : Db}
    (hkeyed : r.transactionKey.isSome ∨ r.batchKey.isSome)
    (hfirst : postgres.alone (r.script env₁) [] d₀ = (.ok a, d₁))
    (hanswered : Answered S r env₁ a d) :
    ∃ a', postgres.alone (r.script env) [] d = (.ok a', d) ∧ SameAnswer a a' := by
  cases r with
  | registerDebt | registerPayment | reverseTransaction | forgiveDebt =>
    obtain ⟨t, rfl⟩ := Engine.alone_bind_pure _ hfirst
    obtain ⟨t', hfound, hcore⟩ := found_of_recorded hwf hanswered.1 rfl
    exact ⟨.transaction t', alone_found hfound, hcore⟩
  | registerMixedPayment tenantId userId dto =>
    obtain ⟨rows, rfl⟩ := Engine.alone_bind_pure _ hfirst
    obtain ⟨⟨slot, hslot, hcores⟩, -⟩ := hanswered hS
    obtain rfl := Option.some.inj hslot
    obtain ⟨t, hfound, hcash, htransfer⟩ := found_of_mixedCores hwf hcores
    have hsum : ¬dto.cash_amount_cents + dto.transfer_amount_cents ≠ dto.total_amount_cents := by
      intro hne
      simp only [Request.script, registerMixedPayment, if_pos hne] at hfirst
      cases congrArg Prod.fst hfirst
    refine ⟨.mixed (replayedRows d t), ?_, hcash, htransfer⟩
    simp only [Request.script, registerMixedPayment, if_neg hsum]
    exact (alone_found hfound).trans (alone_replayMixedPayment d t)
  | applyInflationAdjustment tenantId userId dto =>
    obtain ⟨result, rfl⟩ := Engine.alone_bind_pure _ hfirst
    obtain ⟨b, hb, hslot, rfl⟩ := hanswered
    obtain ⟨htenant, hkey⟩ := Prod.mk.inj (Option.some.inj hslot)
    have hfound := found_of_batch hwf hb
    rw [← htenant, ← hkey] at hfound
    exact ⟨_, alone_foundBatch hfound, rfl⟩
  | _ => rcases hkeyed with h | h <;> cases h

end Replay

/-! ## Later runs -/

section Runs

variable {ι : Type} [DecidableEq ι] {r : Request} {env₁ : Env} {req : ι → Request} {env : ι → Env}
  {d d₁ : Db} {a : Answer}

/-- The sessions of a later run, and the request before it. -/
theorem rely_later (hids : FreshIds (fun o : Option ι ↦ o.elim r req) fun o ↦ o.elim env₁ env)
    (hunused : ∀ i, (env i).Unused d₁) (hwf : d₁.WellFormed) (es : List (Event ι)) :
    Rely .plain r env₁ [] d₁ (postgres.run (serve req env d₁) es).db := by
  have hids' : FreshIds req env :=
    ⟨fun i j m n heq ↦ by simpa using hids.distinct (some i) (some j) m n heq,
      fun i j ↦ hids.keys (some i) (some j)⟩
  obtain ⟨hC, hsound⟩ := sound_free (S := .plain) hids' hunused hwf id id rfl
  refine hsound.history hC (J := fun d _ ↦ Rely .plain r env₁ [] d₁ d)
    (.of_forall fun i ↦ allow_plain (req i) (env i)) Rely.refl ?_
  intro i lk ws d log hrely hguar hws
  rcases hguar with ⟨rfl, -⟩ | ⟨e, hcommit⟩
  · exact hrely
  · have hapart : Apart .plain r env₁ (req i) (env i) :=
      apart_of_freshIds (i := none) (j := some i) hids id id rfl (by simp)
    exact hrely.trans (hcommit.rely_other hapart hws fun _ _ _ h ↦ (List.not_mem_nil h).elim)

/-- After a success, and after any run of any requests, the same request is answered with the same
rows and changes nothing. -/
theorem replay_transparent (hd : Reachable d)
    (hids : FreshIds (fun o : Option ι ↦ o.elim r req) fun o ↦ o.elim env₁ env)
    (hunused : ∀ o : Option ι, (o.elim env₁ env).Unused d)
    (hkeyed : r.transactionKey.isSome ∨ r.batchKey.isSome)
    (hfirst : postgres.alone (r.script env₁) [] d = (.ok a, d₁)) (es : List (Event ι))
    (env₂ : Env) :
    let d₂ := (postgres.run (serve req env d₁) es).db
    ∃ a', postgres.alone (r.script env₂) [] d₂ = (.ok a', d₂) ∧ SameAnswer a a' := by
  have hwf := wellFormed_of_reachable hd
  obtain ⟨hwf₁, hothers⟩ := unused_alone (i := none) hids hwf (hunused none) hfirst
  have hrely := rely_later hids (fun i ↦ hothers (some i) (by simp) (hunused (some i))) hwf₁ es
  have hsuits : Suits .plain r env₁ d :=
    ⟨fun _ ↦ hunused none, fun _ ↦ hwf, False.elim, False.elim, False.elim, fun _ h ↦ by cases h⟩
  have hanswered := (alone_contract hsuits (allow_plain _ _) hfirst).2 a rfl _ hrely
  exact alone_replay (hrely.wellFormed trivial hwf₁) trivial hkeyed hfirst hanswered

end Runs

/-! ## A debt repeated after its customer is blocked -/

def repeated : Request := .registerDebt 1 2 (debtOf100 100 13)

/-- The database after the first call. -/
def indebted : Db := (postgres.alone (repeated.script (sampleEnv 10)) [] owing).2

def blocked (_ : Fin 1) : Request := .toggleBlock 1 100

def blockedEnv (i : Fin 1) : Env := sampleEnv (11 + i)

theorem freshIds_repeated : FreshIds (fun o : Option (Fin 1) ↦ o.elim repeated blocked)
    fun o ↦ o.elim (sampleEnv 10) blockedEnv := by
  have henv : (fun o : Option (Fin 1) ↦ o.elim (sampleEnv 10) blockedEnv) =
      fun o : Option (Fin 1) ↦ sampleEnv (o.elim 10 fun i ↦ 11 + i) := by
    funext o
    cases o <;> rfl
  rw [henv]
  exact freshIds_sample (by decide) (by decide) (by decide)

theorem unused_repeated (o : Option (Fin 1)) :
    (o.elim (sampleEnv 10) blockedEnv).Unused owing := by
  cases o with
  | none => exact unused_owing (k := 2) (by decide) 0
  | some i =>
    obtain rfl : i = 0 := Subsingleton.elim _ _
    exact unused_owing (k := 2) (by decide) 1

/-- A blocked customer gets no new debt, but the old one is answered again. -/
theorem replay_transparent_blocked :
    let d₂ := (postgres.run (serve blocked blockedEnv indebted) (turns 0 6)).db
    ∃ a', postgres.alone (repeated.script (sampleEnv 12)) [] d₂ = (.ok a', d₂) ∧
      SameAnswer (.transaction (debtRow (sampleEnv 10) 1 2 (debtOf100 100 13))) a' := by
  have hfirst : postgres.alone (repeated.script (sampleEnv 10)) [] owing =
      (.ok (.transaction (debtRow (sampleEnv 10) 1 2 (debtOf100 100 13))), indebted) :=
    Prod.ext (by decide +kernel) rfl
  exact replay_transparent reachable_owing freshIds_repeated unused_repeated (Or.inl rfl) hfirst
    (turns 0 6) (sampleEnv 12)

end MicroErp.Guarantees
