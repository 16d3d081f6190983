import MicroErp.Commits.Answers
import MicroErp.Commits.Rules

/-!
# The operations on the ledger meet their contract
-/

namespace MicroErp.Commits

open MicroErp.Concurrency MicroErp.Database MicroErp.Services MicroErp.Storage

variable {S : Setting} {env : Env} {d : Db} {tenantId userId : Uuid}

theorem registerDebt_wp {dto : CreateTransactionDto} (hunused : S.fresh → env.Unused d)
    (hwho : ∀ who, S.copiesOn = some who →
      (Request.registerDebt tenantId userId dto).LocksOnly who d) :
    postgres.wp (contract S (.registerDebt tenantId userId dto) env)
      ((Request.registerDebt tenantId userId dto).script env) [] [] d := by
  simp only [Request.script, Services.registerDebt, findByIdempotencyKey, query, Prog.issue_bind,
    Prog.stmt_bind]
  refine wp_findByKey_replay .transaction rfl (fun hS d' hready ↦ hready.2 hS) (fun t ↦ rfl)
    (fun t d' hS h ↦ ⟨h, fun h' ↦ (hS h').elim⟩) fun d₁ hrely₁ _ ↦ ?_
  simp only [Services.lockCustomer, query, Prog.issue_bind, Prog.stmt_bind, Prog.bind_assoc]
  refine wp_lockCustomer (fun _ who h ↦ hwho who h) ⟨_, rfl⟩ fun c d₂ hrely₂ _ hid hc ↦ ?_
  simp only [Prog.pure_eq_ret, Prog.ret_bind, Prog.ite_bind, Prog.fail_bind, Prog.bind_assoc,
    Prog.commitTransaction_bind, Prog.commit_bind]
  split
  · trivial
  split
  · trivial
  rename_i hactive hlimit
  exact wp_post hc rfl (.debt hid (by simpa using hactive) (by simpa using hlimit)) rfl ⟨rfl, rfl⟩
    (fun _ who h ↦ hid.trans (hwho who h))
    fun hS ↦ hrely₂.unused hS (hrely₁.unused hS (hunused hS))

theorem registerPayment_wp {dto : CreatePaymentDto} (hunused : S.fresh → env.Unused d)
    (hwho : ∀ who, S.copiesOn = some who →
      (Request.registerPayment tenantId userId dto).LocksOnly who d) :
    postgres.wp (contract S (.registerPayment tenantId userId dto) env)
      ((Request.registerPayment tenantId userId dto).script env) [] [] d := by
  simp only [Request.script, Services.registerPayment, findByIdempotencyKey, query,
    Prog.issue_bind, Prog.stmt_bind]
  refine wp_findByKey_replay .transaction rfl (fun hS d' hready ↦ hready.2 hS) (fun t ↦ rfl)
    (fun t d' hS h ↦ ⟨h, fun h' ↦ (hS h').elim⟩) fun d₁ hrely₁ _ ↦ ?_
  simp only [Services.lockCustomer, query, Prog.issue_bind, Prog.stmt_bind, Prog.bind_assoc]
  refine wp_lockCustomer (fun _ who h ↦ hwho who h) ⟨_, rfl⟩ fun c d₂ hrely₂ _ hid hc ↦ ?_
  simp only [Prog.pure_eq_ret, Prog.ret_bind, Prog.ite_bind, Prog.fail_bind, Prog.bind_assoc,
    Prog.commitTransaction_bind, Prog.commit_bind]
  split
  · trivial
  rename_i hpos
  exact wp_post hc rfl (.payment hid (by simpa using hpos)) rfl ⟨rfl, rfl⟩
    (fun _ who h ↦ hid.trans (hwho who h))
    fun hS ↦ hrely₂.unused hS (hrely₁.unused hS (hunused hS))

theorem forgiveDebt_wp {dto : ForgiveDebtDto} (hunused : S.fresh → env.Unused d)
    (hwho : ∀ who, S.copiesOn = some who →
      (Request.forgiveDebt tenantId userId dto).LocksOnly who d) :
    postgres.wp (contract S (.forgiveDebt tenantId userId dto) env)
      ((Request.forgiveDebt tenantId userId dto).script env) [] [] d := by
  simp only [Request.script, Services.forgiveDebt, findByIdempotencyKey, query, Prog.issue_bind,
    Prog.stmt_bind]
  refine wp_findByKey_replay .transaction rfl (fun hS d' hready ↦ hready.2 hS) (fun t ↦ rfl)
    (fun t d' hS h ↦ ⟨h, fun h' ↦ (hS h').elim⟩) fun d₁ hrely₁ _ ↦ ?_
  simp only [Services.lockCustomer, query, Prog.issue_bind, Prog.stmt_bind, Prog.bind_assoc]
  refine wp_lockCustomer (fun _ who h ↦ hwho who h) ⟨_, rfl⟩ fun c d₂ hrely₂ _ hid hc ↦ ?_
  simp only [Prog.pure_eq_ret, Prog.ret_bind, Prog.ite_bind, Prog.fail_bind, Prog.bind_assoc,
    Prog.commitTransaction_bind, Prog.commit_bind]
  split
  · trivial
  rename_i hpos
  exact wp_post hc rfl (.forgiveness hid (by simpa using hpos)) rfl ⟨rfl, rfl⟩
    (fun _ who h ↦ hid.trans (hwho who h))
    fun hS ↦ hrely₂.unused hS (hrely₁.unused hS (hunused hS))

/-! ## Mixed payments -/

/-- What a replay answered stays what the ledger records under the key. -/
theorem answered_replayedRows {req : Request} {key : Uuid} {t : Transaction} {d' : Db}
    {lk : List (LockName × LockMode)} (hkey : req.transactionKey = some (tenantId, key))
    (hS : ¬S.keyUnused env) (hwf : S.fresh → d.WellFormed) (hcore : t.toCore ∈ d.cores)
    (htenant : t.tenant_id = tenantId) (htkey : t.idempotency_key = key)
    (hrely : Rely S req env lk d d') : Answered S req env (.mixed (replayedRows d t)) d' := by
  intro hfresh
  refine ⟨⟨(tenantId, key), hkey, ?_⟩, fun h ↦ (hS h).elim⟩
  have hwf' := hrely.wellFormed hfresh (hwf hfresh)
  rw [mixedCores_replayedRows hwf' (hrely.cores.subset hcore) htenant htkey]
  unfold replayedRows
  simp only [toCore_legOf]
  cases hg : t.reference_group_id with
  | none => rfl
  | some g =>
    simp only [← groupCores_eq_map, hrely.groups hfresh g (groupCores_ne_nil hcore hg)]

/-- Reading the group of a row that was found answers what the ledger records under its key. -/
theorem replayMixedPayment_wp {req : Request} {key : Uuid} {t : Transaction}
    (hkey : req.transactionKey = some (tenantId, key)) (hS : ¬S.keyUnused env)
    (hwf : S.fresh → d.WellFormed) (hcore : t.toCore ∈ d.cores) (htenant : t.tenant_id = tenantId)
    (htkey : t.idempotency_key = key) :
    postgres.wp (contract S req env) (replayMixedPayment t >>= fun a ↦ pure (Answer.mixed a))
      [] [] d := by
  have hanswer : ∀ d₁ d₂, Rely S req env [] d d₁ → Rely S req env [] d₁ d₂ →
      Answered S req env (.mixed (replayedRows d₁ t)) d₂ := fun d₁ d₂ h₁ h₂ ↦
    answered_replayedRows hkey hS (fun h ↦ h₁.wellFormed h (hwf h)) (h₁.cores.subset hcore)
      htenant htkey h₂
  unfold replayMixedPayment
  cases hg : t.reference_group_id with
  | none =>
    intro d' hrely
    have h := hanswer d d' Rely.refl hrely
    simp only [replayedRows, hg] at h
    exact h
  | some g =>
    intro d₁ hrely₁ _ r ws hexec
    obtain ⟨rfl, rfl⟩ : d₁.transactionsOfGroup g = r ∧ [] = ws := by
      simpa [Sql.exec] using hexec
    refine ⟨fun _ ↦ Or.inl ⟨_, rfl⟩, fun d₂ hrely₂ ↦ ?_⟩
    have h := hanswer d₁ d₂ hrely₁ hrely₂
    simp only [replayedRows, hg] at h
    exact h

/-- The two rows of a committed mixed payment are what the ledger records under its key. -/
theorem Commit.answered_mixed {dto : CreateMixedPaymentDto} {c : Customer} {d' d'' : Db}
    {lk lk' : List (LockName × LockMode)} {shares : ℤ × ℤ} {balance : ℤ}
    (h : Commit S (.registerMixedPayment tenantId userId dto) env lk d d'
      (posting c [cashRow env tenantId userId dto shares.1,
        transferRow env tenantId userId dto shares.2] balance))
    (hwf : S.fresh → d.WellFormed)
    (hrely : Rely S (.registerMixedPayment tenantId userId dto) env lk' d' d'') :
    Answered S (.registerMixedPayment tenantId userId dto) env
      (.mixed ⟨cashRow env tenantId userId dto shares.1,
        transferRow env tenantId userId dto shares.2⟩) d'' := by
  set cash := cashRow env tenantId userId dto shares.1
  set transfer := transferRow env tenantId userId dto shares.2
  intro hS
  have hnew : d'.groupCores (env.fresh 0) = [cash.toCore, transfer.toCore] := by
    rw [h.groupCores, groupCores_fresh (h.unused hS)]
    simp [posting, cash, transfer, cashRow, transferRow]
  have hgroup : d''.groupCores (env.fresh 0) = [cash.toCore, transfer.toCore] := by
    rw [hrely.groups hS _ (by rw [hnew]; exact List.cons_ne_nil _ _), hnew]
  have hcash : cash.toCore ∈ d''.cores := by
    refine hrely.cores.subset ?_
    rw [h.cores]
    exact List.mem_append_right _ (List.mem_map_of_mem List.mem_cons_self)
  have hwf'' := hrely.wellFormed hS (h.wellFormed hS (hwf hS))
  refine ⟨⟨_, rfl, ?_⟩, fun _ ↦ ⟨?_, ⟨rfl, rfl⟩, ⟨rfl, rfl⟩, ⟨rfl, rfl⟩, env.fresh 0, rfl, rfl⟩⟩
  · refine (mixedCores_eq hwf'' hcash rfl rfl).trans ?_
    change some (legCore (d''.groupCores (env.fresh 0)) .CASH cash.toCore,
      legCore (d''.groupCores (env.fresh 0)) .TRANSFER cash.toCore) = _
    rw [hgroup]
    rfl
  · simpa [posting] using h.vacant.ids

/-- The end of a mixed payment: its two rows, the balance and the commit. -/
theorem wp_postMixed {dto : CreateMixedPaymentDto} {c : Customer}
    {lk : List (LockName × LockMode)} (hid : c.id = dto.customer_id) (hc : Holds d lk tenantId c)
    (htotal : dto.cash_amount_cents + dto.transfer_amount_cents = dto.total_amount_cents)
    (hpos : 0 < c.balance_cents)
    (hpinned : S.quiet → ∀ who, S.copiesOn = some who → c.id = who)
    (hunused : S.fresh → env.Unused d) (hwf : S.fresh → d.WellFormed) :
    let shares := effectiveShares dto c.balance_cents
    let cash := cashRow env tenantId userId dto shares.1
    let transfer := transferRow env tenantId userId dto shares.2
    postgres.wp (contract S (.registerMixedPayment tenantId userId dto) env)
      (insertTransaction cash >>= fun _ ↦ insertTransaction transfer >>= fun _ ↦
        saveCustomer { c with balance_cents := max 0 (c.balance_cents - (shares.1 + shares.2)) } >>=
          fun _ ↦ .commit (.ret (.mixed ⟨cash, transfer⟩))) [] lk d := by
  intro shares cash transfer
  refine wp_insertTransaction Pending.nil fun lk₁ d₁ hlk₁ hrely₁ hp₁ ↦ ?_
  refine wp_insertTransaction hp₁ fun lk₂ d₂ hlk₂ hrely₂ hp₂ ↦ ?_
  have hrely₀₂ := hrely₁.trans (hrely₂.mono hlk₁)
  have hc₂ := (hc.stable hrely₀₂).mono (List.Subset.trans hlk₁ hlk₂)
  refine wp_saveCustomer hp₂ hc₂ rfl fun lk₃ d₃ hlk₃ hrely₃ hp₃ ↦ ?_
  have hc₃ := (hc₂.stable hrely₃).mono hlk₃
  have hrely₀₃ := hrely₀₂.trans (hrely₃.mono (List.Subset.trans hlk₁ hlk₂))
  have hcommit : ∀ d₄, Rely S (.registerMixedPayment tenantId userId dto) env lk₃ d₃ d₄ →
      Commit S (.registerMixedPayment tenantId userId dto) env lk₃ d₄ (postgres.view _ d₄)
        (posting c [cash, transfer] _) := fun d₄ hrely₄ ↦
    (hp₃.stable (List.Subset.refl _) hrely₄).commit_posting (hc₃.stable hrely₄) rfl
      (.mixed hid htotal hpos) hpinned fun hS ↦ hrely₄.unused hS (hrely₀₃.unused hS (hunused hS))
  refine wp_commit (fun d₄ hrely₄ ↦ Or.inr ⟨_, hcommit d₄ hrely₄⟩) fun d₄ d₅ hrely₄ hrely₅ ↦ ?_
  exact (hcommit d₄ hrely₄).answered_mixed
    (fun hS ↦ hrely₄.wellFormed hS (hrely₀₃.wellFormed hS (hwf hS))) hrely₅

theorem registerMixedPayment_wp {dto : CreateMixedPaymentDto} (hunused : S.fresh → env.Unused d)
    (hwf : S.fresh → d.WellFormed) (hfresh : S.quiet → S.fresh)
    (hwho : ∀ who, S.copiesOn = some who →
      (Request.registerMixedPayment tenantId userId dto).LocksOnly who d) :
    postgres.wp (contract S (.registerMixedPayment tenantId userId dto) env)
      ((Request.registerMixedPayment tenantId userId dto).script env) [] [] d := by
  simp only [Request.script, Services.registerMixedPayment, findByIdempotencyKey, query,
    Prog.issue_bind, Prog.stmt_bind, Prog.ite_bind, Prog.fail_bind]
  split
  · trivial
  rename_i htotal
  refine wp_findByKey rfl (fun hS d' hready ↦ hready.2 hS) (fun t d₁ hrely₁ hS hfound ↦ ?_)
    fun d₁ hrely₁ _ ↦ ?_
  · -- a replay: commit, then read the group of the row that was found
    obtain ⟨hcore, htenant, hkey⟩ := core_of_transactionByKey hfound
    have hwf₁ : S.fresh → d₁.WellFormed := fun h ↦ hrely₁.wellFormed h (hwf h)
    refine ⟨fun hquiet ↦ ?_, fun d₂ hrely₂ ↦ ⟨Or.inl ⟨rfl, Or.inl rfl⟩, Or.inr ⟨rfl, rfl⟩, ?_⟩⟩
    · cases hgroup : t.reference_group_id with
      | none =>
        left
        refine ⟨.ok (.mixed (replayedRows d₁ t)), ?_⟩
        simp only [Prog.commitTransaction_bind, Prog.commit_bind, replayMixedPayment, hgroup,
          replayedRows]
        exact ⟨rfl, rfl⟩
      | some g =>
        right
        intro d₂ hrely₂ _
        refine ⟨fun h ↦ (hS h).elim, ?_⟩
        have hwf₂ := Rely.wellFormed hrely₂ (hfresh hquiet) (hwf₁ (hfresh hquiet))
        obtain ⟨t', hfound', hcore'⟩ := transactionByKey_later hwf₂ hfound (Rely.cores hrely₂)
        have hrows := replayedRows_congr hwf₂ ((Rely.cores hrely₂).subset hcore) hgroup hcore'
        rw [Engine.alone]
        simp only [postgres_exec, Sql.exec, Engine.view_nil, hfound', List.append_nil,
          Prog.commitTransaction_bind, Prog.commit_bind, Engine.alone, alone_replayMixedPayment,
          hrows]
    · exact replayMixedPayment_wp rfl hS (fun h ↦ Rely.wellFormed hrely₂ h (hwf₁ h))
        ((Rely.cores hrely₂).subset hcore) htenant hkey
  · simp only [Services.lockCustomer, query, Prog.issue_bind, Prog.stmt_bind, Prog.bind_assoc]
    refine wp_lockCustomer (fun _ who h ↦ hwho who h) ⟨_, rfl⟩ fun c d₂ hrely₂ _ hid hc ↦ ?_
    simp only [Prog.pure_eq_ret, Prog.ret_bind, Prog.ite_bind, Prog.fail_bind, Prog.bind_assoc,
      Prog.commitTransaction_bind, Prog.commit_bind]
    split
    · trivial
    rename_i hpos
    have hrely := hrely₁.trans (Rely.mono (List.nil_subset _) hrely₂)
    exact wp_postMixed hid hc (by simpa using htotal) (by simpa using hpos)
      (fun _ who h ↦ hid.trans (hwho who h)) (fun hS ↦ hrely.unused hS (hunused hS))
      fun hS ↦ hrely.wellFormed hS (hwf hS)

end MicroErp.Commits
