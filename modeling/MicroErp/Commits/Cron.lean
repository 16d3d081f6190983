import MicroErp.Commits.Customers

/-!
# The bulk updates of the cron meet their contract

A bulk update sets its flag in the rows of its snapshot that still meet the condition.
-/

namespace MicroErp.Commits

open MicroErp.Concurrency MicroErp.Database MicroErp.Services MicroErp.Storage

variable {S : Setting} {req : Request} {env : Env} {d : Db} {lk : List (LockName × LockMode)}
  {ws : List Write} {flag : Flag} {flagged : List Uuid}

def Flag.write : Flag → Uuid → Write
  | overdue => .markOverdue
  | blocked => .blockCustomer

theorem Flag.set_id (flag : Flag) (c : Customer) : (flag.set c).id = c.id := by
  cases flag <;> rfl

theorem Flag.set_set (flag : Flag) (c : Customer) : flag.set (flag.set c) = flag.set c := by
  cases flag <;> rfl

theorem Flag.write_apply (flag : Flag) (id : Uuid) (d : Db) :
    (flag.write id).apply d = { d with customers := d.customers.modify id flag.set } := by
  cases flag <;> rfl

theorem amend_set (flag : Flag) (c : Customer) : Table.amend flag.set c = flag.set c :=
  if_pos (flag.set_id c)

theorem rows_flagWrite (flag : Flag) (id : Uuid) (d : Db) :
    ((flag.write id).apply d).customers.rows =
      d.customers.rows.map fun c ↦ if c.id = id then flag.set c else c := by
  rw [flag.write_apply, Table.rows_modify]
  simp only [Customer.key_eq, amend_set]

theorem find_flagWrite (flag : Flag) (id id' : Uuid) (d : Db) :
    ((flag.write id).apply d).customers.find id' =
      (d.customers.find id').map fun c ↦ if id' = id then flag.set c else c := by
  rw [flag.write_apply, Table.find_modify]
  simp only [amend_set]

/-- The writes set the flag of the customers `flagged`, whatever the database. -/
def Flagging (flag : Flag) (flagged : List Uuid) (ws : List Write) : Prop :=
  ∀ d, (Commits.flagging flag flagged).Yields d (postgres.view ws d)

namespace Flagging

theorem nil : Flagging flag [] [] := fun d ↦
  ⟨by simp [flagging, Effect.none], by simp [flagging, Effect.none],
    by simp [flagging, Effect.none]⟩

theorem snoc (h : Flagging flag flagged ws) (id : Uuid) :
    Flagging flag (flagged ++ [id]) (ws ++ [flag.write id]) := by
  intro d
  have hy := h d
  rw [Engine.view_append, Engine.view_cons, Engine.view_nil, postgres_write, flag.write_apply]
  refine ⟨hy.transactions, ?_, hy.batches⟩
  rw [Table.rows_modify, hy.customers]
  simp only [flagging, Effect.none, List.append_nil, List.map_map]
  apply List.map_congr_left
  intro c _
  simp only [Function.comp_apply, Customer.key_eq, List.mem_append, List.mem_singleton]
  by_cases hc : c.id ∈ flagged
  · rw [if_pos hc, if_pos (Or.inl hc)]
    split
    · rw [amend_set, flag.set_set]
    · rfl
  · rw [if_neg hc]
    by_cases heq : c.id = id
    · rw [if_pos heq, if_pos (Or.inr heq), amend_set]
    · rw [if_neg heq, if_neg fun h ↦ h.elim hc heq]

theorem pending (h : Flagging flag flagged ws) :
    Pending S req env ws lk d (flagging flag flagged) where
  yields d' _ := h d'
  vacant := ⟨List.nodup_nil, fun _ h ↦ (List.not_mem_nil h).elim, List.nodup_nil,
    fun _ h ↦ (List.not_mem_nil h).elim⟩
  slots _ h := (List.not_mem_nil h).elim
  core _ := rfl
  id c := congrArg Prod.fst (flagging_fixed flag flagged c)
  customers := rfl

/-- One row of the update. -/
theorem wp_step {o : Sql} {k : o.Ans → Script Answer} (id : Uuid) (hS : ¬S.quiet)
    (h : Flagging flag flagged ws)
    (hexec : ∀ v r ws', o.exec v = .ok (r, ws') → ws' = [] ∨ ws' = [flag.write id])
    (hnext : ∀ flagged' ws' lk' d' r, Rely S req env [] d d' → Flagging flag flagged' ws' →
      postgres.wp (contract S req env) (k r) ws' lk' d') :
    postgres.wp (contract S req env) (.stmt o k) ws lk d := by
  refine wp_untracked hS fun d' r ws' hrely _ hok ↦ ?_
  have hrely₀ := Rely.mono (List.nil_subset _) hrely
  rcases hexec _ r ws' hok with rfl | rfl
  · rw [List.append_nil]
    exact hnext flagged ws _ d' r hrely₀ h
  · exact hnext _ _ _ d' r hrely₀ (h.snoc id)

end Flagging

theorem transactionKey_of_isFlagging (h : req.IsFlagging) : req.transactionKey = none := by
  cases req <;> first | rfl | exact h.elim

theorem wp_commit_flagging {a : Answer} (hS : ¬S.quiet) (hflag : req.IsFlagging)
    (hunused : S.fresh → env.Unused d) (h : Flagging flag flagged ws)
    (hanswer : ∀ d', req.transactionKey = none → Answered S req env a d') :
    postgres.wp (contract S req env) (.commit (.ret a)) ws lk d := by
  refine wp_commit (fun d' hrely ↦ Or.inr ⟨flagging flag flagged, ?_⟩)
    fun _ d'' _ _ ↦ hanswer d'' (transactionKey_of_isFlagging hflag)
  exact h.pending.commit rfl (fun h ↦ (hS h).elim) (fun h ↦ hrely.unused h (hunused h))
    (.flag hflag)

/-! ## The two loops -/

theorem wp_markCustomers {ids : List Uuid} {f : Unit → Script Answer} (hS : ¬S.quiet)
    (h : Flagging .overdue flagged ws)
    (hnext : ∀ flagged' ws' lk' d', Rely S req env [] d d' → Flagging .overdue flagged' ws' →
      postgres.wp (contract S req env) (f ()) ws' lk' d') :
    postgres.wp (contract S req env) (markCustomers ids >>= f) ws lk d := by
  induction ids generalizing flagged ws lk d with
  | nil => exact hnext flagged ws lk d Rely.refl h
  | cons id ids ih =>
    simp only [markCustomers, query, Prog.issue_bind, Prog.stmt_bind]
    refine h.wp_step id hS (fun v r ws' hok ↦ ?_) fun flagged' ws' lk' d' r hrely h' ↦ ?_
    · obtain ⟨-, rfl⟩ := Prod.mk.inj (Except.ok.inj hok)
      split
      · exact Or.inr rfl
      · exact Or.inl rfl
    · exact ih h' fun flagged'' ws'' lk'' d'' hrely' ↦
        hnext flagged'' ws'' lk'' d'' (hrely.trans hrely')

theorem wp_blockEach {rule : BlockRule} {ids : List Uuid} {f : Unit → Script Answer}
    (hS : ¬S.quiet) (h : Flagging .blocked flagged ws)
    (hnext : ∀ flagged' ws' lk' d', Rely S req env [] d d' → Flagging .blocked flagged' ws' →
      postgres.wp (contract S req env) (f ()) ws' lk' d') :
    postgres.wp (contract S req env) (blockEach rule ids >>= f) ws lk d := by
  induction ids generalizing flagged ws lk d with
  | nil => exact hnext flagged ws lk d Rely.refl h
  | cons id ids ih =>
    simp only [blockEach, query, Prog.issue_bind, Prog.stmt_bind]
    refine h.wp_step id hS (fun v r ws' hok ↦ ?_) fun flagged' ws' lk' d' r hrely h' ↦ ?_
    · obtain ⟨-, rfl⟩ := Prod.mk.inj (Except.ok.inj hok)
      split
      · exact Or.inr rfl
      · exact Or.inl rfl
    · exact ih h' fun flagged'' ws'' lk'' d'' hrely' ↦
        hnext flagged'' ws'' lk'' d'' (hrely.trans hrely')

/-! ## The jobs -/

theorem processOverdueCustomers_wp {today : Date} (hunused : S.fresh → env.Unused d)
    (hS : ¬S.quiet) :
    postgres.wp (contract S (.processOverdueCustomers today) env)
      ((Request.processOverdueCustomers today).script env) [] [] d := by
  simp only [Request.script, Services.processOverdueCustomers, query, Prog.issue_bind,
    Prog.stmt_bind]
  refine wp_untracked hS fun d₁ ids ws₁ hrely₁ _ hexec ↦ ?_
  obtain ⟨-, rfl⟩ := Prod.mk.inj (Except.ok.inj hexec)
  simp only [Prog.ite_bind, Prog.bind_assoc]
  split
  · exact fun _ _ ↦ rfl
  · refine wp_markCustomers hS .nil fun flagged ws₂ lk₂ d₂ hrely₂ h ↦ ?_
    exact wp_commit_flagging hS trivial (fun h ↦ hrely₂.unused h (hrely₁.unused h (hunused h))) h
      fun _ h ↦ h

theorem blockCustomers_wp {rule : BlockRule} (hflag : req.IsFlagging)
    (hunused : S.fresh → env.Unused d) (hS : ¬S.quiet) :
    postgres.wp (contract S req env)
      (blockCustomers env rule >>= fun _ ↦ pure Answer.done) [] [] d := by
  simp only [Services.blockCustomers, query, Prog.issue_bind, Prog.stmt_bind, Prog.bind_assoc]
  refine wp_untracked hS fun d₁ ids ws₁ hrely₁ _ hexec ↦ ?_
  obtain ⟨-, rfl⟩ := Prod.mk.inj (Except.ok.inj hexec)
  refine wp_blockEach hS .nil fun flagged ws₂ lk₂ d₂ hrely₂ h ↦ ?_
  exact wp_commit_flagging hS hflag (fun h ↦ hrely₂.unused h (hrely₁.unused h (hunused h))) h
    fun _ h ↦ h

end MicroErp.Commits
