import MicroErp.Commits.Runs
import MicroErp.Concurrency.History
import MicroErp.Services.AuditTrail

/-!
# Overlapping runs of the overdue job

The `UPDATE` that marks customers does not look at the flag again, so a run reports and counts all
customers that it has selected, also those whom another run has marked meanwhile.  As long as each
row that the `UPDATE` reaches is not marked yet, every mark is reported and counted once.  The flags
at the end are those of a single run in any case.
-/

namespace MicroErp.Guarantees

open MicroErp.Commits MicroErp.Concurrency MicroErp.Database MicroErp.Services MicroErp.Storage
open scoped BigOperators

/-! ## What one run writes -/

/-- The customer that the write marks. -/
def marked : AuditedWrite → Option Uuid
  | .on (.markOverdue id) => some id
  | _ => none

/-- The row says that the customer was marked. -/
def ReportsMark (id : Uuid) (row : AuditLog) : Prop :=
  row.action = .MARK_OVERDUE ∧ row.entity_id = id

instance (id : Uuid) (row : AuditLog) : Decidable (ReportsMark id row) :=
  inferInstanceAs (Decidable (_ ∧ _))

/-- What a run of the job may write. -/
inductive JobWrite : AuditedWrite → Prop
  | flag (flag : Flag) (id : Uuid) : JobWrite (.on (flag.write id))
  | logs (rows : List AuditLog) : JobWrite (.insertAuditLogs rows)

/-- The identifiers of the customers. -/
def HasCustomers (ids : List Uuid) (d : AuditedDb) : Prop := d.db.customers.rows.map (·.id) = ids

/-- A run that answers `n` has marked `n` of the known customers and reported each of them once. -/
structure Tallies (known : List Uuid) (n : ℕ) (done : List AuditedWrite) : Prop where
  count : (done.filterMap marked).length = n
  nodup : (done.filterMap marked).Nodup
  marks : ∀ id ∈ done.filterMap marked, id ∈ known
  reports : ∀ id, (done.flatMap AuditedWrite.logs).countP (fun row ↦ ReportsMark id row) =
    (done.filterMap marked).count id
  writes : ∀ w ∈ done, JobWrite w
  nothing : n = 0 → done = []

/-- The audit rows among the tasks. -/
def OverdueTask.row? : OverdueTask → Option AuditLog
  | .report row => some row
  | .block _ => none

section Program

variable {env : AuditEnv} {known : List Uuid} {α : Type} {Q : α → List AuditedWrite → Prop}
  {done ws : List AuditedWrite}

theorem keeps_jobWrite {w : AuditedWrite} (h : JobWrite w) :
    audited.Keeps (HasCustomers known) w := by
  intro d hd
  cases h with
  | flag flag id =>
    have hrows : ((flag.write id).apply d.db).customers.rows.map (·.id) =
        d.db.customers.rows.map (·.id) := by
      rw [rows_flagWrite, List.map_map]
      apply List.map_congr_left
      intro c _
      simp only [Function.comp_apply]
      split
      · exact flag.set_id c
      · rfl
    exact hrows.trans hd
  | logs rows => exact hd

@[simp] theorem bulkUpdate_stmt (o : Sql) (k : o.Ans → Script α) :
    bulkUpdate (.stmt o k) = .stmt (.on o) fun r ↦ bulkUpdate (k r) := rfl

theorem subscribed_bind {β : Type} (afterUpdate : Sql → List AuditLog) (p : Script α)
    (f : α → Script β) : subscribed afterUpdate (p >>= f) =
      subscribed afterUpdate p >>= fun a ↦ subscribed afterUpdate (f a) := by
  induction p with
  | ret a => rfl
  | fail e => rfl
  | stmt o k ih =>
    simp only [Prog.stmt_bind, subscribed, ih]
    congr 1
    funext r
    split
    · rfl
    · rfl
  | commit k ih => simp only [Prog.commit_bind, subscribed, ih]

@[simp] theorem bulkUpdate_ret (a : α) : bulkUpdate (.ret a) = .ret a := rfl

@[simp] theorem bulkUpdate_commit (p : Script α) : bulkUpdate (.commit p) = .commit (bulkUpdate p) := rfl

/-- The marks of an `UPDATE` whose rows all exist. -/
theorem wrote_markCustomers {ids : List Uuid} {f : Unit → AuditedScript α}
    (hids : ∀ id ∈ ids, id ∈ known)
    (h : (f ()).Wrote audited (HasCustomers known) Q done
      (ws ++ ids.map fun id ↦ .on (.markOverdue id))) :
    (bulkUpdate (markCustomers ids) >>= f).Wrote audited (HasCustomers known) Q done ws := by
  induction ids generalizing ws with
  | nil => simpa [markCustomers] using h
  | cons id ids ih =>
    simp only [markCustomers, query, Prog.issue_bind, bulkUpdate_stmt, Prog.stmt_bind]
    intro v hv r ws' hexec
    have hfound : (v.db.customers.find id).isSome := by
      have hmem : id ∈ v.db.customers.rows.map (·.id) := hv ▸ hids id List.mem_cons_self
      obtain ⟨c, hc, hid⟩ := List.mem_map.1 hmem
      rw [Table.find_eq_some.2 ⟨hc, hid⟩]
      rfl
    obtain rfl : [.on (.markOverdue id)] = ws' := by
      simpa [AuditedSql.exec, Sql.exec, hfound] using hexec
    refine ⟨fun w hw ↦ ?_, ?_⟩
    · obtain rfl := List.mem_singleton.1 hw
      exact keeps_jobWrite (.flag .overdue id)
    · refine ih (fun id' hid' ↦ hids id' (List.mem_cons_of_mem _ hid')) ?_
      simpa using h

/-- What an `UPDATE` that blocks customers may write. -/
def Blocks (w : AuditedWrite) : Prop := ∃ id, w = .on (.blockCustomer id)

theorem Blocks.jobWrite {w : AuditedWrite} (h : Blocks w) : JobWrite w := by
  obtain ⟨id, rfl⟩ := h
  exact .flag .blocked id

theorem wrote_blockEach {rule : BlockRule} {ids : List Uuid} {f : Unit → AuditedScript α}
    (hws : ∀ w ∈ ws, Blocks w)
    (h : ∀ ws', (∀ w ∈ ws', Blocks w) → (f ()).Wrote audited (HasCustomers known) Q done ws') :
    (bulkUpdate (blockEach rule ids) >>= f).Wrote audited (HasCustomers known) Q done ws := by
  induction ids generalizing ws with
  | nil => exact h ws hws
  | cons id ids ih =>
    simp only [blockEach, query, Prog.issue_bind, bulkUpdate_stmt, Prog.stmt_bind]
    intro v hv r ws' hexec
    have hblocks : ∀ w ∈ ws', Blocks w := by
      intro w hw
      have hws' : (if ((v.db.customers.find id).filter fun c ↦ rule.Applies c).isSome
          then [Write.blockCustomer id] else []).map .on = ws' :=
        congrArg Prod.snd (Except.ok.inj hexec)
      rw [← hws'] at hw
      split at hw
      · exact ⟨id, List.mem_singleton.1 hw⟩
      · cases hw
    exact ⟨fun w hw ↦ keeps_jobWrite (hblocks w hw).jobWrite,
      ih fun w hw ↦ (List.mem_append.1 hw).elim (hws w) (hblocks w)⟩

theorem wrote_blockCustomers {rule : BlockRule} {f : Unit → AuditedScript α}
    (h : ∀ ws', (∀ w ∈ ws', Blocks w) →
      (f ()).Wrote audited (HasCustomers known) Q (done ++ ws') []) :
    (bulkUpdate (blockCustomers env.toEnv rule) >>= f).Wrote audited (HasCustomers known) Q done [] := by
  simp only [blockCustomers, query, Prog.issue_bind, bulkUpdate_stmt, Prog.stmt_bind]
  intro v _ ids ws' hexec
  obtain rfl : [] = ws' := congrArg Prod.snd (Except.ok.inj hexec)
  refine ⟨fun _ hw ↦ (List.not_mem_nil hw).elim, ?_⟩
  dsimp only
  rw [bulkUpdate, subscribed_bind, Prog.bind_assoc]
  exact wrote_blockEach (fun _ hw ↦ (List.not_mem_nil hw).elim) h

/-- The audit rows that the tasks insert are those that are among them. -/
theorem wrote_runTasks {tasks : List OverdueTask} {f : Unit → AuditedScript α}
    (h : ∀ ws', (∀ w ∈ ws', JobWrite w) → ws'.filterMap marked = [] →
      ws'.flatMap AuditedWrite.logs = tasks.filterMap OverdueTask.row? →
        (f ()).Wrote audited (HasCustomers known) Q (done ++ ws') []) :
    (runTasks env tasks >>= f).Wrote audited (HasCustomers known) Q done [] := by
  induction tasks generalizing done with
  | nil =>
    have hnil := h [] (fun _ hw ↦ (List.not_mem_nil hw).elim) rfl rfl
    rwa [List.append_nil] at hnil
  | cons task tasks ih =>
    cases task with
    | report row =>
      simp only [runTasks, Prog.issue_bind, Prog.stmt_bind, Prog.commitTransaction_bind, Prog.commit_bind]
      intro v _ r ws' hexec
      obtain rfl : [.insertAuditLogs [row]] = ws' := congrArg Prod.snd (Except.ok.inj hexec)
      refine ⟨fun w hw ↦ ?_, ?_⟩
      · obtain rfl := List.mem_singleton.1 hw
        exact keeps_jobWrite (.logs [row])
      · refine ih fun ws' hjob hmarked hlogs ↦ ?_
        rw [List.append_assoc]
        refine h _ (fun w hw ↦ ?_) hmarked ?_
        · rcases List.mem_append.1 hw with hw | hw
          · obtain rfl := List.mem_singleton.1 hw
            exact .logs [row]
          · exact hjob w hw
        · rw [List.flatMap_append, hlogs]
          rfl
    | block rule =>
      simp only [runTasks, Prog.bind_assoc]
      refine wrote_blockCustomers fun ws₁ hblocks ↦ ih fun ws₂ hjob hmarked hlogs ↦ ?_
      rw [List.append_assoc]
      refine h _ (fun w hw ↦ ?_) ?_ ?_
      · exact (List.mem_append.1 hw).elim (fun hw ↦ (hblocks w hw).jobWrite) (hjob w)
      · have hnone : ws₁.filterMap marked = [] := List.filterMap_eq_nil_iff.2 fun w hw ↦ by
          obtain ⟨id, rfl⟩ := hblocks w hw
          rfl
        rw [List.filterMap_append, hnone, hmarked, List.append_nil]
      · have hnone : ws₁.flatMap AuditedWrite.logs = [] := List.flatMap_eq_nil_iff.2 fun w hw ↦ by
          obtain ⟨id, rfl⟩ := hblocks w hw
          rfl
        rw [List.flatMap_append, hnone, hlogs]
        rfl

/-- Each run accounts for its marks, if its schedule drops and repeats no audit row. -/
theorem wrote_overdueRun {schedule : List OverdueTask → List OverdueTask} {today : Date}
    (hschedule : ∀ tasks, ((schedule tasks).filterMap OverdueTask.row?).Perm
      (tasks.filterMap OverdueTask.row?)) :
    (overdueRun env schedule today).Wrote audited (HasCustomers known) (Tallies known) [] [] := by
  simp only [overdueRun, Prog.issue_bind]
  intro v hv customers ws hexec
  obtain ⟨hcustomers, rfl⟩ := Prod.mk.inj (Except.ok.inj hexec)
  refine ⟨fun _ hw ↦ (List.not_mem_nil hw).elim, ?_⟩
  dsimp only
  split
  · exact ⟨rfl, List.nodup_nil, fun _ hid ↦ (List.not_mem_nil hid).elim, fun _ ↦ rfl,
      fun _ hw ↦ (List.not_mem_nil hw).elim, fun _ ↦ rfl⟩
  rename_i hsome
  set ids := env.scan (customers.map (·.id)) with hids
  have hperm : ids.Perm (customers.map (·.id)) := env.scan_perm _
  have hsub : (customers.map (·.id)).Sublist known := by
    rw [← hcustomers, ← hv]
    exact List.filter_sublist.map _
  have hknown : ∀ id ∈ ids, id ∈ known := fun id hid ↦ hsub.subset (hperm.mem_iff.1 hid)
  have hnodup : ids.Nodup := hperm.nodup_iff.2 <| hsub.nodup <| by
    rw [← hv]
    exact v.db.customers.nodup
  refine wrote_markCustomers hknown ?_
  intro v' _ tenants ws' hexec'
  obtain rfl : [] = ws' := congrArg Prod.snd (Except.ok.inj hexec')
  refine ⟨fun _ hw ↦ (List.not_mem_nil hw).elim, wrote_runTasks fun ws' hjob hmarked hlogs ↦ ?_⟩
  have hmarks : (ids.map fun id ↦ AuditedWrite.on (.markOverdue id)).filterMap marked = ids := by
    rw [List.filterMap_map]
    exact List.filterMap_some
  have hnologs : (ids.map fun id ↦ AuditedWrite.on (.markOverdue id)).flatMap AuditedWrite.logs =
      [] := by
    simp [List.flatMap_eq_nil_iff, AuditedWrite.logs]
  have hdone : ([] ++ (([] ++ []) ++ ids.map fun id ↦ AuditedWrite.on (.markOverdue id))) ++ ws' =
      (ids.map fun id ↦ AuditedWrite.on (.markOverdue id)) ++ ws' := by simp
  rw [hdone]
  refine ⟨?_, ?_, ?_, fun id ↦ ?_, fun w hw ↦ ?_, fun hzero ↦ ?_⟩
  · rw [List.filterMap_append, hmarks, hmarked, List.append_nil, hperm.length_eq, List.length_map]
  · rwa [List.filterMap_append, hmarks, hmarked, List.append_nil]
  · rwa [List.filterMap_append, hmarks, hmarked, List.append_nil]
  · rw [List.flatMap_append, List.filterMap_append, hnologs, hmarks, hmarked, List.append_nil,
      List.nil_append, hlogs, (hschedule _).countP_eq, hperm.count_eq, List.filterMap_append,
      List.countP_append]
    have hreports : (customers.map fun c ↦ OverdueTask.report (markOverdueLog env c)).filterMap
        OverdueTask.row? = customers.map (markOverdueLog env) := by
      rw [List.filterMap_map, ← List.filterMap_eq_map]
      rfl
    have hblocks : ((blockRules today tenants).map OverdueTask.block).filterMap OverdueTask.row? =
        [] := by
      rw [List.filterMap_map]
      exact List.filterMap_eq_nil_iff.2 fun _ _ ↦ rfl
    rw [hreports, hblocks, List.countP_nil, add_zero, List.countP_map, List.count, List.countP_map]
    refine List.countP_congr fun c _ ↦ ?_
    simp [ReportsMark, markOverdueLog]
  · rcases List.mem_append.1 hw with hw | hw
    · obtain ⟨id, -, rfl⟩ := List.mem_map.1 hw
      exact .flag .overdue id
    · exact hjob w hw
  · exact (hsome (List.length_eq_zero_iff.1 hzero)).elim

end Program

end MicroErp.Guarantees
