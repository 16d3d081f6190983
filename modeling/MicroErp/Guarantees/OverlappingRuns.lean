import MicroErp.Guarantees.DailyJob
import MicroErp.Guarantees.OverdueRuns

/-!
# What overlapping runs of the overdue job leave

Every commit of a run moves flags one way only, and only those that a single run would move.  When
all runs have ended, nobody is left whom one of them would mark or block, so the customers are the
same as after a single run.  The audit rows and the counts of the runs are those of the marks that
they have made, which are the changes exactly when no mark meets a customer marked before.
-/

namespace MicroErp.Guarantees

open MicroErp.Commits MicroErp.Concurrency MicroErp.Database MicroErp.Services MicroErp.Storage
open scoped BigOperators

/-! ## Customers -/

/-- The customer with the mark that a run gives it. -/
def fated (today : Date) (c : Customer) : Customer :=
  { c with is_overdue := c.is_overdue || decide (c.IsCandidate today) }

/-- What runs with these blocking updates may do to a customer. -/
structure Moves (today : Date) (rules : List BlockRule) (c c' : Customer) : Prop where
  rest : c' = { c with is_overdue := c'.is_overdue, is_active := c'.is_active }
  overdue : c.is_overdue = true → c'.is_overdue = true
  marked : c'.is_overdue = true → (fated today c).is_overdue = true
  active : c'.is_active = true → c.is_active = true
  blocked : c.is_active = true → c'.is_active = false →
    ∃ rule ∈ rules, rule.Applies (fated today c)

section Customers

variable {today : Date} {rules : List BlockRule} {rule : BlockRule} {c c' c'' : Customer}

theorem fated_eq_true : (fated today c).is_overdue = true ↔
    c.is_overdue = true ∨ c.IsCandidate today := by
  simp [fated]

/-- Marking changes nothing but the mark. -/
theorem candidate_of_rest
    (h : c' = { c with is_overdue := c'.is_overdue, is_active := c'.is_active }) :
    c'.IsCandidate today ↔ ((∃ day ∈ c.next_payment_promise, day < today) ∧ 0 < c.balance_cents) ∧
      c'.is_overdue = false := by
  rw [h]
  exact and_assoc.symm

theorem Moves.refl (today : Date) (rules : List BlockRule) (c : Customer) :
    Moves today rules c c where
  rest := rfl
  overdue h := h
  marked h := fated_eq_true.2 (Or.inl h)
  active h := h
  blocked h h' := absurd (h.symm.trans h') (by decide)

theorem Moves.id_eq (h : Moves today rules c c') : c'.id = c.id := by
  rw [h.rest]

theorem Moves.candidate (h : Moves today rules c c') (hcandidate : c'.IsCandidate today) :
    c.IsCandidate today := by
  obtain ⟨⟨hday, hbalance⟩, hunmarked⟩ := (candidate_of_rest h.rest).1 hcandidate
  refine ⟨hday, hbalance, Bool.eq_false_iff.2 fun hmark ↦ ?_⟩
  exact absurd (h.overdue hmark) (by rw [hunmarked]; decide)

/-- What will be marked was to be marked before. -/
theorem Moves.fated_overdue (h : Moves today rules c c') :
    (fated today c').is_overdue = (fated today c).is_overdue := by
  rw [Bool.eq_iff_iff, fated_eq_true]
  constructor
  · rintro (hmark | hcandidate)
    · exact h.marked hmark
    · exact fated_eq_true.2 (Or.inr (h.candidate hcandidate))
  · intro hfated
    cases hmark : c'.is_overdue with
    | true => exact Or.inl rfl
    | false =>
      right
      have hunmarked : c.is_overdue ≠ true := fun hold ↦
        absurd (h.overdue hold) (by rw [hmark]; decide)
      obtain ⟨hday, hbalance, -⟩ := (fated_eq_true.1 hfated).resolve_left hunmarked
      exact (candidate_of_rest h.rest).2 ⟨⟨hday, hbalance⟩, hmark⟩

/-- Two active customers differ in the mark at most. -/
theorem Moves.fated_eq (h : Moves today rules c c') (hactive : c'.is_active = c.is_active) :
    fated today c' = fated today c := by
  have hoverdue := h.fated_overdue
  have hparts (x : Customer) :
      fated today x = { x with is_overdue := (fated today x).is_overdue } := rfl
  rw [hparts c', hparts c, hoverdue, h.rest, hactive]

theorem Moves.trans (h : Moves today rules c c') (h' : Moves today rules c' c'') :
    Moves today rules c c'' where
  rest := by
    conv_lhs => rw [h'.rest, h.rest]
  overdue hmark := h'.overdue (h.overdue hmark)
  marked hmark := h.fated_overdue ▸ h'.marked hmark
  active hactive := h.active (h'.active hactive)
  blocked hactive hblocked := by
    cases hstill : c'.is_active with
    | false => exact h.blocked hactive hstill
    | true =>
      rw [← h.fated_eq (hstill.trans hactive.symm)]
      exact h'.blocked hstill hblocked

theorem moves_mark (hfated : (fated today c).is_overdue = true) :
    Moves today rules c (Flag.overdue.set c) where
  rest := rfl
  overdue _ := rfl
  marked _ := hfated
  active h := h
  blocked h h' := absurd (h.symm.trans h') (by decide)

theorem moves_block (hrule : c.is_active = true → ∃ rule ∈ rules, rule.Applies (fated today c)) :
    Moves today rules c (Flag.blocked.set c) where
  rest := rfl
  overdue h := h
  marked h := fated_eq_true.2 (Or.inl h)
  active h := Bool.noConfusion h
  blocked h _ := hrule h

/-- A mark only helps a rule. -/
theorem applies_fated (h : rule.Applies c) : rule.Applies (fated today c) := by
  cases rule with
  | overdue tenantId cutoff =>
    obtain ⟨htenant, hoverdue, hrest⟩ := h
    exact ⟨htenant, fated_eq_true.2 (Or.inl hoverdue), hrest⟩
  | onLimit => exact h

theorem active_of_applies (h : rule.Applies c) : c.is_active = true := by
  cases rule with
  | overdue tenantId cutoff => exact h.2.2.1
  | onLimit => exact h.2.1

/-- Once nobody is to be marked, no rule comes to apply. -/
theorem Moves.applies (h : Moves today rules c c') (hsettled : ¬c.IsCandidate today)
    (happlies : rule.Applies c') : rule.Applies c := by
  have hactive := h.active (active_of_applies happlies)
  have hoverdue : c'.is_overdue = true → c.is_overdue = true := fun hmark ↦
    (fated_eq_true.1 (h.marked hmark)).resolve_right hsettled
  rw [h.rest] at happlies
  cases rule with
  | overdue tenantId cutoff =>
    obtain ⟨htenant, hmark, -, hrest⟩ := happlies
    exact ⟨htenant, hoverdue hmark, hactive, hrest⟩
  | onLimit => exact ⟨happlies.1, hactive, happlies.2.2⟩

end Customers

/-! ## Databases -/

/-- The updates that a run makes when it finds these tenants. -/
def rulesOf (today : Date) (d : Db) : List BlockRule := blockRules today d.autoBlockTenants

/-- What the commits of runs do, one after another. -/
structure Progress (today : Date) (d d' : Db) : Prop where
  tenants : d'.tenants = d.tenants
  customers : List.Forall₂ (Moves today (rulesOf today d)) d.customers.rows d'.customers.rows

theorem forall₂_trans {α : Type} {R : α → α → Prop} {l l' l'' : List α}
    (hR : ∀ a b c, R a b → R b c → R a c) (h : List.Forall₂ R l l') (h' : List.Forall₂ R l' l'') :
    List.Forall₂ R l l'' := by
  induction h generalizing l'' with
  | nil => exact h'
  | cons hab _ ih =>
    obtain ⟨c, l'', hbc, hrest, rfl⟩ := List.forall₂_cons_left_iff.1 h'
    exact .cons (hR _ _ _ hab hbc) (ih hrest)

theorem exists_of_forall₂ {α : Type} {R : α → α → Prop} {l l' : List α} {b : α}
    (h : List.Forall₂ R l l') (hb : b ∈ l') : ∃ a ∈ l, R a b := by
  induction h with
  | nil => cases hb
  | cons hab _ ih =>
    rcases List.mem_cons.1 hb with rfl | hb
    · exact ⟨_, List.mem_cons_self, hab⟩
    · obtain ⟨a, ha, hR⟩ := ih hb
      exact ⟨a, List.mem_cons_of_mem _ ha, hR⟩

section Databases

variable {today : Date} {d d' d'' : Db} {rule : BlockRule} {c : Customer}

theorem rulesOf_eq (h : d'.tenants = d.tenants) : rulesOf today d' = rulesOf today d := by
  unfold rulesOf Db.autoBlockTenants
  rw [h]

theorem Progress.refl (today : Date) (d : Db) : Progress today d d :=
  ⟨rfl, List.forall₂_same.2 fun c _ ↦ Moves.refl today _ c⟩

theorem Progress.trans (h : Progress today d d') (h' : Progress today d' d'') :
    Progress today d d'' where
  tenants := h'.tenants.trans h.tenants
  customers := by
    have hcustomers := h'.customers
    rw [rulesOf_eq h.tenants] at hcustomers
    exact forall₂_trans (fun _ _ _ ↦ Moves.trans) h.customers hcustomers

theorem Progress.ids (h : Progress today d d') :
    d'.customers.rows.map (·.id) = d.customers.rows.map (·.id) := by
  have hcustomers := h.customers
  generalize rulesOf today d = rules at hcustomers
  generalize d.customers.rows = rows at hcustomers ⊢
  generalize d'.customers.rows = rows' at hcustomers ⊢
  induction hcustomers with
  | nil => rfl
  | cons hmoves _ ih => rw [List.map_cons, List.map_cons, ih, hmoves.id_eq]

/-- Each customer is one of before. -/
theorem Progress.exists_of_mem (h : Progress today d d') (hc : c ∈ d'.customers.rows) :
    ∃ c₀ ∈ d.customers.rows, Moves today (rulesOf today d) c₀ c :=
  exists_of_forall₂ h.customers hc

/-- Nobody is to be marked. -/
theorem allMarked_iff : AllMarked today d ↔ ∀ c ∈ d.customers.rows, ¬c.IsCandidate today := by
  refine forall₂_congr fun c _ ↦ ?_
  unfold Customer.IsCandidate
  rw [not_and, not_and, Bool.not_eq_false]

theorem AllMarked.progress (h : AllMarked today d) (hprogress : Progress today d d') :
    AllMarked today d' := by
  rw [allMarked_iff] at h ⊢
  intro c hc hcandidate
  obtain ⟨c₀, hc₀, hmoves⟩ := hprogress.exists_of_mem hc
  exact h c₀ hc₀ (hmoves.candidate hcandidate)

theorem Exhausted.progress (h : Exhausted d rule) (hmarked : AllMarked today d)
    (hprogress : Progress today d d') : Exhausted d' rule := by
  intro c hc happlies
  obtain ⟨c₀, hc₀, hmoves⟩ := hprogress.exists_of_mem hc
  exact h c₀ hc₀ (hmoves.applies (allMarked_iff.1 hmarked c₀ hc₀) happlies)

end Databases

/-- The same beside the audit log. -/
def Proceeds (today : Date) (d d' : AuditedDb) : Prop := Progress today d.db d'.db

instance (today : Date) : Std.Refl (Proceeds today) := ⟨fun d ↦ Progress.refl today d.db⟩

instance (today : Date) : IsTrans AuditedDb (Proceeds today) := ⟨fun _ _ _ ↦ Progress.trans⟩

/-! ## Pending writes -/

/-- The customer that the write blocks. -/
def blockedBy : AuditedWrite → Option Uuid
  | .on (.blockCustomer id) => some id
  | _ => none

/-- The flags of a customer after all marks and blocks. -/
def flaggedBy (marks blocks : List Uuid) (c : Customer) : Customer :=
  { c with
    is_overdue := c.is_overdue || decide (c.id ∈ marks)
    is_active := c.is_active && !decide (c.id ∈ blocks) }

section Writes

variable {today : Date} {d d' : AuditedDb} {ws : List AuditedWrite} {w : AuditedWrite} {id : Uuid}
  {c : Customer} {marks blocks : List Uuid} {rule : BlockRule}

theorem flaggedBy_nil (c : Customer) : flaggedBy [] [] c = c := by
  simp [flaggedBy]

theorem tenants_jobWrite (h : JobWrite w) : (audited.write w d).db.tenants = d.db.tenants := by
  cases h with
  | flag flag id => cases flag <;> rfl
  | logs rows => rfl

/-- The customers under the pending writes of a run. -/
theorem rows_view (h : ∀ w ∈ ws, JobWrite w) :
    (audited.view ws d).db.tenants = d.db.tenants ∧
      (audited.view ws d).db.customers.rows =
        d.db.customers.rows.map (flaggedBy (ws.filterMap marked) (ws.filterMap blockedBy)) := by
  induction ws generalizing d with
  | nil =>
    refine ⟨rfl, ?_⟩
    rw [Engine.view_nil]
    exact (List.map_id'' flaggedBy_nil _).symm
  | cons w ws ih =>
    obtain ⟨hw, hws⟩ := List.forall_mem_cons.1 h
    obtain ⟨htenants, hrows⟩ := ih (d := audited.write w d) hws
    refine ⟨htenants.trans (tenants_jobWrite hw), ?_⟩
    rw [Engine.view_cons, hrows]
    cases hw with
    | logs rows => rfl
    | flag flag id =>
      have hwrite : (audited.write (.on (flag.write id)) d).db.customers.rows =
          d.db.customers.rows.map fun c ↦ if c.id = id then flag.set c else c :=
        rows_flagWrite flag id d.db
      rw [hwrite, List.map_map]
      refine List.map_congr_left fun c _ ↦ ?_
      cases flag with
      | overdue =>
        have hmarks : (AuditedWrite.on (Flag.overdue.write id) :: ws).filterMap marked =
            id :: ws.filterMap marked := rfl
        have hblocks : (AuditedWrite.on (Flag.overdue.write id) :: ws).filterMap blockedBy =
            ws.filterMap blockedBy := rfl
        rw [hmarks, hblocks, Function.comp_apply]
        by_cases hid : c.id = id
        · simp [hid, flaggedBy, Flag.set]
        · simp [hid, flaggedBy]
      | blocked =>
        have hmarks : (AuditedWrite.on (Flag.blocked.write id) :: ws).filterMap marked =
            ws.filterMap marked := rfl
        have hblocks : (AuditedWrite.on (Flag.blocked.write id) :: ws).filterMap blockedBy =
            id :: ws.filterMap blockedBy := rfl
        rw [hmarks, hblocks, Function.comp_apply]
        by_cases hid : c.id = id
        · simp [hid, flaggedBy, Flag.set]
        · simp [hid, flaggedBy]

/-- A write that a single run would make as well. -/
inductive Warranted (today : Date) (d : Db) : AuditedWrite → Prop
  | mark {id : Uuid}
      (h : ∀ c ∈ d.customers.rows, c.id = id → (fated today c).is_overdue = true) :
      Warranted today d (.on (.markOverdue id))
  | block {id : Uuid} (h : ∀ c ∈ d.customers.rows, c.id = id → c.is_active = true →
      ∃ rule ∈ rulesOf today d, rule.Applies (fated today c)) :
      Warranted today d (.on (.blockCustomer id))
  | logs (rows : List AuditLog) : Warranted today d (.insertAuditLogs rows)

theorem Warranted.jobWrite {d : Db} (h : Warranted today d w) : JobWrite w := by
  cases h with
  | mark _ => exact .flag .overdue _
  | block _ => exact .flag .blocked _
  | logs rows => exact .logs rows

/-- It stays so, whatever the other runs commit. -/
theorem Warranted.along {d d' : Db} (h : Warranted today d w) (hprogress : Progress today d d') :
    Warranted today d' w := by
  cases h with
  | mark h =>
    refine .mark fun c hc hid ↦ ?_
    obtain ⟨c₀, hc₀, hmoves⟩ := hprogress.exists_of_mem hc
    rw [hmoves.fated_overdue]
    exact h c₀ hc₀ (hmoves.id_eq.symm.trans hid)
  | block h =>
    refine .block fun c hc hid hactive ↦ ?_
    obtain ⟨c₀, hc₀, hmoves⟩ := hprogress.exists_of_mem hc
    have hactive₀ := hmoves.active hactive
    rw [rulesOf_eq hprogress.tenants, hmoves.fated_eq (hactive.trans hactive₀.symm)]
    exact h c₀ hc₀ (hmoves.id_eq.symm.trans hid) hactive₀
  | logs rows => exact .logs rows

theorem progress_write (h : Warranted today d.db w) :
    Progress today d.db (audited.write w d).db := by
  cases h with
  | @mark id h =>
    refine ⟨rfl, ?_⟩
    have hrows : (audited.write (.on (.markOverdue id)) d).db.customers.rows =
        d.db.customers.rows.map fun c ↦ if c.id = id then Flag.overdue.set c else c :=
      rows_flagWrite .overdue id d.db
    rw [hrows, List.forall₂_map_right_iff, List.forall₂_same]
    intro c hc
    split
    · rename_i hid
      exact moves_mark (h c hc hid)
    · exact Moves.refl today _ c
  | @block id h =>
    refine ⟨rfl, ?_⟩
    have hrows : (audited.write (.on (.blockCustomer id)) d).db.customers.rows =
        d.db.customers.rows.map fun c ↦ if c.id = id then Flag.blocked.set c else c :=
      rows_flagWrite .blocked id d.db
    rw [hrows, List.forall₂_map_right_iff, List.forall₂_same]
    intro c hc
    split
    · rename_i hid
      exact moves_block (h c hc hid)
    · exact Moves.refl today _ c
  | logs rows => exact Progress.refl today d.db

theorem progress_view (h : ∀ w ∈ ws, Warranted today d.db w) :
    Progress today d.db (audited.view ws d).db := by
  induction ws generalizing d with
  | nil => exact Progress.refl today d.db
  | cons w ws ih =>
    obtain ⟨hw, hws⟩ := List.forall_mem_cons.1 h
    have hwrite := progress_write hw
    exact hwrite.trans (ih fun w' hw' ↦ (hws w' hw').along hwrite)

/-- A customer under the pending writes. -/
theorem find_view (h : ∀ w ∈ ws, JobWrite w) (hc : c ∈ d.db.customers.rows) :
    (audited.view ws d).db.customers.find c.id =
      some (flaggedBy (ws.filterMap marked) (ws.filterMap blockedBy) c) := by
  refine Table.find_eq_some.2 ⟨?_, rfl⟩
  rw [(rows_view h).2]
  exact List.mem_map_of_mem hc

/-- A customer that is not among the blocked ones meets the rule as it did before. -/
theorem applies_flaggedBy (h : rule.Applies c) (hblocks : c.id ∉ blocks) :
    rule.Applies (flaggedBy marks blocks c) := by
  have hactive : (flaggedBy marks blocks c).is_active = true := by
    simp [flaggedBy, hblocks, active_of_applies h]
  cases rule with
  | overdue tenantId cutoff =>
    obtain ⟨htenant, hoverdue, -, hrest⟩ := h
    refine ⟨htenant, ?_, hactive, hrest⟩
    simp [flaggedBy, hoverdue]
  | onLimit => exact ⟨h.1, hactive, h.2.2⟩

theorem applies_of_flaggedBy (h : rule.Applies (flaggedBy [] blocks c)) :
    rule.Applies c ∧ c.id ∉ blocks := by
  have hactive : c.is_active = true ∧ c.id ∉ blocks := by
    simpa [flaggedBy] using active_of_applies h
  cases rule with
  | overdue tenantId cutoff =>
    obtain ⟨htenant, hoverdue, -, hrest⟩ := h
    refine ⟨⟨htenant, ?_, hactive.1, hrest⟩, hactive.2⟩
    simpa [flaggedBy] using hoverdue
  | onLimit => exact ⟨⟨h.1, hactive.1, h.2.2⟩, hactive.2⟩

theorem marked_of_blocks (h : ∀ w ∈ ws, Blocks w) : ws.filterMap marked = [] :=
  List.filterMap_eq_nil_iff.2 fun w hw ↦ by
    obtain ⟨id, rfl⟩ := h w hw
    rfl

end Writes

/-! ## What a run attains -/

section Program

variable {env : AuditEnv} {today : Date} {d d' : AuditedDb} {ws : List AuditedWrite} {α : Type}
  {ids : List Uuid} {rule : BlockRule} {f : Unit → AuditedScript α} {Q : α → AuditedDb → Prop}

/-- The `UPDATE` of the marks reaches all that were to be marked when it began. -/
theorem attains_markCustomers
    (hids : ∀ id ∈ ids, Warranted today d.db (.on (.markOverdue id)))
    (hws : ∀ w ∈ ws, Warranted today d.db w)
    (hremaining : ∀ c ∈ d.db.customers.rows, c.IsCandidate today →
      c.id ∈ ids ∨ c.id ∈ ws.filterMap marked)
    (h : ∀ d' ws', Proceeds today d d' → (∀ w ∈ ws', Warranted today d'.db w) →
      (∀ c ∈ d'.db.customers.rows, c.IsCandidate today → c.id ∈ ws'.filterMap marked) →
        (f ()).Attains audited (Proceeds today) Q ws' d') :
    (bulkUpdate (markCustomers ids) >>= f).Attains audited (Proceeds today) Q ws d := by
  induction ids generalizing d ws with
  | nil =>
    refine h d ws (Progress.refl today d.db) hws fun c hc hcandidate ↦ ?_
    exact (hremaining c hc hcandidate).resolve_left List.not_mem_nil
  | cons id ids ih =>
    simp only [markCustomers, query, Prog.issue_bind, bulkUpdate_stmt, Prog.stmt_bind]
    intro d' hR r ws' hexec
    obtain rfl : (if ((audited.view ws d').db.customers.find id).isSome
        then [Write.markOverdue id] else []).map .on = ws' :=
      congrArg Prod.snd (Except.ok.inj hexec)
    have hdue : ∀ w ∈ ws, Warranted today d'.db w := fun w hw ↦ (hws w hw).along hR
    have hjob : ∀ w ∈ ws, JobWrite w := fun w hw ↦ (hdue w hw).jobWrite
    refine ih (fun id' hid' ↦ (hids id' (List.mem_cons_of_mem _ hid')).along hR) (fun w hw ↦ ?_)
      (fun c hc hcandidate ↦ ?_) fun d'' ws'' hR' ↦ h d'' ws'' (hR.trans hR')
    · rcases List.mem_append.1 hw with hw | hw
      · exact hdue w hw
      · split at hw
        · obtain rfl := List.mem_singleton.1 hw
          exact (hids id List.mem_cons_self).along hR
        · cases hw
    · rw [List.filterMap_append]
      obtain ⟨c₀, hc₀, hmoves⟩ := hR.exists_of_mem hc
      rcases hremaining c₀ hc₀ (hmoves.candidate hcandidate) with hid | hid
      · rcases List.mem_cons.1 hid with hid | hid
        · -- the row is still there, so it is marked now
          have hfound : ((audited.view ws d').db.customers.find id).isSome := by
            rw [← hid, ← hmoves.id_eq, find_view hjob hc]
            rfl
          rw [if_pos hfound, hmoves.id_eq, hid]
          exact Or.inr (List.mem_append_right _ List.mem_cons_self)
        · exact Or.inl (hmoves.id_eq ▸ hid)
      · exact Or.inr (List.mem_append_left _ (hmoves.id_eq ▸ hid))

/-- So does an `UPDATE` that blocks customers, if nobody is to be marked any more. -/
theorem attains_blockEach (hmarked : AllMarked today d.db) (hrule : rule ∈ rulesOf today d.db)
    (hblocks : ∀ w ∈ ws, Blocks w) (hws : ∀ w ∈ ws, Warranted today d.db w)
    (hremaining : ∀ c ∈ d.db.customers.rows, rule.Applies c →
      c.id ∈ ids ∨ c.id ∈ ws.filterMap blockedBy)
    (h : ∀ d' ws', Proceeds today d d' → (∀ w ∈ ws', Blocks w) →
      (∀ w ∈ ws', Warranted today d'.db w) →
      (∀ c ∈ d'.db.customers.rows, rule.Applies c → c.id ∈ ws'.filterMap blockedBy) →
        (f ()).Attains audited (Proceeds today) Q ws' d') :
    (bulkUpdate (blockEach rule ids) >>= f).Attains audited (Proceeds today) Q ws d := by
  induction ids generalizing d ws with
  | nil =>
    refine h d ws (Progress.refl today d.db) hblocks hws fun c hc happlies ↦ ?_
    exact (hremaining c hc happlies).resolve_left List.not_mem_nil
  | cons id ids ih =>
    simp only [blockEach, query, Prog.issue_bind, bulkUpdate_stmt, Prog.stmt_bind]
    intro d' hR r ws' hexec
    obtain rfl : (if (((audited.view ws d').db.customers.find id).filter
        fun c ↦ rule.Applies c).isSome then [Write.blockCustomer id] else []).map .on = ws' :=
      congrArg Prod.snd (Except.ok.inj hexec)
    have hdue : ∀ w ∈ ws, Warranted today d'.db w := fun w hw ↦ (hws w hw).along hR
    have hjob : ∀ w ∈ ws, JobWrite w := fun w hw ↦ (hdue w hw).jobWrite
    have hview : ∀ c ∈ d'.db.customers.rows, (audited.view ws d').db.customers.find c.id =
        some (flaggedBy [] (ws.filterMap blockedBy) c) := fun c hc ↦ by
      rw [find_view hjob hc, marked_of_blocks hblocks]
    refine ih (hmarked.progress hR) (rulesOf_eq hR.tenants ▸ hrule) (fun w hw ↦ ?_) (fun w hw ↦ ?_)
      (fun c hc happlies ↦ ?_) fun d'' ws'' hR' ↦ h d'' ws'' (hR.trans hR')
    · rcases List.mem_append.1 hw with hw | hw
      · exact hblocks w hw
      · split at hw
        · exact ⟨id, List.mem_singleton.1 hw⟩
        · cases hw
    · rcases List.mem_append.1 hw with hw | hw
      · exact hdue w hw
      · split at hw
        · rename_i hfound
          obtain rfl := List.mem_singleton.1 hw
          refine .block fun c hc hid _ ↦ ⟨rule, rulesOf_eq hR.tenants ▸ hrule, applies_fated ?_⟩
          rw [← hid, hview c hc] at hfound
          exact (applies_of_flaggedBy (by simpa using hfound)).1
        · cases hw
    · rw [List.filterMap_append]
      obtain ⟨c₀, hc₀, hmoves⟩ := hR.exists_of_mem hc
      have happlies₀ := hmoves.applies (allMarked_iff.1 hmarked c₀ hc₀) happlies
      by_cases hpending : c.id ∈ ws.filterMap blockedBy
      · exact Or.inr (List.mem_append_left _ hpending)
      rcases hremaining c₀ hc₀ happlies₀ with hid | hid
      · rcases List.mem_cons.1 hid with hid | hid
        · -- the row still meets the condition, so it is blocked now
          have hfound : (((audited.view ws d').db.customers.find id).filter
              fun c ↦ rule.Applies c).isSome := by
            rw [← hid, ← hmoves.id_eq, hview c hc]
            simpa using applies_flaggedBy happlies hpending
          rw [if_pos hfound, hmoves.id_eq, hid]
          exact Or.inr (List.mem_append_right _ List.mem_cons_self)
        · exact Or.inl (hmoves.id_eq ▸ hid)
      · exact (hpending (hmoves.id_eq ▸ hid)).elim

/-- Afterwards the condition holds of nobody. -/
theorem attains_blockCustomers (hmarked : AllMarked today d.db) (hrule : rule ∈ rulesOf today d.db)
    (h : ∀ d', Proceeds today d d' → Exhausted d'.db rule →
      (f ()).Attains audited (Proceeds today) Q [] d') :
    (bulkUpdate (blockCustomers env.toEnv rule) >>= f).Attains audited (Proceeds today) Q [] d := by
  simp only [blockCustomers, query, Prog.issue_bind, bulkUpdate_stmt, Prog.stmt_bind]
  intro d₁ hR₁ r ws hexec
  obtain ⟨hids, rfl⟩ := Prod.mk.inj (Except.ok.inj hexec)
  dsimp only
  rw [bulkUpdate, subscribed_bind, Prog.bind_assoc]
  refine attains_blockEach (hmarked.progress hR₁) (rulesOf_eq hR₁.tenants ▸ hrule)
    (fun w hw ↦ (List.not_mem_nil hw).elim) (fun w hw ↦ (List.not_mem_nil hw).elim)
    (fun c hc happlies ↦ Or.inl ?_) fun d₂ ws hR₂ hblocks hdue hall ↦ ?_
  · rw [(env.scan_perm _).mem_iff, ← hids]
    exact List.mem_map_of_mem (List.mem_filter.2 ⟨hc, decide_eq_true happlies⟩)
  · intro d₃ hR₃
    have hdue₃ : ∀ w ∈ ws, Warranted today d₃.db w := fun w hw ↦ (hdue w hw).along hR₃
    have hview := progress_view hdue₃
    refine ⟨hview, h _ ((hR₁.trans hR₂).trans (hR₃.trans hview)) fun c hc happlies ↦ ?_⟩
    rw [(rows_view fun w hw ↦ (hdue₃ w hw).jobWrite).2, marked_of_blocks hblocks] at hc
    obtain ⟨c₃, hc₃, rfl⟩ := List.mem_map.1 hc
    obtain ⟨happlies₃, hnotin⟩ := applies_of_flaggedBy happlies
    obtain ⟨c₂, hc₂, hmoves⟩ := hR₃.exists_of_mem hc₃
    have hmarked₂ := allMarked_iff.1 ((hmarked.progress hR₁).progress hR₂) c₂ hc₂
    exact hnotin (hmoves.id_eq ▸ hall c₂ hc₂ (hmoves.applies hmarked₂ happlies₃))

/-- The tasks settle the conditions of all updates among them. -/
theorem attains_runTasks {tasks : List OverdueTask} (hmarked : AllMarked today d.db)
    (hrules : ∀ rule, .block rule ∈ tasks → rule ∈ rulesOf today d.db)
    (hremaining : ∀ rule ∈ rulesOf today d.db, .block rule ∈ tasks ∨ Exhausted d.db rule)
    (h : ∀ d', Proceeds today d d' → (∀ rule ∈ rulesOf today d.db, Exhausted d'.db rule) →
      (f ()).Attains audited (Proceeds today) Q [] d') :
    (runTasks env tasks >>= f).Attains audited (Proceeds today) Q [] d := by
  induction tasks generalizing d with
  | nil =>
    refine h d (Progress.refl today d.db) fun rule hrule ↦ ?_
    exact (hremaining rule hrule).resolve_left List.not_mem_nil
  | cons task tasks ih =>
    -- what is left for the remaining tasks, wherever the others have brought the database
    have hnext : ∀ d', Proceeds today d d' → (∀ rule, task = .block rule → Exhausted d'.db rule) →
        (runTasks env tasks >>= f).Attains audited (Proceeds today) Q [] d' := by
      intro d' hR hdone
      have hsame : rulesOf today d'.db = rulesOf today d.db := rulesOf_eq hR.tenants
      refine ih (hmarked.progress hR) (fun rule hrule ↦ ?_) (fun rule hrule ↦ ?_)
        fun d'' hR' hall ↦ h d'' (hR.trans hR') (hsame ▸ hall)
      · exact hsame ▸ hrules rule (List.mem_cons_of_mem _ hrule)
      · rcases hremaining rule (hsame ▸ hrule) with htask | hexhausted
        · exact (List.mem_cons.1 htask).elim (fun heq ↦ Or.inr (hdone rule heq.symm)) Or.inl
        · exact Or.inr (hexhausted.progress hmarked hR)
    cases task with
    | report row =>
      simp only [runTasks, Prog.issue_bind, Prog.stmt_bind, Prog.commitTransaction_bind,
        Prog.commit_bind]
      intro d₁ hR₁ r ws hexec
      obtain rfl : [.insertAuditLogs [row]] = ws := congrArg Prod.snd (Except.ok.inj hexec)
      intro d₂ hR₂
      have hview : Proceeds today d₂ (audited.view [.insertAuditLogs [row]] d₂) :=
        progress_view fun w hw ↦ List.mem_singleton.1 hw ▸ .logs [row]
      refine ⟨hview, hnext _ ((hR₁.trans hR₂).trans hview) fun rule heq ↦ ?_⟩
      cases heq
    | block rule =>
      simp only [runTasks, Prog.bind_assoc]
      refine attains_blockCustomers hmarked (hrules rule List.mem_cons_self) fun d' hR hdone ↦ ?_
      refine hnext d' hR fun rule' heq ↦ ?_
      cases heq
      exact hdone

end Program

/-- What holds, once a run that began in `d` has answered `n`. -/
structure Settles (today : Date) (d : AuditedDb) (n : ℕ) (d' : AuditedDb) : Prop where
  marked : AllMarked today d'.db
  busy : n ≠ 0 → ¬AllMarked today d.db
  blocked : n ≠ 0 → ∀ rule ∈ rulesOf today d.db, Exhausted d'.db rule

theorem attains_overdueRun {env : AuditEnv} {today : Date}
    {schedule : List OverdueTask → List OverdueTask}
    (hschedule : ∀ tasks, (schedule tasks).Perm tasks) (d : AuditedDb) :
    (overdueRun env schedule today).Attains audited (Proceeds today) (Settles today d) [] d := by
  simp only [overdueRun, Prog.issue_bind]
  intro d₁ hR₁ customers ws hexec
  obtain ⟨hcustomers, rfl⟩ := Prod.mk.inj (Except.ok.inj hexec)
  have hload : ∀ c, c ∈ customers ↔ c ∈ d₁.db.customers.rows ∧ c.IsCandidate today := by
    intro c
    rw [← hcustomers]
    simp
  dsimp only
  split
  · rename_i hnone
    have hmarked : AllMarked today d₁.db := allMarked_iff.2 fun c hc hcandidate ↦ by
      have hmem := (hload c).2 ⟨hc, hcandidate⟩
      rw [hnone] at hmem
      exact List.not_mem_nil hmem
    exact fun d₂ hR₂ ↦ ⟨hmarked.progress hR₂, fun hn ↦ absurd rfl hn, fun hn ↦ absurd rfl hn⟩
  rename_i hsome
  have hbusy : ¬AllMarked today d.db := fun hmarked ↦ by
    obtain ⟨c, hc⟩ := List.exists_mem_of_ne_nil _ hsome
    exact allMarked_iff.1 (hmarked.progress hR₁) c ((hload c).1 hc).1 ((hload c).1 hc).2
  refine attains_markCustomers (fun id hid ↦ .mark fun c hc hid' ↦ ?_)
    (fun w hw ↦ (List.not_mem_nil hw).elim) (fun c hc hcandidate ↦ Or.inl ?_)
    fun d₂ ws hR₂ hdue hall ↦ ?_
  · rw [(env.scan_perm _).mem_iff] at hid
    obtain ⟨c₁, hc₁, rfl⟩ := List.mem_map.1 hid
    obtain rfl := List.inj_on_of_nodup_map d₁.db.customers.nodup hc ((hload c₁).1 hc₁).1 hid'
    exact fated_eq_true.2 (Or.inr ((hload c).1 hc₁).2)
  · rw [(env.scan_perm _).mem_iff]
    exact List.mem_map_of_mem ((hload c).2 ⟨hc, hcandidate⟩)
  intro d₃ hR₃
  have hdue₃ : ∀ w ∈ ws, Warranted today d₃.db w := fun w hw ↦ (hdue w hw).along hR₃
  have hview : Proceeds today d₃ (audited.view ws d₃) := progress_view hdue₃
  have hmarked : AllMarked today (audited.view ws d₃).db := by
    rw [allMarked_iff, (rows_view fun w hw ↦ (hdue₃ w hw).jobWrite).2]
    intro c hc hcandidate
    obtain ⟨c₃, hc₃, rfl⟩ := List.mem_map.1 hc
    have hunmarked : c₃.is_overdue = false ∧ c₃.id ∉ ws.filterMap marked := by
      simpa [flaggedBy] using hcandidate.2.2
    obtain ⟨c₂, hc₂, hmoves⟩ := hR₃.exists_of_mem hc₃
    have hcandidate₃ : c₃.IsCandidate today := ⟨hcandidate.1, hcandidate.2.1, hunmarked.1⟩
    exact hunmarked.2 (hmoves.id_eq ▸ hall c₂ hc₂ (hmoves.candidate hcandidate₃))
  refine ⟨hview, ?_⟩
  intro d₄ hR₄ tenants ws' hexec'
  obtain ⟨htenants, rfl⟩ := Prod.mk.inj (Except.ok.inj hexec')
  have hrules : blockRules today tenants = rulesOf today d₄.db := by
    rw [← htenants]
    rfl
  have hR : Proceeds today d d₄ := ((hR₁.trans hR₂).trans (hR₃.trans hview)).trans hR₄
  have htask : ∀ rule, OverdueTask.block rule ∈ schedule (customers.map
      (fun c ↦ .report (markOverdueLog env c)) ++ (blockRules today tenants).map .block) ↔
        rule ∈ rulesOf today d₄.db := by
    intro rule
    rw [(hschedule _).mem_iff, hrules]
    simp
  refine attains_runTasks (hmarked.progress hR₄) (fun rule hrule ↦ (htask rule).1 hrule)
    (fun rule hrule ↦ Or.inl ((htask rule).2 hrule)) fun d₅ hR₅ hall ↦ ?_
  intro d₆ hR₆
  have hmarked₅ := (hmarked.progress hR₄).progress hR₅
  refine ⟨hmarked₅.progress hR₆, fun _ ↦ hbusy, fun _ rule hrule ↦ ?_⟩
  refine (hall rule ?_).progress hmarked₅ hR₆
  exact rulesOf_eq hR.tenants ▸ hrule

/-! ## What all runs leave -/

abbrev JobSys (ι : Type) :=
  Sys ι AuditedSql AuditedSql.Ans AuditedDb AuditedWrite LockName ServiceError ℕ

/-- The customer after a run by itself that has found somebody to mark. -/
def concluded (today : Date) (rules : List BlockRule) (c : Customer) : Customer :=
  { fated today c with
    is_active := c.is_active && !decide (∃ rule ∈ rules, rule.Applies (fated today c)) }

theorem eq_map_of_forall₂ {α β : Type} {R : α → β → Prop} {f : α → β} {l : List α} {l' : List β}
    (h : List.Forall₂ R l l') (hf : ∀ a, ∀ b ∈ l', R a b → b = f a) : l' = l.map f := by
  induction h with
  | nil => rfl
  | cons hab _ ih =>
    rw [List.map_cons, ← hf _ _ List.mem_cons_self hab,
      ← ih fun a b hb ↦ hf a b (List.mem_cons_of_mem _ hb)]

theorem fated_of_not_candidate {today : Date} {c : Customer} (h : ¬c.IsCandidate today) :
    fated today c = c := by
  simp [fated, h]

theorem Moves.eq_concluded {today : Date} {rules : List BlockRule} {c c' : Customer}
    (h : Moves today rules c c') (hmarked : ¬c'.IsCandidate today)
    (hblocked : ∀ rule ∈ rules, ¬rule.Applies c') : c' = concluded today rules c := by
  have hfated := fated_of_not_candidate hmarked
  have hoverdue : c'.is_overdue = (fated today c).is_overdue := by
    rw [← h.fated_overdue, hfated]
  have hactive : c'.is_active =
      (c.is_active && !decide (∃ rule ∈ rules, rule.Applies (fated today c))) := by
    cases hnow : c'.is_active with
    | true =>
      have hthen := h.active hnow
      rw [← h.fated_eq (hnow.trans hthen.symm), hfated, hthen, decide_eq_false]
      · rfl
      · rintro ⟨rule, hrule, happlies⟩
        exact hblocked rule hrule happlies
    | false =>
      cases hthen : c.is_active with
      | true => rw [decide_eq_true (h.blocked hthen hnow)]; rfl
      | false => rfl
  rw [h.rest, hoverdue, hactive]
  rfl

/-- Where nobody is left to be marked or blocked, it can be told what has happened. -/
theorem Progress.rows_eq {today : Date} {d d' : Db} (h : Progress today d d')
    (hmarked : AllMarked today d') (hblocked : ∀ rule ∈ rulesOf today d, Exhausted d' rule) :
    d'.customers.rows = d.customers.rows.map (concluded today (rulesOf today d)) :=
  eq_map_of_forall₂ h.customers fun _ c hc hmoves ↦
    hmoves.eq_concluded (allMarked_iff.1 hmarked c hc) fun rule hrule ↦ hblocked rule hrule c hc

/-- Every run has answered, or has failed and committed nothing; at least one has answered. -/
structure Ended {ι : Type} [DecidableEq ι] (s : JobSys ι) : Prop where
  each : ∀ i, (s.outcome i).isSome
  failed : ∀ i e, s.outcome i = some (.error e) → s.wrote i = []
  one : ∃ i n, s.outcome i = some (.ok n)

/-- What the run has answered; nothing is processed by a run that fails. -/
def processed {ι : Type} (s : JobSys ι) (i : ι) : ℕ :=
  match s.outcome i with
  | some (.ok n) => n
  | _ => 0

/-- The customers whose mark was set on the way. -/
def newlyMarked (d d' : Db) : List Customer :=
  d.customers.rows.filter fun c ↦ c.is_overdue = false ∧
    ∃ c' ∈ d'.customers.rows, c'.id = c.id ∧ c'.is_overdue = true

section Runs

variable {ι : Type} [DecidableEq ι] {env : ι → AuditEnv}
  {schedule : ι → List OverdueTask → List OverdueTask} {today : Date} {d : AuditedDb}
  {es : List (Event ι)} {s : JobSys ι} {known : List Uuid}

/-- These runs of the job under a schedule. -/
def overlapping (env : ι → AuditEnv) (schedule : ι → List OverdueTask → List OverdueTask)
    (today : Date) (d : AuditedDb) (es : List (Event ι)) : JobSys ι :=
  audited.run (Sys.start d fun i ↦ overdueRun (env i) (schedule i) today) es

theorem tallies_nil : Tallies known 0 [] where
  count := rfl
  nodup := List.nodup_nil
  marks _ hid := (List.not_mem_nil hid).elim
  reports _ := rfl
  writes _ hw := (List.not_mem_nil hw).elim
  nothing _ := rfl

/-- Each of the runs accounts for its marks. -/
theorem tallies_overlapping (hschedule : ∀ i tasks, (schedule i tasks).Perm tasks)
    (hended : Ended (overlapping env schedule today d es)) (i : ι) :
    Tallies (d.db.customers.rows.map (·.id)) (processed (overlapping env schedule today d es) i)
      ((overlapping env schedule today d es).wrote i) := by
  have hstart : (Sys.start d fun i ↦ overdueRun (env i) (schedule i) today : JobSys ι).Records
      audited (HasCustomers (d.db.customers.rows.map (·.id)))
      fun _ ↦ Tallies (d.db.customers.rows.map (·.id)) :=
    .start rfl fun i ↦ wrote_overdueRun fun tasks ↦ (hschedule i tasks).filterMap _
  have hrecords := hstart.run es
  unfold processed
  cases hout : (overlapping env schedule today d es).outcome i with
  | none => exact absurd (hended.each i) (by rw [hout]; decide)
  | some out =>
    cases out with
    | ok n => exact hrecords.wrote_of_outcome hout
    | error e =>
      rw [hended.failed i e hout]
      exact tallies_nil

theorem attains_overlapping (hschedule : ∀ i tasks, (schedule i tasks).Perm tasks) :
    (overlapping env schedule today d es).Attains audited (Proceeds today) (Settles today d) ∧
      Proceeds today d (overlapping env schedule today d es).db := by
  have hstart : (Sys.start d fun i ↦ overdueRun (env i) (schedule i) today : JobSys ι).Attains
      audited (Proceeds today) (Settles today d) :=
    .start fun i ↦ attains_overdueRun (hschedule i) d
  exact ⟨hstart.run es, hstart.rel_run es⟩

theorem written_eq_nil (h : ∀ i, s.wrote i = []) : s.written = [] :=
  List.eq_nil_iff_forall_not_mem.2 fun w hw ↦ by
    obtain ⟨i, hi⟩ := Sys.exists_wrote hw
    rw [h i] at hi
    exact List.not_mem_nil hi

/-- The customers at the end are the same for all runs of the job and all schedules. -/
theorem rows_overlapping (hschedule : ∀ i tasks, (schedule i tasks).Perm tasks)
    (hended : Ended (overlapping env schedule today d es)) :
    (AllMarked today d.db →
      (overlapping env schedule today d es).db.db.customers.rows = d.db.customers.rows) ∧
    (¬AllMarked today d.db → (overlapping env schedule today d es).db.db.customers.rows =
      d.db.customers.rows.map (concluded today (rulesOf today d.db))) := by
  obtain ⟨hattains, hprogress⟩ : (overlapping env schedule today d es).Attains audited
      (Proceeds today) (Settles today d) ∧
        Proceeds today d (overlapping env schedule today d es).db := attains_overlapping hschedule
  have hidle : (∀ i, processed (overlapping env schedule today d es) i = 0) →
      (overlapping env schedule today d es).db = d := by
    intro hzero
    have hnone := written_eq_nil fun i ↦ (tallies_overlapping hschedule hended i).nothing (hzero i)
    have hdb : (overlapping env schedule today d es).db =
        audited.view (overlapping env schedule today d es).written d :=
      Engine.run_written d _ es
    rw [hdb, hnone]
    rfl
  have hsettles : ∀ i n, (overlapping env schedule today d es).outcome i = some (.ok n) →
      Settles today d n (overlapping env schedule today d es).db := fun i n ho ↦
    hattains.of_outcome ho
  constructor
  · intro hmarked
    rw [hidle fun i ↦ ?_]
    unfold processed
    split
    · rename_i n ho
      exact not_not.1 fun hn ↦ (hsettles i n ho).busy hn hmarked
    · rfl
  · intro hbusy
    obtain ⟨i₀, n₀, ho₀⟩ := hended.one
    have hmarked := (hsettles i₀ n₀ ho₀).marked
    obtain ⟨i, hi⟩ : ∃ i, processed (overlapping env schedule today d es) i ≠ 0 := by
      by_contra hnone
      refine hbusy ?_
      rwa [hidle fun i ↦ not_not.1 fun hi ↦ hnone ⟨i, hi⟩] at hmarked
    refine hprogress.rows_eq hmarked fun rule hrule ↦ ?_
    unfold processed at hi
    split at hi
    · rename_i n ho
      exact (hsettles i n ho).blocked hi rule hrule
    · exact absurd rfl hi

/-! ## Marks, audit rows and counts -/

/-- Nobody with this identifier is marked. -/
def Unmarked (d : Db) (id : Uuid) : Prop := ∀ c ∈ d.customers.rows, c.id = id → c.is_overdue = false

instance (d : Db) (id : Uuid) : Decidable (Unmarked d id) :=
  inferInstanceAs (Decidable (∀ c ∈ d.customers.rows, _))

/-- Whom the writes mark is not marked yet. -/
def MarksUnmarked (ws : List AuditedWrite) (d : AuditedDb) : Prop :=
  ∀ id ∈ ws.filterMap marked, Unmarked d.db id

instance (ws : List AuditedWrite) (d : AuditedDb) : Decidable (MarksUnmarked ws d) :=
  inferInstanceAs (Decidable (∀ id ∈ ws.filterMap marked, _))

/-- The writes keep a customer unmarked exactly when they do not mark it. -/
theorem unmarked_view {ws : List AuditedWrite} {id : Uuid} (h : ∀ w ∈ ws, JobWrite w)
    (hid : id ∈ d.db.customers.rows.map (·.id)) :
    Unmarked (audited.view ws d).db id ↔ Unmarked d.db id ∧ id ∉ ws.filterMap marked := by
  unfold Unmarked
  rw [(rows_view h).2]
  constructor
  · intro hview
    have hboth : ∀ c ∈ d.db.customers.rows, c.id = id →
        c.is_overdue = false ∧ id ∉ ws.filterMap marked := fun c hc hcid ↦ by
      simpa [flaggedBy, hcid] using hview _ (List.mem_map_of_mem hc) hcid
    obtain ⟨c, hc, hcid⟩ := List.mem_map.1 hid
    exact ⟨fun c hc hcid ↦ (hboth c hc hcid).1, (hboth c hc hcid).2⟩
  · rintro ⟨hunmarked, hnotin⟩ c hc hcid
    obtain ⟨c₀, hc₀, rfl⟩ := List.mem_map.1 hc
    have hcid₀ : c₀.id = id := hcid
    simp [flaggedBy, hunmarked c₀ hc₀ hcid₀, hcid₀, hnotin]

omit [DecidableEq ι] in
/-- Every commit marks only unmarked customers exactly when nobody is marked twice. -/
theorem atCommits_iff {log : List (ι × List AuditedWrite)}
    (hjob : ∀ x ∈ log, ∀ w ∈ x.2, JobWrite w) (hnodup : ∀ x ∈ log, (x.2.filterMap marked).Nodup)
    (hmarks : ∀ x ∈ log, ∀ id ∈ x.2.filterMap marked, id ∈ d.db.customers.rows.map (·.id)) :
    audited.AtCommits MarksUnmarked d log ↔
      ((log.flatMap Prod.snd).filterMap marked).Nodup ∧
        ∀ id ∈ (log.flatMap Prod.snd).filterMap marked, Unmarked d.db id := by
  induction log generalizing d with
  | nil =>
    exact ⟨fun _ ↦ ⟨List.nodup_nil, fun _ hid ↦ (List.not_mem_nil hid).elim⟩, fun _ ↦ trivial⟩
  | cons x log ih =>
    obtain ⟨hjobx, hjob⟩ := List.forall_mem_cons.1 hjob
    obtain ⟨hnodupx, hnodup⟩ := List.forall_mem_cons.1 hnodup
    obtain ⟨hmarksx, hmarks⟩ := List.forall_mem_cons.1 hmarks
    have hids : (audited.view x.2 d).db.customers.rows.map (·.id) =
        d.db.customers.rows.map (·.id) := by
      rw [(rows_view hjobx).2, List.map_map]
      rfl
    have hrest : ∀ id ∈ (log.flatMap Prod.snd).filterMap marked,
        id ∈ d.db.customers.rows.map (·.id) := fun id hid ↦ by
      obtain ⟨w, hw, hwid⟩ := List.mem_filterMap.1 hid
      obtain ⟨y, hy, hw⟩ := List.mem_flatMap.1 hw
      exact hmarks y hy id (List.mem_filterMap.2 ⟨w, hw, hwid⟩)
    rw [Engine.AtCommits, ih hjob hnodup (hids ▸ hmarks), List.flatMap_cons, List.filterMap_append,
      List.nodup_append']
    constructor
    · rintro ⟨hx, hlog, hall⟩
      have hsplit := fun id hid ↦ (unmarked_view hjobx (hrest id hid)).1 (hall id hid)
      refine ⟨⟨hnodupx, hlog, fun id hid hid' ↦ (hsplit id hid').2 hid⟩, fun id hid ↦ ?_⟩
      exact (List.mem_append.1 hid).elim (hx id) fun hid ↦ (hsplit id hid).1
    · rintro ⟨⟨-, hlog, hdisjoint⟩, hall⟩
      refine ⟨fun id hid ↦ hall id (List.mem_append_left _ hid), hlog, fun id hid ↦ ?_⟩
      exact (unmarked_view hjobx (hrest id hid)).2
        ⟨hall id (List.mem_append_right _ hid), fun hid' ↦ hdisjoint hid' hid⟩

theorem rows_written (es : List (Event ι)) : (overlapping env schedule today d es).db =
    audited.view (overlapping env schedule today d es).written d :=
  Engine.run_written d _ es

theorem writes_overlapping (hschedule : ∀ i tasks, (schedule i tasks).Perm tasks)
    (hended : Ended (overlapping env schedule today d es)) :
    ∀ w ∈ (overlapping env schedule today d es).written, JobWrite w := fun w hw ↦ by
  obtain ⟨i, hi⟩ := Sys.exists_wrote hw
  exact (tallies_overlapping hschedule hended i).writes w hi

/-- Whom the runs have marked, and who was not marked before. -/
theorem newlyMarked_overlapping (hschedule : ∀ i tasks, (schedule i tasks).Perm tasks)
    (hended : Ended (overlapping env schedule today d es)) :
    newlyMarked d.db (overlapping env schedule today d es).db.db =
      d.db.customers.rows.filter fun c ↦ c.is_overdue = false ∧
        c.id ∈ (overlapping env schedule today d es).written.filterMap marked := by
  unfold newlyMarked
  rw [rows_written, (rows_view (writes_overlapping hschedule hended)).2]
  refine List.filter_congr fun c hc ↦ ?_
  rw [decide_eq_decide]
  refine and_congr_right fun hunmarked ↦ ⟨?_, fun hid ↦ ?_⟩
  · rintro ⟨c', hc', hid, hmark⟩
    obtain ⟨c₁, hc₁, rfl⟩ := List.mem_map.1 hc'
    obtain rfl := List.inj_on_of_nodup_map d.db.customers.nodup hc₁ hc hid
    simpa [flaggedBy, hunmarked] using hmark
  · refine ⟨_, List.mem_map_of_mem hc, rfl, ?_⟩
    simp [flaggedBy, hid]

variable [Fintype ι]

theorem sum_processed (hschedule : ∀ i tasks, (schedule i tasks).Perm tasks)
    (hended : Ended (overlapping env schedule today d es)) :
    ∑ i, processed (overlapping env schedule today d es) i =
      ((overlapping env schedule today d es).written.filterMap marked).length := by
  rw [Sys.sum_wrote _ (f := fun ws ↦ (ws.filterMap marked).length) fun ws ws' ↦ by
    rw [List.filterMap_append, List.length_append]]
  exact Finset.sum_congr rfl fun i _ ↦ (tallies_overlapping hschedule hended i).count.symm

/-- Every mark that was made is in the audit log. -/
theorem countP_auditLogs (hschedule : ∀ i tasks, (schedule i tasks).Perm tasks)
    (hended : Ended (overlapping env schedule today d es)) (id : Uuid) :
    (overlapping env schedule today d es).db.auditLogs.countP (fun row ↦ ReportsMark id row) =
      d.auditLogs.countP (fun row ↦ ReportsMark id row) +
        ((overlapping env schedule today d es).written.filterMap marked).count id := by
  rw [rows_written, auditLogs_view, List.countP_append]
  congr 1
  rw [Sys.sum_wrote _ (f := fun ws ↦ (ws.filterMap marked).count id) fun ws ws' ↦ by
      rw [List.filterMap_append, List.count_append],
    Sys.sum_wrote _ (f := fun ws ↦ (ws.flatMap AuditedWrite.logs).countP
      fun row ↦ ReportsMark id row) fun ws ws' ↦ by rw [List.flatMap_append, List.countP_append]]
  exact Finset.sum_congr rfl fun i _ ↦ (tallies_overlapping hschedule hended i).reports id

/-- The counts of the runs add up exactly when every mark was the first one of its customer. -/
theorem counted_iff (hschedule : ∀ i tasks, (schedule i tasks).Perm tasks)
    (hended : Ended (overlapping env schedule today d es)) :
    ∑ i, processed (overlapping env schedule today d es) i =
        (newlyMarked d.db (overlapping env schedule today d es).db.db).length ↔
      ((overlapping env schedule today d es).written.filterMap marked).Nodup ∧
        ∀ id ∈ (overlapping env schedule today d es).written.filterMap marked,
          Unmarked d.db id := by
  rw [sum_processed hschedule hended, newlyMarked_overlapping hschedule hended]
  have hknown : ∀ id ∈ (overlapping env schedule today d es).written.filterMap marked,
      id ∈ d.db.customers.rows.map (·.id) := fun id hid ↦ by
    obtain ⟨w, hw, hwid⟩ := List.mem_filterMap.1 hid
    obtain ⟨i, hi⟩ := Sys.exists_wrote hw
    exact (tallies_overlapping hschedule hended i).marks id (List.mem_filterMap.2 ⟨w, hi, hwid⟩)
  generalize (overlapping env schedule today d es).written.filterMap marked = marks at hknown ⊢
  set changed := (d.db.customers.rows.filter fun c ↦ c.is_overdue = false ∧ c.id ∈ marks).map (·.id)
    with hchanged
  have hmem : ∀ id, id ∈ changed ↔
      ∃ c ∈ d.db.customers.rows, c.id = id ∧ c.is_overdue = false ∧ id ∈ marks := by
    intro id
    rw [hchanged, List.mem_map]
    constructor
    · rintro ⟨c, hc, rfl⟩
      obtain ⟨hc, hparts⟩ := List.mem_filter.1 hc
      exact ⟨c, hc, rfl, of_decide_eq_true hparts⟩
    · rintro ⟨c, hc, rfl, hparts⟩
      exact ⟨c, List.mem_filter.2 ⟨hc, decide_eq_true hparts⟩, rfl⟩
  have hnodup : changed.Nodup := (List.filter_sublist.map _).nodup d.db.customers.nodup
  have hsubset : changed ⊆ marks := fun id hid ↦ ((hmem id).1 hid).elim fun _ h ↦ h.2.2.2
  have hcount : (d.db.customers.rows.filter fun c ↦ c.is_overdue = false ∧ c.id ∈ marks).length =
      changed.length := (List.length_map _).symm
  rw [hcount]
  constructor
  · intro hlength
    have hperm := (hnodup.subperm hsubset).perm_of_length_le hlength.le
    refine ⟨hperm.nodup_iff.1 hnodup, fun id hid c hc hcid ↦ ?_⟩
    obtain ⟨c', hc', hcid', hunmarked, -⟩ := (hmem id).1 (hperm.mem_iff.2 hid)
    obtain rfl := List.inj_on_of_nodup_map d.db.customers.nodup hc hc' (hcid.trans hcid'.symm)
    exact hunmarked
  · rintro ⟨hmarks, hunmarked⟩
    refine List.Perm.length_eq <| (List.perm_ext_iff_of_nodup hmarks hnodup).2 fun id ↦
      ⟨fun hid ↦ ?_, fun hid ↦ ?_⟩
    · obtain ⟨c, hc, hcid⟩ := List.mem_map.1 (hknown id hid)
      exact (hmem id).2 ⟨c, hc, hcid, hunmarked id hid c hc hcid, hid⟩
    · exact hsubset hid

/-! ## No harm -/

/-- What overlapping runs of one day are to leave behind. -/
structure Harmless (today : Date) (d : AuditedDb) (s : JobSys ι) : Prop where
  reported : ∀ c ∈ newlyMarked d.db s.db.db,
    s.db.auditLogs.countP (fun row ↦ ReportsMark c.id row) =
      d.auditLogs.countP (fun row ↦ ReportsMark c.id row) + 1
  /-- The customers are those that any run by itself leaves. -/
  single : ∀ (env : AuditEnv) (schedule : List OverdueTask → List OverdueTask)
    (es : List (Event Unit)) (n : ℕ), (∀ tasks, (schedule tasks).Perm tasks) →
      (overlapping (fun _ ↦ env) (fun _ ↦ schedule) today d es).outcome () = some (.ok n) →
        (overlapping (fun _ ↦ env) (fun _ ↦ schedule) today d es).db.db.customers =
          s.db.db.customers
  counted : ∑ i, processed s i = (newlyMarked d.db s.db.db).length

theorem ended_unit {s : JobSys Unit} {n : ℕ} (h : s.outcome () = some (.ok n)) : Ended s where
  each _ := Option.isSome_iff_exists.2 ⟨_, h⟩
  failed _ e he := by
    cases h.symm.trans he
  one := ⟨(), n, h⟩

theorem harmless_iff (hschedule : ∀ i tasks, (schedule i tasks).Perm tasks)
    (hended : Ended (overlapping env schedule today d es)) :
    Harmless today d (overlapping env schedule today d es) ↔
      audited.AtCommits MarksUnmarked d (overlapping env schedule today d es).log := by
  have hwrote := tallies_overlapping hschedule hended
  have hsub : ∀ x ∈ (overlapping env schedule today d es).log, (x.2.filterMap marked).Sublist
      (((overlapping env schedule today d es).wrote x.1).filterMap marked) := fun x hx ↦
    (Sys.sublist_wrote hx).filterMap _
  rw [atCommits_iff (fun x hx w hw ↦ (hwrote x.1).writes w ((Sys.sublist_wrote hx).subset hw))
    (fun x hx ↦ (hsub x hx).nodup (hwrote x.1).nodup)
    fun x hx id hid ↦ (hwrote x.1).marks id ((hsub x hx).subset hid)]
  have hcounted := counted_iff hschedule hended
  refine ⟨fun h ↦ hcounted.1 h.counted, fun hmarks ↦ ⟨fun c hc ↦ ?_, ?_, hcounted.2 hmarks⟩⟩
  · rw [newlyMarked_overlapping hschedule hended] at hc
    have hid := (of_decide_eq_true (List.mem_filter.1 hc).2).2
    rw [countP_auditLogs hschedule hended]
    exact congrArg _ (List.count_eq_one_of_mem hmarks.1 hid)
  · intro env₁ schedule₁ es₁ n hschedule₁ ho
    obtain ⟨hidle₁, hbusy₁⟩ := rows_overlapping (fun _ ↦ hschedule₁) (ended_unit ho)
    obtain ⟨hidle, hbusy⟩ := rows_overlapping hschedule hended
    refine Table.ext ?_
    by_cases hmarked : AllMarked today d.db
    · rw [hidle₁ hmarked, hidle hmarked]
    · rw [hbusy₁ hmarked, hbusy hmarked]

end Runs

/-- The environment of a run on day 14. -/
def jobEnv (i : Fin 2) : AuditEnv :=
  { sampleEnv (20 + i) with
    auditId := fun id _ ↦ id
    isoText := fun _ ↦ "" }

/-- Two runs on day 14, one customer having broken a promise. -/
def twoRuns (es : List (Event (Fin 2))) : JobSys (Fin 2) :=
  overlapping jobEnv (fun _ ↦ id) 14 ⟨promised false, []⟩ es

/-- One run after the other. -/
def afterEachOther : JobSys (Fin 2) := twoRuns (inTurn [(0, 20), (1, 20)])

/-- Both runs select the customer before one of them marks it. -/
def atOnce : JobSys (Fin 2) := twoRuns (inTurn [(0, 1), (1, 1), (0, 20), (1, 20)])

theorem ended_of_outcomes {s : JobSys (Fin 2)} {m n : ℕ} (h₀ : s.outcome 0 = some (.ok m))
    (h₁ : s.outcome 1 = some (.ok n)) : Ended s where
  each := by
    intro i
    match i with
    | 0 => exact Option.isSome_iff_exists.2 ⟨_, h₀⟩
    | 1 => exact Option.isSome_iff_exists.2 ⟨_, h₁⟩
  failed := by
    intro i e he
    match i with
    | 0 => cases h₀.symm.trans he
    | 1 => cases h₁.symm.trans he
  one := ⟨0, m, h₀⟩

theorem ended_afterEachOther : Ended afterEachOther :=
  ended_of_outcomes (m := 1) (n := 0) (by decide +kernel) (by decide +kernel)

theorem harmless_afterEachOther :
    newlyMarked (promised false) afterEachOther.db.db ≠ [] ∧
      Harmless 14 ⟨promised false, []⟩ afterEachOther :=
  ⟨by decide +kernel, (harmless_iff (fun _ tasks ↦ .refl tasks) ended_afterEachOther).2
    (by decide +kernel)⟩

/-- Both runs count and report the customer. -/
theorem marked_by_both : Reachable (promised false) ∧ Ended atOnce ∧
    (newlyMarked (promised false) atOnce.db.db).length = 1 ∧
      (processed atOnce 0 = 1 ∧ processed atOnce 1 = 1) ∧ atOnce.db.auditLogs.length = 2 ∧
        ¬Harmless 14 ⟨promised false, []⟩ atOnce :=
  ⟨reachable_promised false,
    ended_of_outcomes (m := 1) (n := 1) (by decide +kernel) (by decide +kernel),
    by decide +kernel, by decide +kernel, by decide +kernel,
    fun h ↦ absurd h.counted (by decide +kernel)⟩

end MicroErp.Guarantees
