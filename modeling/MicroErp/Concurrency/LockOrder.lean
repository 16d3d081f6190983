import MicroErp.Concurrency.Dataflow
import Mathlib.Logic.Relation
import Mathlib.Data.Set.Finite.Basic
import Mathlib.Order.WellFounded

/-!
# Lock orders

A session waits for another when its next statement needs a lock that conflicts with one which the
other holds.  If locks have heights and a statement needs only locks above those of its session, no
sessions wait for each other in a circle: `Sys.Ordered.no_cycle`.  Three kinds of locks need no
height: those that nobody else wants, those already held in a mode as strong, and those of one
height that are taken under a common guard.
-/

namespace MicroErp.Concurrency

variable {ι Op : Type} {Ans : Op → Type} {D W L H ε α β : Type}

/-- What conflicts with `m'` conflicts with `m`. -/
def LockMode.covers (m m' : LockMode) : Prop := ∀ m'', m'.conflicts m'' = true → m.conflicts m'' = true

theorem LockMode.update_covers (m : LockMode) : LockMode.update.covers m := by
  intro m'' _
  cases m'' <;> rfl

theorem LockMode.covers_refl (m : LockMode) : m.covers m := fun _ h ↦ h

/-! ## Waiting -/

section Waiting

variable [DecidableEq ι] (E : Engine Op Ans D W L ε) (s : Sys ι Op Ans D W L ε α)

/-- The next statement of session `i` needs the lock. -/
def Sys.Asks (i : ι) (x : L × LockMode) : Prop :=
  ∃ o k ws, s.session i = .running (.stmt o k) ws ∧ x ∈ E.needs o (E.view ws s.db)

/-- Session `i` waits for `j` to release the lock. -/
def Sys.WaitsAt (l : L) (i j : ι) : Prop :=
  i ≠ j ∧ ∃ m m', s.Asks E i (l, m) ∧ (l, m') ∈ s.locksOf j ∧ m.conflicts m' = true

def Sys.WaitsFor (i j : ι) : Prop := ∃ l, s.WaitsAt E l i j

/-- Session `i` holds the lock or asks for it. -/
def Sys.Touches (i : ι) (x : L × LockMode) : Prop := s.Asks E i x ∨ x ∈ s.locksOf i

end Waiting

/-- How high a lock stands, and the lock that guards several of one height. -/
structure LockOrder (L H : Type) where
  height : L → H
  guard : L → L

/-- A session with these locks may wait for `x`; `idle` are the locks that nobody else wants. -/
def LockOrder.Fits [LT H] (O : LockOrder L H) (idle : L × LockMode → Prop)
    (lk : List (L × LockMode)) (x : L × LockMode) : Prop :=
  idle x ∨ (∃ m, (x.1, m) ∈ lk ∧ m.covers x.2) ∨
    ∀ y ∈ lk, idle y ∨ O.height y.1 < O.height x.1 ∨
      (O.height y.1 = O.height x.1 ∧ O.guard y.1 = O.guard x.1 ∧ (O.guard x.1, .update) ∈ lk)

/-- Everybody asks for locks in the order. -/
structure Sys.Ordered [DecidableEq ι] [LT H] (E : Engine Op Ans D W L ε) (O : LockOrder L H)
    (idle : ι → L × LockMode → Prop) (s : Sys ι Op Ans D W L ε α) : Prop where
  apart : ∀ i j, i ≠ j → Separate (s.locksOf i) (s.locksOf j)
  fits : ∀ i x, s.Asks E i x → O.Fits (idle i) (s.locksOf i) x
  idle : ∀ {i j l m m'}, i ≠ j → idle i (l, m) → s.Touches E i (l, m) → s.Touches E j (l, m') →
    m.conflicts m' = false

section Cycles

variable [DecidableEq ι] [PartialOrder H] {E : Engine Op Ans D W L ε} {O : LockOrder L H}
  {idle : ι → L × LockMode → Prop} {s : Sys ι Op Ans D W L ε α}

/-- What a session waits for stands no lower than what others wait for it to release. -/
theorem Sys.Ordered.climbs (h : s.Ordered E O idle) {l l' : L} {i j k : ι} (hij : s.WaitsAt E l i j)
    (hjk : s.WaitsAt E l' j k) :
    O.height l < O.height l' ∨
      (O.height l = O.height l' ∧ O.guard l = O.guard l' ∧ (O.guard l', .update) ∈ s.locksOf j) := by
  obtain ⟨hne, m₁, m₂, hasks, hheld, hconflict⟩ := hij
  obtain ⟨hne', m₃, m₄, hasks', hheld', hconflict'⟩ := hjk
  rcases h.fits j (l', m₃) hasks' with hidle | ⟨m, hm, hcovers⟩ | hfits
  · rw [h.idle hne' hidle (Or.inl hasks') (Or.inr hheld')] at hconflict'
    cases hconflict'
  · have hfree := h.apart j k hne' l' m m₄ hm hheld'
    rw [hcovers m₄ hconflict'] at hfree
    cases hfree
  · rcases hfits (l, m₂) hheld with hidle | hclimbs
    · have hfree := h.idle (Ne.symm hne) hidle (Or.inr hheld) (Or.inl hasks)
      rw [LockMode.conflicts_comm, hconflict] at hfree
      cases hfree
    · exact hclimbs

/-- Along a chain of waiting sessions the locks do not get lower. -/
theorem Sys.Ordered.chain (h : s.Ordered E O idle) {l : L} {i j k : ι} (hij : s.WaitsAt E l i j)
    (hjk : Relation.ReflTransGen (s.WaitsFor E) j k) :
    ∃ l' i', s.WaitsAt E l' i' k ∧ O.height l ≤ O.height l' := by
  induction hjk with
  | refl => exact ⟨l, i, hij, le_refl _⟩
  | tail _ hlast ih =>
    obtain ⟨l', i', hwaits, hle⟩ := ih
    obtain ⟨l'', hlast⟩ := hlast
    refine ⟨l'', _, hlast, hle.trans ?_⟩
    rcases h.climbs hwaits hlast with hlt | ⟨heq, -⟩
    · exact hlt.le
    · exact heq.le

/-- No sessions wait for each other in a circle. -/
theorem Sys.Ordered.no_cycle (h : s.Ordered E O idle) (i : ι) :
    ¬Relation.TransGen (s.WaitsFor E) i i := by
  intro hcycle
  obtain ⟨j, ⟨l, hij⟩, hji⟩ := Relation.TransGen.head'_iff.1 hcycle
  -- whoever waits for `i` waits for a lock no higher than the one `i` waits for
  have hback : ∀ {l' i'}, s.WaitsAt E l' i' i → O.height l' ≤ O.height l := by
    intro l' i' hwaits
    rcases h.climbs hwaits hij with hlt | ⟨heq, -⟩
    · exact hlt.le
    · exact heq.le
  have hguarded : (O.guard l, .update) ∈ s.locksOf i := by
    obtain ⟨l', i', hwaits, hle⟩ := h.chain hij hji
    rcases h.climbs hwaits hij with hlt | ⟨-, -, hguard⟩
    · exact (hlt.not_ge hle).elim
    · exact hguard
  -- the next session of the circle holds the same guard
  rcases Relation.ReflTransGen.cases_head hji with rfl | ⟨k, ⟨l₂, hjk⟩, hki⟩
  · exact hij.1 rfl
  · obtain ⟨l', i', hwaits, hle⟩ := h.chain hjk hki
    rcases h.climbs hij hjk with hlt | ⟨-, hsame, hguard⟩
    · exact (hlt.not_ge (hle.trans (hback hwaits))).elim
    · rw [← hsame] at hguard
      cases h.apart i j hij.1 _ _ _ hguarded hguard

/-- A chain of waiting sessions ends at one that waits for nobody. -/
theorem Sys.Ordered.exists_free (h : s.Ordered E O idle) (i : ι) :
    ∃ j, Relation.ReflTransGen (s.WaitsFor E) i j ∧ ∀ k, ¬s.WaitsFor E j k := by
  classical
  let holders := { j : ι // j ∈ s.held.map Prod.fst }
  have hholds : ∀ {j k}, s.WaitsFor E j k → k ∈ s.held.map Prod.fst := by
    rintro j k ⟨l, -, m, m', -, hheld, -⟩
    exact List.mem_map.2 ⟨(k, l, m'), Sys.mem_locksOf.1 hheld, rfl⟩
  have hfinite : Finite holders := List.finite_toSet _
  let after : holders → holders → Prop := fun b a ↦ Relation.TransGen (s.WaitsFor E) a.1 b.1
  have htrans : IsTrans holders after := ⟨fun _ _ _ hba hcb ↦ hcb.trans hba⟩
  have hirrefl : Std.Irrefl after := ⟨fun a ↦ h.no_cycle a.1⟩
  have hwf : WellFounded after := Finite.wellFounded_of_trans_of_irrefl after
  by_cases hwaits : ∃ j, s.WaitsFor E i j
  · obtain ⟨j, hij⟩ := hwaits
    obtain ⟨a, ha, hmin⟩ := hwf.has_min
      { a : holders | Relation.TransGen (s.WaitsFor E) i a.1 } ⟨⟨j, hholds hij⟩, .single hij⟩
    refine ⟨a.1, ha.to_reflTransGen, fun k hk ↦ ?_⟩
    exact hmin ⟨k, hholds hk⟩ (ha.tail hk) (.single hk)
  · exact ⟨i, .refl, fun k hk ↦ hwaits ⟨k, hk⟩⟩

end Cycles

/-! ## Programs and their locks -/

/-- What a session may need, after its commit (`none`) nothing. -/
def Admits (R : List (L × LockMode) → L × LockMode → Prop) :
    Option (List (L × LockMode)) → List (L × LockMode) → Prop
  | none, needs => needs = []
  | some lk, needs => ∀ x ∈ needs, R lk x

/-- As long as all views meet `I`, each lock that the program needs meets `R` with the locks it holds
by then, and its answer meets `Q` with those it holds at its end. -/
def Prog.Locks (E : Engine Op Ans D W L ε) (I : D → Prop)
    (R : List (L × LockMode) → L × LockMode → Prop)
    (Q : α → Option (List (L × LockMode)) → Prop) :
    Prog Op Ans ε α → Option (List (L × LockMode)) → Prop
  | .ret a, lk => Q a lk
  | .fail _, _ => True
  | .stmt o k, lk => ∀ v, I v → Admits R lk (E.needs o v) ∧
      ∀ r ws, E.exec o v = .ok (r, ws) → (k r).Locks E I R Q (lk.map (· ++ E.needs o v))
  | .commit k, _ => k.Locks E I R Q none

theorem Prog.Locks.bind {E : Engine Op Ans D W L ε} {I : D → Prop}
    {R : List (L × LockMode) → L × LockMode → Prop} {Q : α → Option (List (L × LockMode)) → Prop}
    {Q' : β → Option (List (L × LockMode)) → Prop} {p : Prog Op Ans ε α}
    {f : α → Prog Op Ans ε β} {lk : Option (List (L × LockMode))} (h : p.Locks E I R Q lk)
    (hf : ∀ a lk', Q a lk' → (f a).Locks E I R Q' lk') : (p >>= f).Locks E I R Q' lk := by
  induction p generalizing lk with
  | ret a => exact hf a lk h
  | fail e => trivial
  | stmt o k ih => exact fun v hv ↦ ⟨(h v hv).1, fun r ws hexec ↦ ih r ((h v hv).2 r ws hexec)⟩
  | commit k ih => exact ih h

theorem Prog.Locks.mono {E : Engine Op Ans D W L ε} {I : D → Prop}
    {R : List (L × LockMode) → L × LockMode → Prop} {Q Q' : α → Option (List (L × LockMode)) → Prop}
    {p : Prog Op Ans ε α} {lk : Option (List (L × LockMode))} (h : p.Locks E I R Q lk)
    (hQ : ∀ a lk', Q a lk' → Q' a lk') : p.Locks E I R Q' lk := by
  induction p generalizing lk with
  | ret a => exact hQ a lk h
  | fail e => trivial
  | stmt o k ih => exact fun v hv ↦ ⟨(h v hv).1, fun r ws hexec ↦ ih r ((h v hv).2 r ws hexec)⟩
  | commit k ih => exact ih h

section Runs

variable [DecidableEq ι]

/-- The locks that session `i` holds, `none` when it has made its commit. -/
def Sys.stage (s : Sys ι Op Ans D W L ε α) (i : ι) : Option (List (L × LockMode)) :=
  if s.log.any fun x ↦ x.1 = i then none else some (s.locksOf i)

/-- Locks exclude each other, and every session takes its locks as `R` says, until it has committed
or ended. -/
structure Sys.Locking (E : Engine Op Ans D W L ε) (I : D → Prop)
    (R : ι → List (L × LockMode) → L × LockMode → Prop) (s : Sys ι Op Ans D W L ε α) : Prop where
  apart : ∀ i j, i ≠ j → Separate (s.locksOf i) (s.locksOf j)
  running : ∀ {i p ws}, s.session i = .running p ws →
    p.Locks E I (R i) (fun _ _ ↦ True) (s.stage i)
  /-- Every held lock was asked for. -/
  asked : ∀ {i x}, x ∈ s.locksOf i → ∃ lk, R i lk x
  committed : ∀ {i}, s.stage i = none → s.locksOf i = []
  finished : ∀ {i out}, s.session i = .finished out → s.locksOf i = []

variable {E : Engine Op Ans D W L ε} {I : D → Prop}
  {R : ι → List (L × LockMode) → L × LockMode → Prop} {s s' : Sys ι Op Ans D W L ε α}

theorem Sys.stage_eq_none {i : ι} : s.stage i = none ↔ ∃ x ∈ s.log, x.1 = i := by
  simp [Sys.stage]

theorem Sys.stage_eq_some {i : ι} (h : s.stage i ≠ none) : s.stage i = some (s.locksOf i) := by
  unfold Sys.stage at h ⊢
  split
  · rename_i hany
    rw [if_pos hany] at h
    exact (h rfl).elim
  · rfl

theorem Sys.stage_map {i : ι} {f : List (L × LockMode) → List (L × LockMode)}
    (hlog : s'.log = s.log) (hlocks : s'.locksOf i = f (s.locksOf i)) :
    s'.stage i = (s.stage i).map f := by
  rw [Sys.stage, Sys.stage, hlog, hlocks]
  split <;> rfl

theorem Sys.stage_congr {i : ι} (hlog : s'.log = s.log) (hlocks : s'.locksOf i = s.locksOf i) :
    s'.stage i = s.stage i := by
  rw [Sys.stage, hlog, hlocks]
  rfl

theorem Sys.stage_of_log {i j : ι} {ws : List W} (hlog : s'.log = s.log ++ [(i, ws)])
    (hlocks : s'.locksOf j = s.locksOf j) (hj : j ≠ i) : s'.stage j = s.stage j := by
  have hany : ((s.log ++ [(i, ws)]).any fun x ↦ x.1 = j) = s.log.any fun x ↦ x.1 = j := by
    simp [Ne.symm hj]
  rw [Sys.stage, hlog, hany, hlocks]
  rfl

theorem Sys.Asks.admits {i : ι} {x : L × LockMode} (hasks : s.Asks E i x) (h : s.Locking E I R)
    (hview : ∀ i p ws, s.session i = .running p ws → I (E.view ws s.db)) :
    s.stage i ≠ none ∧ R i (s.locksOf i) x := by
  obtain ⟨o, k, ws, hrun, hx⟩ := hasks
  have hadmits := (h.running hrun _ (hview i _ ws hrun)).1
  have hstage : s.stage i ≠ none := by
    intro hnone
    rw [hnone] at hadmits
    rw [show E.needs o (E.view ws s.db) = [] from hadmits] at hx
    cases hx
  rw [Sys.stage_eq_some hstage] at hadmits
  exact ⟨hstage, hadmits x hx⟩

theorem Sys.Locking.start {d : D} {script : ι → Prog Op Ans ε α}
    (h : ∀ i, (script i).Locks E I (R i) (fun _ _ ↦ True) (some [])) :
    (Sys.start d script : Sys ι Op Ans D W L ε α).Locking E I R where
  apart i j _ l m m' hm := by
    rw [Sys.mem_locksOf] at hm
    cases hm
  running {i p ws} hi := by
    obtain ⟨rfl, rfl⟩ : script i = p ∧ [] = ws := by simpa [Sys.start] using hi
    exact h i
  asked hx := by
    rw [Sys.mem_locksOf] at hx
    cases hx
  committed _ := rfl
  finished hi := by simp [Sys.start] at hi

/-- A step that touches only session `i`. -/
theorem Sys.Locking.update (h : s.Locking E I R) {i : ι}
    (hsession : ∀ j, j ≠ i → s'.session j = s.session j)
    (hlocks : ∀ j, j ≠ i → s'.locksOf j = s.locksOf j)
    (hstage : ∀ j, j ≠ i → s'.stage j = s.stage j)
    (hapart : ∀ j, j ≠ i → Separate (s.locksOf j) (s'.locksOf i))
    (hrunning : ∀ p ws, s'.session i = .running p ws →
      p.Locks E I (R i) (fun _ _ ↦ True) (s'.stage i))
    (hasked : ∀ x ∈ s'.locksOf i, ∃ lk, R i lk x)
    (hcommitted : s'.stage i = none → s'.locksOf i = [])
    (hfinished : ∀ out, s'.session i = .finished out → s'.locksOf i = []) : s'.Locking E I R where
  apart j k hjk := by
    by_cases hj : j = i
    · subst hj
      rw [hlocks k (Ne.symm hjk)]
      exact (hapart k (Ne.symm hjk)).symm
    · rw [hlocks j hj]
      by_cases hk : k = i
      · subst hk
        exact hapart j hj
      · rw [hlocks k hk]
        exact h.apart j k hjk
  running {j p ws} hj' := by
    by_cases hj : j = i
    · subst hj
      exact hrunning p ws hj'
    · rw [hstage j hj]
      exact h.running ((hsession j hj) ▸ hj')
  asked {j x} hx := by
    by_cases hj : j = i
    · subst hj
      exact hasked x hx
    · rw [hlocks j hj] at hx
      exact h.asked hx
  committed {j} hj' := by
    by_cases hj : j = i
    · subst hj
      exact hcommitted hj'
    · rw [hlocks j hj]
      exact h.committed ((hstage j hj) ▸ hj')
  finished {j out} hj' := by
    by_cases hj : j = i
    · subst hj
      exact hfinished out hj'
    · rw [hlocks j hj]
      exact h.finished ((hsession j hj) ▸ hj')

/-- The session goes on without its locks, or with them as they are. -/
theorem Sys.Locking.set (h : s.Locking E I R) {i : ι} {x : Session Op Ans W ε α}
    (hsession : s'.session = (s.set i x).session) (hlog : s'.log = s.log)
    (hlocks : ∀ j, j ≠ i → s'.locksOf j = s.locksOf j)
    (hown : s'.locksOf i = [] ∨ s'.locksOf i = s.locksOf i)
    (hrunning : ∀ p ws, x = .running p ws → p.Locks E I (R i) (fun _ _ ↦ True) (s'.stage i))
    (hfinished : ∀ out, x = .finished out → s'.locksOf i = []) : s'.Locking E I R := by
  have hi : s'.session i = x := by
    rw [hsession, Sys.set_session, if_pos rfl]
  refine h.update (i := i) (fun j hj ↦ ?_) hlocks (fun j hj ↦ Sys.stage_congr hlog (hlocks j hj))
    (fun j hj ↦ ?_) (fun p ws hrun ↦ hrunning p ws (hi ▸ hrun)) (fun x hx ↦ ?_) (fun hnone ↦ ?_)
    fun out hout ↦ hfinished out (hi ▸ hout)
  · rw [hsession, Sys.set_session, if_neg hj]
  · rcases hown with hown | hown
    · rw [hown]
      intro l m m' _ hm'
      cases hm'
    · rw [hown]
      exact h.apart j i hj
  · rcases hown with hown | hown
    · rw [hown] at hx
      cases hx
    · rw [hown] at hx
      exact h.asked hx
  · rcases hown with hown | hown
    · exact hown
    · rw [hown]
      rw [Sys.stage_congr hlog hown] at hnone
      exact h.committed hnone

variable [DecidableEq L]

theorem Sys.Locking.move {e : Event ι} (h : s.Locking E I R)
    (hview : ∀ i p ws, s.session i = .running p ws → I (E.view ws s.db)) (hmove : E.Move s e s') :
    s'.Locking E I R := by
  cases hmove with
  | stay => exact h
  | @answer i a ws hrun =>
    have hlocks := Sys.locksOf_of_released s { s.set i (.finished (.ok a)) with
      held := s.released i } rfl
    refine h.set (i := i) rfl rfl (fun j hj ↦ by rw [hlocks, if_neg hj])
      (Or.inl (by rw [hlocks, if_pos rfl])) (fun p ws hp ↦ by cases hp)
      fun _ _ ↦ by rw [hlocks, if_pos rfl]
  | @rollback i e ws hrun =>
    have hlocks := Sys.locksOf_of_released s { s.set i (.finished (.error e)) with
      held := s.released i } rfl
    refine h.set (i := i) rfl rfl (fun j hj ↦ by rw [hlocks, if_neg hj])
      (Or.inl (by rw [hlocks, if_pos rfl])) (fun p ws hp ↦ by cases hp)
      fun _ _ ↦ by rw [hlocks, if_pos rfl]
  | @refuse i o k ws e hrun hfree hexec =>
    refine h.set (i := i) rfl rfl (fun _ _ ↦ rfl) (Or.inr rfl) (fun p ws' hp ↦ ?_)
      fun out hout ↦ by cases hout
    cases hp
    trivial
  | @abort i p ws hrun =>
    refine h.set (i := i) rfl rfl (fun _ _ ↦ rfl) (Or.inr rfl) (fun p ws' hp ↦ ?_)
      fun out hout ↦ by cases hout
    cases hp
    trivial
  | @execute i o k ws r ws' hrun hfree hexec =>
    have hlocks := Sys.locksOf_of_append s
      { s.set i (.running (k r) (ws ++ ws')) with
        held := s.held ++ (E.needs o (E.view ws s.db)).map fun l ↦ (i, l) } rfl
    have hother : ∀ j, j ≠ i → Sys.locksOf { s.set i (.running (k r) (ws ++ ws')) with
        held := s.held ++ (E.needs o (E.view ws s.db)).map fun l ↦ (i, l) } j = s.locksOf j :=
      fun j hj ↦ by rw [hlocks, if_neg hj, List.append_nil]
    have hnext := h.running hrun _ (hview i _ ws hrun)
    have hstage : Sys.stage { s.set i (.running (k r) (ws ++ ws')) with
        held := s.held ++ (E.needs o (E.view ws s.db)).map fun l ↦ (i, l) } i =
          (s.stage i).map (· ++ E.needs o (E.view ws s.db)) :=
      Sys.stage_map rfl (by rw [hlocks, if_pos rfl])
    refine h.update (i := i) (fun j hj ↦ by simp [Sys.set_session, hj]) hother
      (fun j hj ↦ Sys.stage_congr rfl (hother j hj)) (fun j hj ↦ ?_) (fun p ws'' hp ↦ ?_)
      (fun x hx ↦ ?_) (fun hnone ↦ ?_) fun out hout ↦ by simp [Sys.set_session] at hout
    · rw [hlocks, if_pos rfl]
      intro l m m' hm hm'
      rcases List.mem_append.1 hm' with hm' | hm'
      · exact h.apart j i hj l m m' hm hm'
      · exact Sys.separate_of_not_blocked hfree hj l m m' hm hm'
    · obtain ⟨rfl, -⟩ : k r = p ∧ ws ++ ws' = ws'' := by simpa [Sys.set_session] using hp
      rw [hstage]
      exact hnext.2 r ws' hexec
    · rw [hlocks, if_pos rfl] at hx
      rcases List.mem_append.1 hx with hheld | hneeds
      · exact h.asked hheld
      · exact ⟨_, (Sys.Asks.admits ⟨o, k, ws, hrun, hneeds⟩ h hview).2⟩
    · rw [hstage, Option.map_eq_none_iff] at hnone
      have hneeds := hnext.1
      rw [hnone] at hneeds
      rw [hlocks, if_pos rfl, h.committed hnone, show E.needs o (E.view ws s.db) = [] from hneeds]
      rfl
  | @commit i k ws hrun =>
    have hlocks := Sys.locksOf_of_released s { s.set i (.running k []) with
      db := E.view ws s.db, held := s.released i, log := s.log ++ [(i, ws)] } rfl
    have hother : ∀ j, j ≠ i → Sys.locksOf { s.set i (.running k []) with
        db := E.view ws s.db, held := s.released i, log := s.log ++ [(i, ws)] } j = s.locksOf j :=
      fun j hj ↦ by rw [hlocks, if_neg hj]
    refine h.update (i := i) (fun j hj ↦ by simp [Sys.set_session, hj]) hother
      (fun j hj ↦ Sys.stage_of_log rfl (hother j hj) hj) (fun j hj ↦ ?_) (fun p ws' hp ↦ ?_)
      (fun x hx ↦ by rw [hlocks, if_pos rfl] at hx; cases hx) (fun _ ↦ by rw [hlocks, if_pos rfl])
      fun out hout ↦ by simp [Sys.set_session] at hout
    · rw [hlocks, if_pos rfl]
      intro l m m' _ hm'
      cases hm'
    · obtain ⟨rfl, -⟩ : k = p ∧ [] = ws' := by simpa [Sys.set_session] using hp
      rw [Sys.stage_eq_none.2 ⟨(i, ws), List.mem_append_right _ (List.mem_singleton.2 rfl), rfl⟩]
      exact h.running hrun

theorem Sys.Locking.run (h : s.Locking E I R) (es : List (Event ι))
    (hview : ∀ es' i p ws, (E.run s es').session i = .running p ws →
      I (E.view ws (E.run s es').db)) : (E.run s es).Locking E I R := by
  induction es generalizing s with
  | nil => exact h
  | cons e es ih =>
    exact ih (h.move (hview [] · · ·) (E.step_move s e)) fun es' ↦ hview (e :: es')

end Runs

end MicroErp.Concurrency
