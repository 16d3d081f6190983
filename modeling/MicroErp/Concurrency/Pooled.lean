import MicroErp.Concurrency.Outline

/-!
# Statements on a connection of their own

A program may issue a statement outside its transaction, on another connection of the pool.  The
statement reads what is committed, waits for every conflicting lock, also for one of the program's
own transaction, and commits at once.
-/

namespace MicroErp.Concurrency

variable {ι Op : Type} {Ans : Op → Type} {D W L ε α : Type} [DecidableEq L]

/-- One of the locks conflicts with one of `req`. -/
def Obstructs (lk req : List (L × LockMode)) : Prop :=
  ∃ l ∈ lk, ∃ r ∈ req, l.1 = r.1 ∧ l.2.conflicts r.2 = true

instance (lk req : List (L × LockMode)) : Decidable (Obstructs lk req) :=
  inferInstanceAs (Decidable (∃ l ∈ lk, ∃ r ∈ req, l.1 = r.1 ∧ l.2.conflicts r.2 = true))

variable [DecidableEq ι] (E : Engine Op Ans D W L ε) (outside : Op → Bool)

/-- The next statement of session `i` goes through another connection and waits for a lock that the
session's own transaction holds. -/
def Sys.WaitsForItself (s : Sys ι Op Ans D W L ε α) (i : ι) : Prop :=
  ∃ o k ws, s.session i = .running (.stmt o k) ws ∧ outside o = true ∧
    Obstructs (s.locksOf i) (E.needs o s.db)

/-- The next statement of session `i`, which is not in its transaction if it is `outside`. -/
def Engine.stepPooled (s : Sys ι Op Ans D W L ε α) (i : ι) : Sys ι Op Ans D W L ε α :=
  match s.session i with
  | .running (.stmt o k) ws =>
      if outside o then
        if Obstructs (s.held.map Prod.snd) (E.needs o s.db) then s
        else
          match E.exec o s.db with
          | .error e => s.set i (.running (.fail e) ws)
          | .ok (r, ws') =>
              { s.set i (.running (k r) ws) with
                db := E.view ws' s.db
                log := s.log ++ [(i, ws')] }
      else E.stepSession s i
  | _ => E.stepSession s i

def Engine.pooledStep (s : Sys ι Op Ans D W L ε α) : Event ι → Sys ι Op Ans D W L ε α
  | .step i => E.stepPooled outside s i
  | .abort i => E.abortSession s i

def Engine.pooledRun (s : Sys ι Op Ans D W L ε α) (es : List (Event ι)) : Sys ι Op Ans D W L ε α :=
  es.foldl (E.pooledStep outside) s

/-- Every statement of the run that is not waiting meets what `allow` assumes of its view. -/
def Engine.PooledMeets (allow : ι → Op → D → Prop) :
    Sys ι Op Ans D W L ε α → List (Event ι) → Prop
  | _, [] => True
  | s, e :: es =>
      (∀ i o k ws, e = .step i → s.session i = .running (.stmt o k) ws →
        s.blocked i (E.needs o (E.view ws s.db)) = false → allow i o (E.view ws s.db)) ∧
      Engine.PooledMeets allow (E.pooledStep outside s e) es

/-- Whether a concrete run meets what is assumed can be computed. -/
instance Engine.decidablePooledMeets (allow : ι → Op → D → Prop)
    [∀ i o v, Decidable (allow i o v)] : ∀ (s : Sys ι Op Ans D W L ε α) (es : List (Event ι)),
      Decidable (Engine.PooledMeets E outside allow s es)
  | _, [] => isTrue trivial
  | s, .abort i :: es =>
    have := decidablePooledMeets allow (E.pooledStep outside s (.abort i)) es
    decidable_of_iff (Engine.PooledMeets E outside allow (E.pooledStep outside s (.abort i)) es)
      ⟨fun h ↦ ⟨fun _ _ _ _ he ↦ (by cases he), h⟩, fun h ↦ h.2⟩
  | s, .step i :: es =>
    have := decidablePooledMeets allow (E.pooledStep outside s (.step i)) es
    match h : s.session i with
    | .running (.stmt o k) ws =>
      decidable_of_iff ((s.blocked i (E.needs o (E.view ws s.db)) = false →
          allow i o (E.view ws s.db)) ∧
            Engine.PooledMeets E outside allow (E.pooledStep outside s (.step i)) es) <| by
        refine and_congr_left fun _ ↦ ⟨fun hnow j o' k' ws' he hs hfree ↦ ?_, fun hall ↦
          hall i o k ws rfl h⟩
        cases he
        cases h.symm.trans hs
        exact hnow hfree
    | .running (.ret _) _ | .running (.fail _) _ | .running (.commit _) _ | .finished _ =>
      decidable_of_iff (Engine.PooledMeets E outside allow (E.pooledStep outside s (.step i)) es) <| by
        refine ⟨fun hrest ↦ ⟨fun j o' k' ws' he hs ↦ ?_, hrest⟩, fun h ↦ h.2⟩
        cases he
        cases h.symm.trans hs

variable {E outside}

theorem Engine.pooledRun_append (s : Sys ι Op Ans D W L ε α) (es es' : List (Event ι)) :
    E.pooledRun outside s (es ++ es') = E.pooledRun outside (E.pooledRun outside s es) es' :=
  List.foldl_append

theorem Engine.pooledMeets_append {allow : ι → Op → D → Prop} {es es' : List (Event ι)} :
    ∀ {s : Sys ι Op Ans D W L ε α}, E.PooledMeets outside allow s (es ++ es') ↔
      E.PooledMeets outside allow s es ∧
        E.PooledMeets outside allow (E.pooledRun outside s es) es' := by
  induction es with
  | nil => simp [PooledMeets, pooledRun]
  | cons e es ih =>
    intro s
    simp only [List.cons_append, PooledMeets, ih, pooledRun, List.foldl_cons, and_assoc]

/-- What holds of each statement that meets what is assumed may be assumed too. -/
theorem Engine.PooledMeets.of_prefix {allow allow' : ι → Op → D → Prop} {es : List (Event ι)}
    {s : Sys ι Op Ans D W L ε α} (h : E.PooledMeets outside allow s es)
    (h' : ∀ es' i o k ws, es' ++ [.step i] <+: es →
      (E.pooledRun outside s es').session i = .running (.stmt o k) ws →
        allow i o (E.view ws (E.pooledRun outside s es').db) →
          allow' i o (E.view ws (E.pooledRun outside s es').db)) :
    E.PooledMeets outside allow' s es := by
  induction es generalizing s with
  | nil => trivial
  | cons e es ih =>
    refine ⟨fun i o k ws he hs hfree ↦ ?_, ih h.2 fun es' i o k ws hes' hs ↦ ?_⟩
    · subst he
      exact h' [] i o k ws ((List.prefix_cons_inj _).2 List.nil_prefix) hs (h.1 i o k ws rfl hs hfree)
    · exact h' (e :: es') i o k ws ((List.prefix_cons_inj e).2 hes') hs

/-! ## A session that waits for itself -/

section Waiting

variable {s : Sys ι Op Ans D W L ε α} {i : ι}

omit [DecidableEq L] in
theorem Sys.obstructs_of_own {req : List (L × LockMode)} (h : Obstructs (s.locksOf i) req) :
    Obstructs (s.held.map Prod.snd) req := by
  obtain ⟨l, hl, hreq⟩ := h
  exact ⟨l, List.mem_map.2 ⟨(i, l), Sys.mem_locksOf.1 hl, rfl⟩, hreq⟩

/-- A session that waits for itself goes on waiting. -/
theorem Sys.WaitsForItself.stepPooled (h : s.WaitsForItself E outside i) :
    E.stepPooled outside s i = s := by
  obtain ⟨o, k, ws, hs, houtside, hwaits⟩ := h
  unfold Engine.stepPooled
  simp only [hs, houtside, if_true, if_pos (Sys.obstructs_of_own hwaits)]

theorem Sys.WaitsForItself.run (h : s.WaitsForItself E outside i) (n : ℕ) :
    E.pooledRun outside s (List.replicate n (.step i)) = s := by
  induction n with
  | zero => rfl
  | succ n ih =>
    rw [List.replicate_succ, Engine.pooledRun, List.foldl_cons]
    change E.pooledRun outside (E.stepPooled outside s i) (List.replicate n (.step i)) = s
    rw [h.stepPooled, ih]

end Waiting

/-- The statement of a session that holds all the locks is executed. -/
theorem Engine.stepPooled_alone {o : Op} {k : Ans o → Prog Op Ans ε α} {ws ws' : List W} {r : Ans o}
    {s : Sys ι Op Ans D W L ε α} {i : ι} (hheld : ∀ x ∈ s.held, x.1 = i)
    (hs : s.session i = .running (.stmt o k) ws) (hinside : outside o = false)
    (hexec : E.exec o (E.view ws s.db) = .ok (r, ws')) :
    ∃ s', E.pooledStep outside s (.step i) = s' ∧ s'.session i = .running (k r) (ws ++ ws') ∧
      s'.db = s.db ∧ s'.held = s.held ++ (E.needs o (E.view ws s.db)).map fun l ↦ (i, l) := by
  have hfree : s.blocked i (E.needs o (E.view ws s.db)) = false := by
    rw [Sys.blocked, List.any_eq_false]
    intro x hx
    simp [hheld x hx]
  refine ⟨_, rfl, ?_⟩
  simp only [Engine.pooledStep, Engine.stepPooled, hs, hinside, Bool.false_eq_true, if_false,
    Engine.stepSession, hfree, hexec, Sys.set_session, if_true, true_and]
  exact ⟨rfl, trivial⟩

/-! ## Runs in which the statements outside wait for themselves -/

/-- A statement outside meets a lock that the session holds. -/
def WaitsOutside (E : Engine Op Ans D W L ε) (outside : Op → Bool) (lk : List (L × LockMode))
    (_ : List W) (o : Op) (_ : D) : Prop :=
  outside o = true → ∀ d, Obstructs lk (E.needs o d)

section Runs

variable {s : Sys ι Op Ans D W L ε α} {e : Event ι}

/-- As long as each statement outside waits for its own session, an event is one of the engine. -/
theorem Sys.Along.pooled_move (h : s.Along E (fun _ ↦ True) (WaitsOutside E outside)) :
    E.Move s e (E.pooledStep outside s e) := by
  cases e with
  | abort i => exact E.step_move s (.abort i)
  | step i =>
    have hstep := E.step_move s (.step i)
    cases hs : s.session i with
    | finished out =>
      have heq : E.pooledStep outside s (.step i) = E.step s (.step i) := by
        simp only [Engine.pooledStep, Engine.stepPooled, hs, Engine.step]
      rwa [heq]
    | running p ws =>
      cases p with
      | stmt o k =>
        by_cases houtside : outside o = true
        · have hwaits := (h hs s.db trivial).1 houtside s.db
          have heq : E.pooledStep outside s (.step i) = s :=
            Sys.WaitsForItself.stepPooled ⟨o, k, ws, hs, houtside, hwaits⟩
          rw [heq]
          exact .stay _
        · have heq : E.pooledStep outside s (.step i) = E.step s (.step i) := by
            simp only [Engine.pooledStep, Engine.stepPooled, hs, houtside, if_false, Engine.step,
              Bool.false_eq_true]
          rwa [heq]
      | _ =>
        have heq : E.pooledStep outside s (.step i) = E.step s (.step i) := by
          simp only [Engine.pooledStep, Engine.stepPooled, hs, Engine.step]
        rwa [heq]

theorem Sys.Along.pooledRun (h : s.Along E (fun _ ↦ True) (WaitsOutside E outside))
    (es : List (Event ι)) :
    (E.pooledRun outside s es).Along E (fun _ ↦ True) (WaitsOutside E outside) := by
  induction es generalizing s with
  | nil => exact h
  | cons e es ih => exact ih (h.move (fun _ _ _ _ ↦ trivial) h.pooled_move)

/-- What else holds along the programs holds at every statement of the run. -/
theorem Sys.Along.along_pooledRun {R : List (L × LockMode) → List W → Op → D → Prop}
    (h : s.Along E (fun _ ↦ True) (WaitsOutside E outside)) (h' : s.Along E (fun _ ↦ True) R)
    (es : List (Event ι)) : (E.pooledRun outside s es).Along E (fun _ ↦ True) R := by
  induction es generalizing s with
  | nil => exact h'
  | cons e es ih =>
    exact ih (h.move (fun _ _ _ _ ↦ trivial) h.pooled_move)
      (h'.move (fun _ _ _ _ ↦ trivial) h.pooled_move)

variable {C : ι → Contract Op D W L α} {foot : W → List (L × LockMode)}

theorem Sound.pooledRun (hs : Sound E C foot s) (hC : Compatible E C foot)
    (halong : s.Along E (fun _ ↦ True) (WaitsOutside E outside)) {es : List (Event ι)}
    (hmeets : E.PooledMeets outside (fun i ↦ (C i).allow) s es) :
    Sound E C foot (E.pooledRun outside s es) := by
  induction es generalizing s with
  | nil => exact hs
  | cons e es ih =>
    have hmove := halong.pooled_move (e := e)
    exact ih (hs.move hC hmove hmeets.1) (halong.move (fun _ _ _ _ ↦ trivial) hmove) hmeets.2

end Runs

/-! ## Programs that never commit -/

/-- The program fails, or it comes to a statement outside that waits for its own session. -/
def Prog.Withheld (E : Engine Op Ans D W L ε) (outside : Op → Bool) :
    Prog Op Ans ε α → List (L × LockMode) → Prop
  | .ret _, _ => False
  | .fail _, _ => True
  | .stmt o k, lk =>
      if outside o then ∀ d, Obstructs lk (E.needs o d)
      else ∀ v r ws, E.exec o v = .ok (r, ws) → (k r).Withheld E outside (lk ++ E.needs o v)
  | .commit _, _ => False

/-- Session `i` has failed or will not get to a commit. -/
def Sys.Withheld (E : Engine Op Ans D W L ε) (outside : Op → Bool) (s : Sys ι Op Ans D W L ε α)
    (i : ι) : Prop :=
  match s.session i with
  | .running p _ => p.Withheld E outside (s.locksOf i)
  | .finished (.ok _) => False
  | .finished (.error _) => True

section Withheld

variable {s s' : Sys ι Op Ans D W L ε α} {e : Event ι} {i : ι}

omit [DecidableEq L] in
theorem Sys.Withheld.of_eq (h : s.Withheld E outside i) (hsession : s'.session i = s.session i)
    (hlocks : s'.locksOf i = s.locksOf i) : s'.Withheld E outside i := by
  unfold Sys.Withheld at h ⊢
  rwa [hsession, hlocks]

/-- Such a session neither commits nor answers. -/
theorem Sys.Withheld.move (h : s.Withheld E outside i)
    (hinside : ∀ o k ws, e = .step i → s.session i = .running (.stmt o k) ws → outside o = false)
    (hmove : E.Move s e s') :
    s'.Withheld E outside i ∧ s'.log.filter (·.1 = i) = s.log.filter (·.1 = i) := by
  have hset : ∀ (j : ι) x, i ≠ j → (s.set j x).session i = s.session i := fun j x hij ↦ by
    rw [Sys.set_session, if_neg hij]
  cases hmove with
  | stay => exact ⟨h, rfl⟩
  | @answer j a ws hj =>
    by_cases hij : i = j
    · subst hij
      unfold Sys.Withheld at h
      rw [hj] at h
      exact h.elim
    · refine ⟨h.of_eq (hset j _ hij) ?_, rfl⟩
      rw [Sys.locksOf_of_released s _ rfl, if_neg hij]
  | @rollback j a ws hj =>
    by_cases hij : i = j
    · subst hij
      refine ⟨?_, rfl⟩
      unfold Sys.Withheld
      simp [Sys.set_session]
    · refine ⟨h.of_eq (hset j _ hij) ?_, rfl⟩
      rw [Sys.locksOf_of_released s _ rfl, if_neg hij]
  | @refuse j o k ws a hj =>
    by_cases hij : i = j
    · subst hij
      refine ⟨?_, rfl⟩
      unfold Sys.Withheld
      simp [Sys.set_session, Prog.Withheld]
    · exact ⟨h.of_eq (hset j _ hij) rfl, rfl⟩
  | @execute j o k ws r ws' hj hfree hexec =>
    by_cases hij : i = j
    · subst hij
      refine ⟨?_, rfl⟩
      have houtside := hinside o k ws rfl hj
      unfold Sys.Withheld at h ⊢
      rw [hj] at h
      simp only [Sys.set_session, if_true]
      rw [Sys.locksOf_of_append s _ rfl, if_pos rfl]
      simp only [Prog.Withheld, houtside, Bool.false_eq_true, if_false] at h
      exact h _ r ws' hexec
    · refine ⟨h.of_eq (hset j _ hij) ?_, rfl⟩
      rw [Sys.locksOf_of_append s _ rfl, if_neg hij, List.append_nil]
  | @commit j k ws hj =>
    by_cases hij : i = j
    · subst hij
      unfold Sys.Withheld at h
      rw [hj] at h
      exact h.elim
    · refine ⟨h.of_eq (hset j _ hij) ?_, ?_⟩
      · rw [Sys.locksOf_of_released s _ rfl, if_neg hij]
      · simp [List.filter_append, Ne.symm hij]
  | @abort j p ws hj =>
    by_cases hij : i = j
    · subst hij
      refine ⟨?_, rfl⟩
      unfold Sys.Withheld
      simp [Sys.set_session, Prog.Withheld]
    · exact ⟨h.of_eq (hset j _ hij) rfl, rfl⟩

theorem Sys.Withheld.pooledStep (h : s.Withheld E outside i)
    (halong : s.Along E (fun _ ↦ True) (WaitsOutside E outside)) :
    (E.pooledStep outside s e).Withheld E outside i ∧
      (E.pooledStep outside s e).log.filter (·.1 = i) = s.log.filter (·.1 = i) := by
  by_cases hwaits : e = .step i ∧ s.WaitsForItself E outside i
  · obtain ⟨rfl, hwaits⟩ := hwaits
    have hstay : E.pooledStep outside s (.step i) = s := hwaits.stepPooled
    rw [hstay]
    exact ⟨h, rfl⟩
  · refine h.move (fun o k ws he hs ↦ ?_) halong.pooled_move
    by_contra houtside
    have houtside : outside o = true := by simpa using houtside
    exact hwaits ⟨he, o, k, ws, hs, houtside, (halong hs s.db trivial).1 houtside s.db⟩

theorem Sys.Withheld.pooledRun (h : s.Withheld E outside i)
    (halong : s.Along E (fun _ ↦ True) (WaitsOutside E outside)) (es : List (Event ι)) :
    (E.pooledRun outside s es).Withheld E outside i ∧
      (E.pooledRun outside s es).log.filter (·.1 = i) = s.log.filter (·.1 = i) := by
  induction es generalizing s with
  | nil => exact ⟨h, rfl⟩
  | cons e es ih =>
    obtain ⟨hnext, hlog⟩ := h.pooledStep (e := e) halong
    obtain ⟨hend, hlog'⟩ := ih hnext (halong.move (fun _ _ _ _ ↦ trivial) halong.pooled_move)
    exact ⟨hend, hlog'.trans hlog⟩

end Withheld

end MicroErp.Concurrency
