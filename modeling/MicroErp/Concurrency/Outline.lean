import MicroErp.Concurrency.Dataflow

/-!
# Contracts together, and what holds at a statement

Two contracts of one program make one contract, and what the statements of a program write is a
guarantee of its commits.  `Prog.Along` says what holds of the locks at each statement, and
`Engaged` follows a lock from there to the end of its session.
-/

namespace MicroErp.Concurrency

variable {ι Op : Type} {Ans : Op → Type} {D W L ε α : Type}

/-! ## Products of contracts -/

/-- Both contracts at once. -/
def Contract.both (C C' : Contract Op D W L α) : Contract Op D W L α where
  rely lk d d' := C.rely lk d d' ∧ C'.rely lk d d'
  allow o v := C.allow o v ∧ C'.allow o v
  guar lk ws d := C.guar lk ws d ∧ C'.guar lk ws d
  post a d := C.post a d ∧ C'.post a d
  tracked := C.tracked ∧ C'.tracked

section Both

variable {E : Engine Op Ans D W L ε} {C C' : Contract Op D W L α} {p : Prog Op Ans ε α}
  {ws : List W} {lk : List (L × LockMode)} {d : D}

theorem Engine.follows.both {o : Op} {k : Ans o → Prog Op Ans ε α} {r : Ans o} {ws' : List W}
    (h : E.follows C o k r ws ws' lk d) (h' : E.follows C' o k r ws ws' lk d) :
    E.follows (C.both C') o k r ws ws' lk d := by
  rcases h with hsettled | h
  · exact Or.inl hsettled
  rcases h' with hsettled | h'
  · exact Or.inl hsettled
  right
  intro d' hrely hready
  have hready₁ : E.ready C (k r) (ws ++ ws') d' := by
    cases hk : k r with
    | stmt o' k' =>
      rw [hk] at hready
      exact hready.1
    | _ => trivial
  have hready₂ : E.ready C' (k r) (ws ++ ws') d' := by
    cases hk : k r with
    | stmt o' k' =>
      rw [hk] at hready
      exact hready.2
    | _ => trivial
  obtain ⟨hallow, halone⟩ := h d' hrely.1 hready₁
  exact ⟨⟨hallow, (h' d' hrely.2 hready₂).1⟩, halone⟩

theorem Engine.wp_both (h : E.wp C p ws lk d) (h' : E.wp C' p ws lk d) :
    E.wp (C.both C') p ws lk d := by
  induction p generalizing ws lk d with
  | ret a => exact fun d' hrely ↦ ⟨h d' hrely.1, h' d' hrely.2⟩
  | fail e => trivial
  | stmt o k ih =>
    intro d' hrely hallow r ws' hexec
    obtain ⟨hfollows, hnext⟩ := h d' hrely.1 hallow.1 r ws' hexec
    obtain ⟨hfollows', hnext'⟩ := h' d' hrely.2 hallow.2 r ws' hexec
    exact ⟨fun htracked ↦ (hfollows htracked.1).both (hfollows' htracked.2), ih r hnext hnext'⟩
  | commit k ih =>
    intro d' hrely
    obtain ⟨hguar, hend, hnext⟩ := h d' hrely.1
    obtain ⟨hguar', -, hnext'⟩ := h' d' hrely.2
    exact ⟨⟨hguar, hguar'⟩, hend, ih hnext hnext'⟩

/-- A second contract that a program meets because of what its statements write: `N` holds of each
pending write as long as the second contract is relied on. -/
theorem Engine.wp_both_of_safe_under {G : Op → Prop} {A : (o : Op) → Ans o → Prop} {Q : α → Prop}
    {N : D → W → Prop} (foot : W → List (L × LockMode)) (h : E.wp C p ws lk d)
    (hsafe : p.Safe G A Q)
    (hfoot : ∀ {o : Op} {v : D} {r : Ans o} {ws : List W}, E.exec o v = .ok (r, ws) →
      ∀ w ∈ ws, foot w ⊆ E.needs o v)
    (hexec : ∀ {o d ws r ws'}, (∀ w ∈ ws, N d w) → G o → C'.allow o (E.view ws d) →
      E.exec o (E.view ws d) = .ok (r, ws') → A o r ∧ ∀ w ∈ ws', N d w)
    (hstable : ∀ {lk d d' w}, C'.rely lk d d' → foot w ⊆ lk → N d w → N d' w)
    (hws : ∀ w ∈ ws, foot w ⊆ lk ∧ N d w) (htracked : ¬C'.tracked)
    (hguar : ∀ lk ws d, (∀ w ∈ ws, N d w) → C'.guar lk ws d) (hpost : ∀ a d, C'.post a d) :
    E.wp (C.both C') p ws lk d := by
  induction p generalizing ws lk d with
  | ret a => exact fun d' hrely ↦ ⟨h d' hrely.1, hpost a d'⟩
  | fail e => trivial
  | stmt o k ih =>
    intro d' hrely hallow r ws' hok
    have hpending : ∀ w ∈ ws, N d' w := fun w hw ↦ hstable hrely.2 (hws w hw).1 (hws w hw).2
    obtain ⟨hanswer, hwrites⟩ := hexec hpending hsafe.1 hallow.2 hok
    have hnext := (h d' hrely.1 hallow.1 r ws' hok).2
    refine ⟨fun ht ↦ (htracked ht.2).elim, ih r hnext (hsafe.2 r hanswer) fun w hw ↦ ?_⟩
    rcases List.mem_append.1 hw with hw | hw
    · exact ⟨List.subset_append_of_subset_left _ (hws w hw).1, hpending w hw⟩
    · exact ⟨List.subset_append_of_subset_right _ (hfoot hok w hw), hwrites w hw⟩
  | commit k ih =>
    intro d' hrely
    obtain ⟨hg, hend, hnext⟩ := h d' hrely.1
    have hpending : ∀ w ∈ ws, N d' w := fun w hw ↦ hstable hrely.2 (hws w hw).1 (hws w hw).2
    exact ⟨⟨hg, hguar _ _ _ hpending⟩, hend, ih hnext hsafe fun w hw ↦ (List.not_mem_nil hw).elim⟩

/-- What the statements write may not depend on the database. -/
theorem Engine.wp_both_of_safe {G : Op → Prop} {A : (o : Op) → Ans o → Prop} {Q : α → Prop}
    {N : W → Prop} (h : E.wp C p ws lk d) (hsafe : p.Safe G A Q)
    (hexec : ∀ {o v r ws}, G o → E.exec o v = .ok (r, ws) → A o r ∧ ∀ w ∈ ws, N w)
    (hws : ∀ w ∈ ws, N w) (htracked : ¬C'.tracked)
    (hguar : ∀ lk ws d, (∀ w ∈ ws, N w) → C'.guar lk ws d) (hpost : ∀ a d, C'.post a d) :
    E.wp (C.both C') p ws lk d :=
  Engine.wp_both_of_safe_under (N := fun _ ↦ N) (fun _ ↦ []) h hsafe
    (fun _ _ _ ↦ List.nil_subset _) (fun _ hG _ hok ↦ hexec hG hok) (fun _ _ hw ↦ hw)
    (fun w hw ↦ ⟨List.nil_subset _, hws w hw⟩) htracked hguar hpost

theorem Compatible.both {C C' : ι → Contract Op D W L α} {foot : W → List (L × LockMode)}
    (h : Compatible E C foot) (h' : Compatible E C' foot) :
    Compatible E (fun i ↦ (C i).both (C' i)) foot where
  footprint := h.footprint
  refl i lk d := ⟨h.refl i lk d, h'.refl i lk d⟩
  trans hd hd' := ⟨h.trans hd.1 hd'.1, h'.trans hd.2 hd'.2⟩
  mono hlk hd := ⟨h.mono hlk hd.1, h'.mono hlk hd.2⟩
  others hij hguar hfoot hsep :=
    ⟨h.others hij hguar.1 hfoot hsep, h'.others hij hguar.2 hfoot hsep⟩

end Both

/-! ## What holds at a statement -/

/-- At each statement `R` holds of the locks, the pending writes and the view, as long as all views
meet `I`. -/
def Prog.Along (E : Engine Op Ans D W L ε) (I : D → Prop)
    (R : List (L × LockMode) → List W → Op → D → Prop) :
    Prog Op Ans ε α → List W → List (L × LockMode) → Prop
  | .ret _, _, _ => True
  | .fail _, _, _ => True
  | .stmt o k, ws, lk => ∀ v, I v → R lk ws o v ∧ ∀ r ws', E.exec o v = .ok (r, ws') →
      (k r).Along E I R (ws ++ ws') (lk ++ E.needs o v)
  | .commit k, _, _ => k.Along E I R [] []

/-- What holds of each statement by itself. -/
theorem Prog.along_of_safe {E : Engine Op Ans D W L ε} {I : D → Prop}
    {R : List (L × LockMode) → List W → Op → D → Prop} {G : Op → Prop}
    {A : (o : Op) → Ans o → Prop} {Q : α → Prop} {p : Prog Op Ans ε α} (h : p.Safe G A Q)
    (hA : ∀ {o v r ws}, I v → G o → E.exec o v = .ok (r, ws) → A o r)
    (hR : ∀ lk ws o v, I v → G o → R lk ws o v) (ws : List W) (lk : List (L × LockMode)) :
    p.Along E I R ws lk := by
  induction p generalizing ws lk with
  | ret a => trivial
  | fail e => trivial
  | stmt o k ih =>
    exact fun v hv ↦ ⟨hR lk ws o v hv h.1, fun r ws' hexec ↦ ih r (h.2 r (hA hv h.1 hexec)) _ _⟩
  | commit k ih => exact ih h [] []

/-- The session has nothing more to ask or to commit. -/
def Session.Over : Session Op Ans W ε α → Prop
  | .running (.ret _) _ => True
  | .running (.fail _) _ => True
  | .running _ _ => False
  | .finished _ => True

section Steps

variable [DecidableEq ι] [DecidableEq L] {E : Engine Op Ans D W L ε} {I : D → Prop}
  {R : List (L × LockMode) → List W → Op → D → Prop} {s s' : Sys ι Op Ans D W L ε α} {e : Event ι}

def Sys.Along (E : Engine Op Ans D W L ε) (I : D → Prop)
    (R : List (L × LockMode) → List W → Op → D → Prop) (s : Sys ι Op Ans D W L ε α) : Prop :=
  ∀ {i p ws}, s.session i = .running p ws → p.Along E I R ws (s.locksOf i)

/-- The same with a property for each session. -/
def Sys.AlongEach (E : Engine Op Ans D W L ε) (I : D → Prop)
    (R : ι → List (L × LockMode) → List W → Op → D → Prop) (s : Sys ι Op Ans D W L ε α) : Prop :=
  ∀ {i p ws}, s.session i = .running p ws → p.Along E I (R i) ws (s.locksOf i)

variable {R' : ι → List (L × LockMode) → List W → Op → D → Prop}

theorem Sys.AlongEach.move (h : s.AlongEach E I R')
    (hview : ∀ i p ws, s.session i = .running p ws → I (E.view ws s.db)) (hmove : E.Move s e s') :
    s'.AlongEach E I R' := by
  intro j p ws hj
  cases hmove with
  | stay => exact h hj
  | @answer i a ws' hi =>
    simp only [Sys.set_session] at hj
    split at hj
    · cases hj
    · rename_i hne
      rw [Sys.locksOf_of_released s _ rfl, if_neg hne]
      exact h hj
  | @rollback i a ws' hi =>
    simp only [Sys.set_session] at hj
    split at hj
    · cases hj
    · rename_i hne
      rw [Sys.locksOf_of_released s _ rfl, if_neg hne]
      exact h hj
  | @refuse i o k ws' e hi =>
    rw [Sys.set_session] at hj
    split at hj
    · cases hj
      trivial
    · exact h hj
  | @execute i o k ws' r ws'' hi hfree hexec =>
    simp only [Sys.set_session] at hj
    rw [Sys.locksOf_of_append s _ rfl]
    split at hj
    · rename_i heq
      cases hj
      subst heq
      rw [if_pos rfl]
      exact (h hi _ (hview _ _ _ hi)).2 r ws'' hexec
    · rename_i hne
      rw [if_neg hne, List.append_nil]
      exact h hj
  | @commit i k ws' hi =>
    simp only [Sys.set_session] at hj
    rw [Sys.locksOf_of_released s _ rfl]
    split at hj
    · rename_i heq
      cases hj
      subst heq
      rw [if_pos rfl]
      exact h hi
    · rename_i hne
      rw [if_neg hne]
      exact h hj
  | @abort i p' ws' hi =>
    rw [Sys.set_session] at hj
    split at hj
    · cases hj
      trivial
    · exact h hj

/-- What holds along all programs holds at every statement of every run. -/
theorem Sys.AlongEach.run (h : s.AlongEach E I R') (es : List (Event ι))
    (hview : ∀ es' i p ws, es' <+: es → (E.run s es').session i = .running p ws →
      I (E.view ws (E.run s es').db)) : (E.run s es).AlongEach E I R' := by
  induction es generalizing s with
  | nil => exact h
  | cons e es ih =>
    refine ih (h.move (hview [] · · · (List.nil_prefix)) (E.step_move s e)) fun es' i p ws hes' ↦ ?_
    exact hview (e :: es') i p ws ((List.prefix_cons_inj e).2 hes')

omit [DecidableEq L] in
theorem Sys.AlongEach.start {d : D} {script : ι → Prog Op Ans ε α}
    (h : ∀ i, (script i).Along E I (R' i) [] []) :
    (Sys.start d script : Sys ι Op Ans D W L ε α).AlongEach E I R' := by
  intro i p ws hi
  obtain ⟨rfl, rfl⟩ : script i = p ∧ [] = ws := by simpa [Sys.start] using hi
  exact h i

theorem Sys.Along.move (h : s.Along E I R)
    (hview : ∀ i p ws, s.session i = .running p ws → I (E.view ws s.db)) (hmove : E.Move s e s') :
    s'.Along E I R :=
  have heach : s.AlongEach E I fun _ ↦ R := h
  heach.move hview hmove

theorem Sys.Along.run (h : s.Along E I R) (es : List (Event ι))
    (hview : ∀ es' i p ws, es' <+: es → (E.run s es').session i = .running p ws →
      I (E.view ws (E.run s es').db)) : (E.run s es).Along E I R :=
  have heach : s.AlongEach E I fun _ ↦ R := h
  heach.run es hview

omit [DecidableEq L] in
theorem Sys.Along.start {d : D} {script : ι → Prog Op Ans ε α}
    (h : ∀ i, (script i).Along E I R [] []) :
    (Sys.start d script : Sys ι Op Ans D W L ε α).Along E I R :=
  have heach : (Sys.start d script : Sys ι Op Ans D W L ε α).AlongEach E I fun _ ↦ R :=
    Sys.AlongEach.start fun i ↦ h i
  heach

/-- The session holds the lock, or it held it and is over. -/
def Sys.Engaged (s : Sys ι Op Ans D W L ε α) (i : ι) (l : L × LockMode) : Prop :=
  l ∈ s.locksOf i ∨ (s.session i).Over

variable {C : ι → Contract Op D W L α} {foot : W → List (L × LockMode)} {i : ι} {l : L × LockMode}

theorem Sound.engaged_move (hs : Sound E C foot s) (hC : Compatible E C foot)
    (h : s.Engaged i l) (hmove : E.Move s e s') : s'.Engaged i l := by
  have hother : ∀ (j : ι) x, i ≠ j → ((s.set j x).session i).Over = (s.session i).Over := by
    intro j x hij
    rw [Sys.set_session, if_neg hij]
  cases hmove with
  | stay => exact h
  | @answer j a ws hj =>
    by_cases hij : i = j
    · subst hij
      right
      simp [Sys.set_session, Session.Over]
    · refine h.imp (fun hl ↦ ?_) fun hover ↦ (hother j _ hij).mpr hover
      rwa [Sys.locksOf_of_released s _ rfl, if_neg hij]
  | @rollback j a ws hj =>
    by_cases hij : i = j
    · subst hij
      right
      simp [Sys.set_session, Session.Over]
    · refine h.imp (fun hl ↦ ?_) fun hover ↦ (hother j _ hij).mpr hover
      rwa [Sys.locksOf_of_released s _ rfl, if_neg hij]
  | @refuse j o k ws e hj =>
    by_cases hij : i = j
    · subst hij
      right
      simp [Sys.set_session, Session.Over]
    · exact h.imp id fun hover ↦ (hother j _ hij).mpr hover
  | @execute j o k ws r ws' hj hfree hexec =>
    rcases h with hl | hover
    · left
      rw [Sys.locksOf_of_append s _ rfl]
      exact List.mem_append_left _ hl
    · by_cases hij : i = j
      · subst hij
        rw [hj] at hover
        exact hover.elim
      · exact Or.inr ((hother j _ hij).mpr hover)
  | @commit j k ws hj =>
    by_cases hij : i = j
    · subst hij
      right
      rcases h with hl | hover
      · obtain ⟨-, hend, -⟩ := hs.running hj s.db (hC.refl i _ _)
        rcases hend with ⟨a, rfl⟩ | ⟨-, hnone⟩
        · simp [Sys.set_session, Session.Over]
        · rw [hnone] at hl
          cases hl
      · rw [hj] at hover
        exact hover.elim
    · refine h.imp (fun hl ↦ ?_) fun hover ↦ (hother j _ hij).mpr hover
      rwa [Sys.locksOf_of_released s _ rfl, if_neg hij]
  | @abort j p ws hj =>
    by_cases hij : i = j
    · subst hij
      right
      simp [Sys.set_session, Session.Over]
    · exact h.imp id fun hover ↦ (hother j _ hij).mpr hover

/-- A lock that was held is still held, or its session is over. -/
theorem Sound.engaged_run (hs : Sound E C foot s) (hC : Compatible E C foot)
    {es : List (Event ι)} (hmeets : E.Meets (fun i ↦ (C i).allow) s es) (h : s.Engaged i l) :
    (E.run s es).Engaged i l := by
  induction es generalizing s with
  | nil => exact h
  | cons e es ih =>
    exact ih (hs.move hC (E.step_move s e) hmeets.1) hmeets.2
      (hs.engaged_move hC h (E.step_move s e))

/-- A session that is over stays so. -/
theorem Session.Over.run {i : ι} (h : (s.session i).Over) (es : List (Event ι)) :
    ((E.run s es).session i).Over := by
  induction es generalizing s with
  | nil => exact h
  | cons e es ih =>
    refine ih ?_
    have hmove := E.step_move s e
    generalize E.step s e = s' at hmove ⊢
    have hset : ∀ (j : ι) x, (i = j → x.Over) → ((s.set j x).session i).Over := by
      intro j x hx
      rw [Sys.set_session]
      split
      · rename_i hij
        exact hx hij
      · exact h
    cases hmove with
    | stay => exact h
    | answer hj => exact hset _ _ fun _ ↦ trivial
    | rollback hj => exact hset _ _ fun _ ↦ trivial
    | refuse hj => exact hset _ _ fun _ ↦ trivial
    | abort hj => exact hset _ _ fun _ ↦ trivial
    | execute hj =>
      refine hset _ _ ?_
      rintro rfl
      rw [hj] at h
      exact h.elim
    | commit hj =>
      refine hset _ _ ?_
      rintro rfl
      rw [hj] at h
      exact h.elim

/-- A session that is over commits nothing. -/
theorem Session.Over.db_eq {i : ι} (h : (s.session i).Over) : (E.step s (.step i)).db = s.db := by
  simp only [Engine.step, Engine.stepSession]
  cases hs : s.session i with
  | finished out => rfl
  | running p ws =>
    rw [hs] at h
    cases p with
    | ret a => rfl
    | fail e => rfl
    | stmt o k => exact h.elim
    | commit k => exact h.elim

/-- A run meets what is assumed if each of its statements does. -/
theorem Engine.meets_of_prefix {allow : ι → Op → D → Prop} {es : List (Event ι)}
    (h : ∀ es' i o k ws, es' ++ [.step i] <+: es →
      (E.run s es').session i = .running (.stmt o k) ws →
        allow i o (E.view ws (E.run s es').db)) : E.Meets allow s es := by
  induction es generalizing s with
  | nil => trivial
  | cons e es ih =>
    refine ⟨fun i o k ws he hs _ ↦ ?_, ih fun es' i o k ws hes' hs ↦ ?_⟩
    · subst he
      exact h [] i o k ws ((List.prefix_cons_inj _).2 List.nil_prefix) hs
    · exact h (e :: es') i o k ws ((List.prefix_cons_inj e).2 hes') hs

/-! ## What is assumed of the commits -/

/-- Each commit of the run that writes meets what `ok` assumes of its locks and the database. -/
def Engine.CommitsMeet (E : Engine Op Ans D W L ε) (ok : ι → List (L × LockMode) → D → Prop) :
    Sys ι Op Ans D W L ε α → List (Event ι) → Prop
  | _, [] => True
  | s, e :: es =>
      (∀ i k ws, e = .step i → s.session i = .running (.commit k) ws → ws ≠ [] →
        ok i (s.locksOf i) s.db) ∧ Engine.CommitsMeet E ok (E.step s e) es

/-- Whether the commits of a concrete run meet what is assumed can be computed. -/
instance Engine.decidableCommitsMeet (ok : ι → List (L × LockMode) → D → Prop)
    [∀ i lk d, Decidable (ok i lk d)] : ∀ (s : Sys ι Op Ans D W L ε α) (es : List (Event ι)),
      Decidable (Engine.CommitsMeet E ok s es)
  | _, [] => isTrue trivial
  | s, .abort i :: es =>
    have := decidableCommitsMeet ok (E.step s (.abort i)) es
    decidable_of_iff (Engine.CommitsMeet E ok (E.step s (.abort i)) es)
      ⟨fun h ↦ ⟨fun _ _ _ he ↦ (by cases he), h⟩, fun h ↦ h.2⟩
  | s, .step i :: es =>
    have := decidableCommitsMeet ok (E.step s (.step i)) es
    match h : s.session i with
    | .running (.commit k) (w :: ws) =>
      decidable_of_iff (ok i (s.locksOf i) s.db ∧
          Engine.CommitsMeet E ok (E.step s (.step i)) es) <| by
        refine and_congr_left fun _ ↦ ⟨fun hnow j k' ws' he hs _ ↦ ?_, fun hall ↦
          hall i k (w :: ws) rfl h (List.cons_ne_nil w ws)⟩
        cases he
        exact hnow
    | .running (.commit k) [] =>
      decidable_of_iff (Engine.CommitsMeet E ok (E.step s (.step i)) es) <| by
        refine ⟨fun hrest ↦ ⟨fun j k' ws' he hs hne ↦ ?_, hrest⟩, fun h ↦ h.2⟩
        cases he
        cases h.symm.trans hs
        exact (hne rfl).elim
    | .running (.ret _) _ | .running (.fail _) _ | .running (.stmt _ _) _ | .finished _ =>
      decidable_of_iff (Engine.CommitsMeet E ok (E.step s (.step i)) es) <| by
        refine ⟨fun hrest ↦ ⟨fun j k' ws' he hs ↦ ?_, hrest⟩, fun h ↦ h.2⟩
        cases he
        cases h.symm.trans hs

/-- What every guaranteed commit preserves, as long as it meets what is assumed of it, holds of the
database and the history in every state of a run. -/
theorem Sound.history_of_commits {ok : ι → List (L × LockMode) → D → Prop} {es : List (Event ι)}
    (hs : Sound E C foot s) (hC : Compatible E C foot)
    (hmeets : E.Meets (fun i ↦ (C i).allow) s es) (hcommits : E.CommitsMeet ok s es)
    {J : D → List (ι × List W) → Prop} (hJ : J s.db s.log)
    (hstep : ∀ i lk ws d log, J d log → (C i).guar lk ws d → (∀ w ∈ ws, foot w ⊆ lk) →
      (ws ≠ [] → ok i lk d) → J (E.view ws d) (log ++ [(i, ws)])) :
    J (E.run s es).db (E.run s es).log := by
  induction es generalizing s with
  | nil => exact hJ
  | cons e es ih =>
    have hmove := E.step_move s e
    refine ih (hs.move hC hmove hmeets.1) hmeets.2 hcommits.2 ?_
    have hnow := hcommits.1
    generalize E.step s e = s' at hmove ⊢
    cases hmove with
    | @commit i k ws h =>
      exact hstep i _ ws _ _ hJ (hs.running h s.db (hC.refl i _ _)).1 (hs.covered h)
        fun hne ↦ hnow i k ws rfl h hne
    | _ => exact hJ

end Steps

end MicroErp.Concurrency
