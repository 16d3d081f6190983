import MicroErp.Concurrency.ReadCommitted

/-!
# Rely-guarantee reasoning for interleaved transactions

A contract says what a session relies on while the others commit, what it guarantees of its own
commits, and what its answer means.  `Engine.wp` is the condition under which a program meets its
contract from a given point on; it is closed under the rely, so it survives the steps of the other
sessions.  `Sound.run` is the resulting invariant of all runs.
-/

namespace MicroErp.Concurrency

variable {ι Op : Type} {Ans : Op → Type} {D W L ε α : Type}

/-- The locks of two sessions that can be held at the same time. -/
def Separate (lk lk' : List (L × LockMode)) : Prop :=
  ∀ l m m', (l, m) ∈ lk → (l, m') ∈ lk' → m.conflicts m' = false

theorem Separate.symm {lk lk' : List (L × LockMode)} (h : Separate lk lk') : Separate lk' lk := by
  intro l m m' hm hm'
  rw [LockMode.conflicts_comm]
  exact h l m' m hm' hm

structure Contract (Op D W L α : Type) where
  /-- What the commits of the others may do while these locks are held. -/
  rely : List (L × LockMode) → D → D → Prop
  /-- What is assumed of the view of each statement. -/
  allow : Op → D → Prop
  /-- What a commit of these pending writes, under these locks, does to this database. -/
  guar : List (L × LockMode) → List W → D → Prop
  post : α → D → Prop
  /-- Whether the session has to stay equivalent to one that runs alone. -/
  tracked : Prop

/-- The program has its outcome and writes nothing more. -/
def Settled (out : Except ε α) (pending : List W) : Prog Op Ans ε α → Prop
  | .fail e => out = .error e
  | .ret a => out = .ok a
  | .commit (.ret a) => pending = [] ∧ out = .ok a
  | _ => False

namespace Engine

variable (E : Engine Op Ans D W L ε) (C : Contract Op D W L α)

theorem alone_of_settled {out : Except ε α} {ws : List W} {p : Prog Op Ans ε α}
    (h : Settled out ws p) (d : D) : E.alone p ws d = (out, d) := by
  cases p with
  | ret a => rw [h]; rfl
  | fail e => rw [h]; rfl
  | stmt o k => exact h.elim
  | commit k =>
    cases k with
    | ret a =>
      obtain ⟨rfl, rfl⟩ := h
      rfl
    | fail e => exact h.elim
    | stmt o k => exact h.elim
    | commit k => exact h.elim

/-- The next statement meets what is assumed of it. -/
def ready (p : Prog Op Ans ε α) (ws : List W) (d : D) : Prop :=
  match p with
  | .stmt o _ => C.allow o (E.view ws d)
  | _ => True

/-- The answer `r` of the statement leaves the session where a run alone would also be: for good,
or in every database that the rely allows and in which the next statement meets what is assumed. -/
def follows (o : Op) (k : Ans o → Prog Op Ans ε α) (r : Ans o) (ws ws' : List W)
    (lk : List (L × LockMode)) (d : D) : Prop :=
  (∃ out, Settled out (ws ++ ws') (k r)) ∨
    ∀ d', C.rely lk d d' → E.ready C (k r) (ws ++ ws') d' →
      C.allow o (E.view ws d') ∧ E.alone (k r) (ws ++ ws') d' = E.alone (.stmt o k) ws d'

/-- The program meets its contract when it goes on with these pending writes and locks.  After a
commit that writes it answers at once. -/
def wp : Prog Op Ans ε α → List W → List (L × LockMode) → D → Prop
  | .ret a, _, _, d => ∀ d', C.rely [] d d' → C.post a d'
  | .fail _, _, _, _ => True
  | .stmt o k, ws, lk, d =>
      ∀ d', C.rely lk d d' → C.allow o (E.view ws d') →
        ∀ r ws', E.exec o (E.view ws d') = .ok (r, ws') →
          (C.tracked → E.follows C o k r ws ws' (lk ++ E.needs o (E.view ws d')) d') ∧
            wp (k r) (ws ++ ws') (lk ++ E.needs o (E.view ws d')) d'
  | .commit k, ws, lk, d =>
      ∀ d', C.rely lk d d' →
        C.guar lk ws d' ∧ ((∃ a, k = .ret a) ∨ (ws = [] ∧ lk = [])) ∧
          wp k [] [] (E.view ws d')

variable {E C}

/-- A statement whose execution the rely does not change keeps a session in step. -/
theorem follows_of_exec {o : Op} {k : Ans o → Prog Op Ans ε α} {r : Ans o} {ws ws' : List W}
    {lk : List (L × LockMode)} {d : D}
    (h : ∀ d', C.rely lk d d' →
      C.allow o (E.view ws d') ∧ E.exec o (E.view ws d') = .ok (r, ws')) :
    E.follows C o k r ws ws' lk d := by
  right
  intro d' hrely _
  obtain ⟨hallow, hexec⟩ := h d' hrely
  refine ⟨hallow, ?_⟩
  rw [alone, hexec]

end Engine

/-! ## Contracts that fit together -/

/-- The contracts of all sessions fit: what one guarantees is what the others rely on.  `foot` is
the locks that cover a write. -/
structure Compatible (E : Engine Op Ans D W L ε) (C : ι → Contract Op D W L α)
    (foot : W → List (L × LockMode)) : Prop where
  footprint : ∀ {o : Op} {v : D} {r : Ans o} {ws : List W}, E.exec o v = .ok (r, ws) →
    ∀ w ∈ ws, foot w ⊆ E.needs o v
  refl : ∀ i lk d, (C i).rely lk d d
  trans : ∀ {i lk d d' d''}, (C i).rely lk d d' → (C i).rely lk d' d'' → (C i).rely lk d d''
  mono : ∀ {i lk lk' d d'}, lk ⊆ lk' → (C i).rely lk' d d' → (C i).rely lk d d'
  others : ∀ {i j lk lk' ws d}, i ≠ j → (C j).guar lk' ws d → (∀ w ∈ ws, foot w ⊆ lk') →
    Separate lk lk' → (C i).rely lk d (E.view ws d)

theorem Engine.wp_of_rely {E : Engine Op Ans D W L ε} {C : ι → Contract Op D W L α}
    {foot : W → List (L × LockMode)} (hC : Compatible E C foot) {i : ι} {p : Prog Op Ans ε α}
    {ws : List W} {lk : List (L × LockMode)} {d d' : D} (h : E.wp (C i) p ws lk d)
    (hrely : (C i).rely lk d d') : E.wp (C i) p ws lk d' := by
  cases p with
  | ret a => exact fun d'' h' ↦ h d'' (hC.trans (hC.mono (List.nil_subset _) hrely) h')
  | fail e => trivial
  | stmt o k => exact fun d'' h' ↦ h d'' (hC.trans hrely h')
  | commit k => exact fun d'' h' ↦ h d'' (hC.trans hrely h')

/-! ## Steps -/

section Steps

variable [DecidableEq ι] [DecidableEq L] (E : Engine Op Ans D W L ε)

/-- What one event can do. -/
inductive Engine.Move (s : Sys ι Op Ans D W L ε α) : Event ι → Sys ι Op Ans D W L ε α → Prop
  | stay (e : Event ι) : Move s e s
  | answer {i : ι} {a : α} {ws : List W} (h : s.session i = .running (.ret a) ws) :
      Move s (.step i) { s.set i (.finished (.ok a)) with held := s.released i }
  | rollback {i : ι} {e : ε} {ws : List W} (h : s.session i = .running (.fail e) ws) :
      Move s (.step i) { s.set i (.finished (.error e)) with held := s.released i }
  | refuse {i : ι} {o : Op} {k : Ans o → Prog Op Ans ε α} {ws : List W} {e : ε}
      (h : s.session i = .running (.stmt o k) ws)
      (hfree : s.blocked i (E.needs o (E.view ws s.db)) = false)
      (hexec : E.exec o (E.view ws s.db) = .error e) :
      Move s (.step i) (s.set i (.running (.fail e) ws))
  | execute {i : ι} {o : Op} {k : Ans o → Prog Op Ans ε α} {ws : List W} {r : Ans o}
      {ws' : List W} (h : s.session i = .running (.stmt o k) ws)
      (hfree : s.blocked i (E.needs o (E.view ws s.db)) = false)
      (hexec : E.exec o (E.view ws s.db) = .ok (r, ws')) :
      Move s (.step i) { s.set i (.running (k r) (ws ++ ws')) with
        held := s.held ++ (E.needs o (E.view ws s.db)).map fun l ↦ (i, l) }
  | commit {i : ι} {k : Prog Op Ans ε α} {ws : List W}
      (h : s.session i = .running (.commit k) ws) :
      Move s (.step i) { s.set i (.running k []) with
        db := E.view ws s.db, held := s.released i, log := s.log ++ [(i, ws)] }
  | abort {i : ι} {p : Prog Op Ans ε α} {ws : List W} (h : s.session i = .running p ws) :
      Move s (.abort i) (s.set i (.running (.fail E.aborted) ws))

theorem Engine.step_move (s : Sys ι Op Ans D W L ε α) (e : Event ι) :
    E.Move s e (E.step s e) := by
  cases e with
  | step i =>
    simp only [step, stepSession]
    split
    case h_1 => exact .stay _
    case h_2 a ws h => exact .answer h
    case h_3 e ws h => exact .rollback h
    case h_4 o k ws h =>
      split
      · exact .stay _
      · rename_i hfree
        split
        case h_1 e hexec => exact .refuse h (by simpa using hfree) hexec
        case h_2 r ws' hexec => exact .execute h (by simpa using hfree) hexec
    case h_5 k ws h => exact .commit h
  | abort i =>
    simp only [step, abortSession]
    split
    case h_1 o k ws h => exact .abort h
    case h_2 k ws h => exact .abort h
    case h_3 => exact .stay _

/-- The database of a run is what the commits in its history made of the first one. -/
theorem Engine.run_log (s : Sys ι Op Ans D W L ε α) (es : List (Event ι)) :
    ∃ commits, (E.run s es).log = s.log ++ commits ∧
      (E.run s es).db = commits.foldl (fun d x ↦ E.view x.2 d) s.db := by
  induction es generalizing s with
  | nil => exact ⟨[], by simp [run]⟩
  | cons e es ih =>
    obtain ⟨commits, hlog, hdb⟩ := ih (E.step s e)
    change (E.run s (e :: es)).log = _ at hlog
    change (E.run s (e :: es)).db = _ at hdb
    have hstep : ((E.step s e).log = s.log ∧ (E.step s e).db = s.db) ∨
        ∃ i ws, (E.step s e).log = s.log ++ [(i, ws)] ∧ (E.step s e).db = E.view ws s.db := by
      have hmove := E.step_move s e
      generalize E.step s e = s' at hmove ⊢
      cases hmove with
      | @commit i k ws h => exact Or.inr ⟨i, ws, rfl, rfl⟩
      | _ => exact Or.inl ⟨rfl, rfl⟩
    rcases hstep with ⟨hlog', hdb'⟩ | ⟨i, ws, hlog', hdb'⟩
    · exact ⟨commits, by rw [hlog, hlog'], by rw [hdb, hdb']⟩
    · refine ⟨(i, ws) :: commits, ?_, ?_⟩
      · rw [hlog, hlog', List.append_assoc, List.singleton_append]
      · rw [hdb, hdb', List.foldl_cons]

/-- Every statement of the run meets what `allow` assumes of its view. -/
def Engine.Meets (allow : ι → Op → D → Prop) : Sys ι Op Ans D W L ε α → List (Event ι) → Prop
  | _, [] => True
  | s, e :: es =>
      (∀ i o k ws, e = .step i → s.session i = .running (.stmt o k) ws →
        s.blocked i (E.needs o (E.view ws s.db)) = false → allow i o (E.view ws s.db)) ∧
      Engine.Meets allow (E.step s e) es

/-- Whether a concrete run meets what is assumed can be computed. -/
instance Engine.decidableMeets (allow : ι → Op → D → Prop) [∀ i o v, Decidable (allow i o v)] :
    ∀ (s : Sys ι Op Ans D W L ε α) (es : List (Event ι)), Decidable (Engine.Meets E allow s es)
  | _, [] => isTrue trivial
  | s, .abort i :: es =>
    have := decidableMeets allow (E.step s (.abort i)) es
    decidable_of_iff (Engine.Meets E allow (E.step s (.abort i)) es)
      ⟨fun h ↦ ⟨fun _ _ _ _ he ↦ (by cases he), h⟩, fun h ↦ h.2⟩
  | s, .step i :: es =>
    have := decidableMeets allow (E.step s (.step i)) es
    match h : s.session i with
    | .running (.stmt o k) ws =>
      decidable_of_iff ((s.blocked i (E.needs o (E.view ws s.db)) = false →
          allow i o (E.view ws s.db)) ∧ Engine.Meets E allow (E.step s (.step i)) es) <| by
        refine and_congr_left fun _ ↦ ⟨fun hnow j o' k' ws' he hs hfree ↦ ?_, fun hall ↦
          hall i o k ws rfl h⟩
        cases he
        cases h.symm.trans hs
        exact hnow hfree
    | .running (.ret _) _ | .running (.fail _) _ | .running (.commit _) _ | .finished _ =>
      decidable_of_iff (Engine.Meets E allow (E.step s (.step i)) es) <| by
        refine ⟨fun hrest ↦ ⟨fun j o' k' ws' he hs ↦ ?_, hrest⟩, fun h ↦ h.2⟩
        cases he
        cases h.symm.trans hs

variable {E}

theorem Engine.Meets.mono {allow allow' : ι → Op → D → Prop}
    (h : ∀ i o v, allow i o v → allow' i o v) {es : List (Event ι)} :
    ∀ {s : Sys ι Op Ans D W L ε α}, E.Meets allow s es → E.Meets allow' s es := by
  induction es with
  | nil => exact fun _ ↦ trivial
  | cons e es ih =>
    intro s hmeets
    exact ⟨fun i o k ws he hs hfree ↦ h i o _ (hmeets.1 i o k ws he hs hfree), ih hmeets.2⟩

/-- What holds of every view is met by every run. -/
theorem Engine.Meets.of_forall {allow : ι → Op → D → Prop} (h : ∀ i o v, allow i o v)
    {es : List (Event ι)} : ∀ {s : Sys ι Op Ans D W L ε α}, E.Meets allow s es := by
  induction es with
  | nil => exact trivial
  | cons e es ih => exact ⟨fun i o _ _ _ _ _ ↦ h i o _, ih⟩

theorem Engine.meets_append {allow : ι → Op → D → Prop} {es es' : List (Event ι)} :
    ∀ {s : Sys ι Op Ans D W L ε α},
      E.Meets allow s (es ++ es') ↔ E.Meets allow s es ∧ E.Meets allow (E.run s es) es' := by
  induction es with
  | nil => simp [Meets, run]
  | cons e es ih =>
    intro s
    simp only [List.cons_append, Meets, ih, run, List.foldl_cons, and_assoc]

theorem Engine.run_append (s : Sys ι Op Ans D W L ε α) (es es' : List (Event ι)) :
    E.run s (es ++ es') = E.run (E.run s es) es' :=
  List.foldl_append

namespace Sys

omit [DecidableEq L] in
theorem mem_locksOf {s : Sys ι Op Ans D W L ε α} {i : ι} {l : L × LockMode} :
    l ∈ s.locksOf i ↔ (i, l) ∈ s.held := by
  simp [locksOf]

theorem separate_of_not_blocked {s : Sys ι Op Ans D W L ε α} {i j : ι}
    {req : List (L × LockMode)} (h : s.blocked i req = false) (hj : j ≠ i) :
    Separate (s.locksOf j) req := by
  intro l m m' hm hm'
  rw [mem_locksOf] at hm
  simp only [blocked, List.any_eq_false, Bool.and_eq_true, List.any_eq_true, not_and,
    not_exists, decide_eq_true_eq] at h
  simpa using h (j, l, m) hm hj (l, m') hm' rfl

omit [DecidableEq L] in
theorem locksOf_of_append (s s' : Sys ι Op Ans D W L ε α) {i : ι} {req : List (L × LockMode)}
    (h : s'.held = s.held ++ req.map fun l ↦ (i, l)) (j : ι) :
    s'.locksOf j = s.locksOf j ++ if j = i then req else [] := by
  unfold locksOf
  rw [h, List.filter_append, List.map_append]
  congr 1
  by_cases hj : j = i
  · subst hj
    simp [List.filter_map, Function.comp_def]
  · simp [hj, List.filter_map, Function.comp_def, Ne.symm hj]

omit [DecidableEq L] in
theorem locksOf_of_released (s s' : Sys ι Op Ans D W L ε α) {i : ι}
    (h : s'.held = s.released i) (j : ι) : s'.locksOf j = if j = i then [] else s.locksOf j := by
  unfold locksOf
  rw [h, released, List.filter_filter]
  by_cases hj : j = i
  · subst hj
    simp
  · rw [if_neg hj]
    congr 1
    apply List.filter_congr
    intro l _
    by_cases hl : l.1 = j
    · simp [hl, hj]
    · simp [hl]

omit [DecidableEq L] in
theorem set_session (s : Sys ι Op Ans D W L ε α) (i : ι) (x : Session Op Ans W ε α) (j : ι) :
    (s.set i x).session j = if j = i then x else s.session j := by
  simp [set, Function.update_apply]

end Sys

/-! ## The invariant of all runs -/

/-- Locks exclude each other, cover the pending writes, and every session meets its contract. -/
structure Sound (E : Engine Op Ans D W L ε) (C : ι → Contract Op D W L α)
    (foot : W → List (L × LockMode)) (s : Sys ι Op Ans D W L ε α) : Prop where
  apart : ∀ i j, i ≠ j → Separate (s.locksOf i) (s.locksOf j)
  covered : ∀ {i p ws}, s.session i = .running p ws → ∀ w ∈ ws, foot w ⊆ s.locksOf i
  running : ∀ {i p ws}, s.session i = .running p ws → E.wp (C i) p ws (s.locksOf i) s.db
  answered : ∀ {i a}, s.session i = .finished (.ok a) →
    ∀ d, (C i).rely [] s.db d → (C i).post a d

variable {C : ι → Contract Op D W L α} {foot : W → List (L × LockMode)}

omit [DecidableEq L] in
/-- A step that touches only session `i` keeps the invariant if it keeps it of session `i`. -/
theorem Sound.update {s s' : Sys ι Op Ans D W L ε α} (hs : Sound E C foot s) {i : ι}
    (hC : Compatible E C foot)
    (hsession : ∀ j, j ≠ i → s'.session j = s.session j)
    (hlocks : ∀ j, j ≠ i → s'.locksOf j = s.locksOf j)
    (hrely : ∀ j, j ≠ i → (C j).rely (s.locksOf j) s.db s'.db)
    (hapart : ∀ j, j ≠ i → Separate (s.locksOf j) (s'.locksOf i))
    (hrunning : ∀ p ws, s'.session i = .running p ws →
      (∀ w ∈ ws, foot w ⊆ s'.locksOf i) ∧ E.wp (C i) p ws (s'.locksOf i) s'.db)
    (hanswered : ∀ a, s'.session i = .finished (.ok a) →
      ∀ d, (C i).rely [] s'.db d → (C i).post a d) : Sound E C foot s' where
  apart j k hjk := by
    by_cases hj : j = i
    · subst hj
      rw [hlocks k (Ne.symm hjk)]
      exact (hapart k (Ne.symm hjk)).symm
    · rw [hlocks j hj]
      by_cases hk : k = i
      · subst hk
        exact hapart j hj
      · rw [hlocks k hk]
        exact hs.apart j k hjk
  covered {j p ws} h := by
    by_cases hj : j = i
    · subst hj
      exact (hrunning p ws h).1
    · rw [hlocks j hj]
      exact hs.covered ((hsession j hj) ▸ h)
  running {j p ws} h := by
    by_cases hj : j = i
    · subst hj
      exact (hrunning p ws h).2
    · rw [hlocks j hj]
      exact Engine.wp_of_rely hC (hs.running ((hsession j hj) ▸ h)) (hrely j hj)
  answered {j a} h := by
    by_cases hj : j = i
    · subst hj
      exact hanswered a h
    · intro d hd
      have hstep := hC.mono (List.nil_subset _) (hrely j hj)
      exact hs.answered ((hsession j hj) ▸ h) d (hC.trans hstep hd)

theorem Sound.move {s s' : Sys ι Op Ans D W L ε α} {e : Event ι} (hs : Sound E C foot s)
    (hC : Compatible E C foot) (hmove : E.Move s e s')
    (hallow : ∀ i o k ws, e = .step i → s.session i = .running (.stmt o k) ws →
      s.blocked i (E.needs o (E.view ws s.db)) = false → (C i).allow o (E.view ws s.db)) :
    Sound E C foot s' := by
  cases hmove with
  | stay => exact hs
  | @answer i a ws h =>
    have hlocks := Sys.locksOf_of_released s { s.set i (.finished (.ok a)) with
      held := s.released i } rfl
    refine hs.update hC (i := i) (fun j hj ↦ by simp [Sys.set_session, hj])
      (fun j hj ↦ by rw [hlocks, if_neg hj]) (fun j _ ↦ hC.refl j _ _) ?_ ?_ ?_
    · intro j _ l m m' _ hm'
      rw [hlocks, if_pos rfl] at hm'
      cases hm'
    · intro p ws' h'
      simp [Sys.set_session] at h'
    · intro b h' d hd
      have hb : a = b := by simpa [Sys.set_session] using h'
      exact hb ▸ hs.running h d hd
  | @rollback i e ws h =>
    have hlocks := Sys.locksOf_of_released s { s.set i (.finished (.error e)) with
      held := s.released i } rfl
    refine hs.update hC (i := i) (fun j hj ↦ by simp [Sys.set_session, hj])
      (fun j hj ↦ by rw [hlocks, if_neg hj]) (fun j _ ↦ hC.refl j _ _) ?_ ?_ ?_
    · intro j _ l m m' _ hm'
      rw [hlocks, if_pos rfl] at hm'
      cases hm'
    · intro p ws' h'
      simp [Sys.set_session] at h'
    · intro b h'
      simp [Sys.set_session] at h'
  | @refuse i o k ws e h hfree hexec =>
    refine hs.update hC (i := i) (fun j hj ↦ by simp [Sys.set_session, hj]) (fun j _ ↦ rfl)
      (fun j _ ↦ hC.refl j _ _) (fun j hj ↦ hs.apart j i hj) ?_ ?_
    · intro p ws' h'
      obtain ⟨rfl, rfl⟩ : .fail e = p ∧ ws = ws' := by simpa [Sys.set_session] using h'
      exact ⟨hs.covered h, trivial⟩
    · intro b h'
      simp [Sys.set_session] at h'
  | @execute i o k ws r ws' h hfree hexec =>
    have hlocks := Sys.locksOf_of_append s
      { s.set i (.running (k r) (ws ++ ws')) with
        held := s.held ++ (E.needs o (E.view ws s.db)).map fun l ↦ (i, l) } rfl
    refine hs.update hC (i := i) (fun j hj ↦ by simp [Sys.set_session, hj])
      (fun j hj ↦ by rw [hlocks, if_neg hj, List.append_nil]) (fun j _ ↦ hC.refl j _ _) ?_ ?_ ?_
    · intro j hj l m m' hm hm'
      rw [hlocks, if_pos rfl, List.mem_append] at hm'
      rcases hm' with hm' | hm'
      · exact hs.apart j i hj l m m' hm hm'
      · exact Sys.separate_of_not_blocked hfree hj l m m' hm hm'
    · intro p ws'' h'
      obtain ⟨rfl, rfl⟩ : k r = p ∧ ws ++ ws' = ws'' := by simpa [Sys.set_session] using h'
      rw [hlocks, if_pos rfl]
      refine ⟨fun w hw ↦ ?_, ?_⟩
      · rw [List.mem_append] at hw
        rcases hw with hw | hw
        · exact List.subset_append_of_subset_left _ (hs.covered h w hw)
        · exact List.subset_append_of_subset_right _ (hC.footprint hexec w hw)
      · exact (hs.running h s.db (hC.refl i _ _) (hallow i o k ws rfl h hfree) r ws' hexec).2
    · intro b h'
      simp [Sys.set_session] at h'
  | @commit i k ws h =>
    have hlocks := Sys.locksOf_of_released s { s.set i (.running k []) with
      db := E.view ws s.db, held := s.released i, log := s.log ++ [(i, ws)] } rfl
    obtain ⟨hguar, -, hnext⟩ := hs.running h s.db (hC.refl i _ _)
    refine hs.update hC (i := i) (fun j hj ↦ by simp [Sys.set_session, hj])
      (fun j hj ↦ by rw [hlocks, if_neg hj])
      (fun j hj ↦ hC.others hj hguar (hs.covered h) (hs.apart j i hj)) ?_ ?_ ?_
    · intro j _ l m m' _ hm'
      rw [hlocks, if_pos rfl] at hm'
      cases hm'
    · intro p ws' h'
      obtain ⟨rfl, rfl⟩ : k = p ∧ [] = ws' := by simpa [Sys.set_session] using h'
      rw [hlocks, if_pos rfl]
      exact ⟨fun w hw ↦ (List.not_mem_nil hw).elim, hnext⟩
    · intro b h'
      simp [Sys.set_session] at h'
  | @abort i p ws h =>
    refine hs.update hC (i := i) (fun j hj ↦ by simp [Sys.set_session, hj]) (fun j _ ↦ rfl)
      (fun j _ ↦ hC.refl j _ _) (fun j hj ↦ hs.apart j i hj) ?_ ?_
    · intro p' ws' h'
      obtain ⟨rfl, rfl⟩ : .fail E.aborted = p' ∧ ws = ws' := by simpa [Sys.set_session] using h'
      exact ⟨hs.covered h, trivial⟩
    · intro b h'
      simp [Sys.set_session] at h'

omit [DecidableEq L] in
/-- Programs that meet their contracts may start together. -/
theorem Sound.start {d : D} {script : ι → Prog Op Ans ε α}
    (hwp : ∀ i, E.wp (C i) (script i) [] [] d) : Sound E C foot (Sys.start d script) where
  apart i j _ l m m' hm := by
    rw [Sys.mem_locksOf] at hm
    cases hm
  covered {i p ws} h w hw := by
    obtain ⟨-, rfl⟩ : script i = p ∧ [] = ws := by simpa [Sys.start] using h
    cases hw
  running {i p ws} h := by
    obtain ⟨rfl, rfl⟩ : script i = p ∧ [] = ws := by simpa [Sys.start] using h
    exact hwp i
  answered {i a} h := by simp [Sys.start] at h

theorem Sound.run {s : Sys ι Op Ans D W L ε α} {es : List (Event ι)} (hs : Sound E C foot s)
    (hC : Compatible E C foot) (hmeets : E.Meets (fun i ↦ (C i).allow) s es) :
    Sound E C foot (E.run s es) := by
  induction es generalizing s with
  | nil => exact hs
  | cons e es ih => exact ih (hs.move hC (E.step_move s e) hmeets.1) hmeets.2

/-- An event leaves the database and the history as they are, or commits what its session
guarantees. -/
theorem Sound.commit_of_move {s s' : Sys ι Op Ans D W L ε α} {e : Event ι}
    (hs : Sound E C foot s) (hC : Compatible E C foot) (hmove : E.Move s e s') :
    (s'.db = s.db ∧ s'.log = s.log) ∨
      ∃ i ws, e = .step i ∧ (C i).guar (s.locksOf i) ws s.db ∧
        (∀ w ∈ ws, foot w ⊆ s.locksOf i) ∧ s'.db = E.view ws s.db ∧
        s'.log = s.log ++ [(i, ws)] := by
  cases hmove with
  | @commit i k ws h =>
    right
    exact ⟨i, ws, rfl, (hs.running h s.db (hC.refl i _ _)).1, hs.covered h, rfl, rfl⟩
  | _ => exact Or.inl ⟨rfl, rfl⟩

/-- What every guaranteed commit preserves of the database and the history holds in every state of
a run. -/
theorem Sound.history {s : Sys ι Op Ans D W L ε α} {es : List (Event ι)} (hs : Sound E C foot s)
    (hC : Compatible E C foot) (hmeets : E.Meets (fun i ↦ (C i).allow) s es)
    {J : D → List (ι × List W) → Prop} (hJ : J s.db s.log)
    (hstep : ∀ i lk ws d log, J d log → (C i).guar lk ws d → (∀ w ∈ ws, foot w ⊆ lk) →
      J (E.view ws d) (log ++ [(i, ws)])) : J (E.run s es).db (E.run s es).log := by
  induction es generalizing s with
  | nil => exact hJ
  | cons e es ih =>
    refine ih (hs.move hC (E.step_move s e) hmeets.1) hmeets.2 ?_
    rcases hs.commit_of_move hC (E.step_move s e) with ⟨hdb, hlog⟩ | ⟨i, ws, -, hg, hf, hdb, hlog⟩
    · rw [hdb, hlog]
      exact hJ
    · rw [hdb, hlog]
      exact hstep i _ ws _ _ hJ hg hf

end Steps

/-! ## A program alone -/

/-- A program that meets a contract meets it alone: it leaves the database as it was or commits
once what it guarantees, and its answer holds. -/
theorem Engine.alone_of_wp {E : Engine Op Ans D W L ε} {C : Contract Op D W L α}
    (foot : W → List (L × LockMode))
    (hfoot : ∀ {o : Op} {v : D} {r : Ans o} {ws : List W}, E.exec o v = .ok (r, ws) →
      ∀ w ∈ ws, foot w ⊆ E.needs o v)
    (hrefl : ∀ lk d, C.rely lk d d) (hallow : ∀ o v, C.allow o v)
    {p : Prog Op Ans ε α} {ws : List W} {lk : List (L × LockMode)} {d d' : D} {out : Except ε α}
    (hwp : E.wp C p ws lk d) (hws : ∀ w ∈ ws, foot w ⊆ lk) (hrun : E.alone p ws d = (out, d')) :
    (d' = d ∨ ∃ lk' ws', C.guar lk' ws' d ∧ (∀ w ∈ ws', foot w ⊆ lk') ∧ d' = E.view ws' d) ∧
      ∀ a, out = .ok a → ∀ d'', C.rely [] d' d'' → C.post a d'' := by
  induction p generalizing ws lk d with
  | ret a =>
    obtain ⟨rfl, rfl⟩ : .ok a = out ∧ d = d' := by simpa [alone] using hrun
    refine ⟨Or.inl rfl, ?_⟩
    rintro b ⟨⟩
    exact hwp
  | fail e =>
    obtain ⟨rfl, rfl⟩ : .error e = out ∧ d = d' := by simpa [alone] using hrun
    exact ⟨Or.inl rfl, fun a ha ↦ by cases ha⟩
  | stmt o k ih =>
    rw [alone] at hrun
    split at hrun
    case h_1 e hexec =>
      obtain ⟨rfl, rfl⟩ : .error e = out ∧ d = d' := by simpa using hrun
      exact ⟨Or.inl rfl, fun a ha ↦ by cases ha⟩
    case h_2 r ws' hexec =>
      refine ih r (hwp d (hrefl _ _) (hallow _ _) r ws' hexec).2 ?_ hrun
      intro w hw
      rw [List.mem_append] at hw
      rcases hw with hw | hw
      · exact List.subset_append_of_subset_left _ (hws w hw)
      · exact List.subset_append_of_subset_right _ (hfoot hexec w hw)
  | commit k ih =>
    obtain ⟨hguar, hend, hnext⟩ := hwp d (hrefl _ _)
    rcases hend with ⟨a, rfl⟩ | ⟨rfl, -⟩
    · obtain ⟨rfl, rfl⟩ : .ok a = out ∧ E.view ws d = d' := by simpa [alone] using hrun
      refine ⟨Or.inr ⟨lk, ws, hguar, hws, rfl⟩, ?_⟩
      rintro b ⟨⟩
      exact hnext
    · exact ih hnext (fun w hw ↦ (List.not_mem_nil hw).elim) hrun

theorem Engine.alone_stmt_eq_ok {E : Engine Op Ans D W L ε} {o : Op} {k : Ans o → Prog Op Ans ε α}
    {ws : List W} {d d' : D} {a : α} :
    E.alone (.stmt o k) ws d = (.ok a, d') ↔ ∃ r ws', E.exec o (E.view ws d) = .ok (r, ws') ∧
      E.alone (k r) (ws ++ ws') d = (.ok a, d') := by
  rw [alone]
  constructor
  · intro h
    split at h
    case h_1 e hexec => cases congrArg Prod.fst h
    case h_2 r ws' hexec => exact ⟨r, ws', hexec, h⟩
  · rintro ⟨r, ws', hexec, h⟩
    rw [hexec]
    exact h

/-- A program that meets a contract and fails alone has changed nothing. -/
theorem Engine.alone_error {E : Engine Op Ans D W L ε} {C : Contract Op D W L α}
    (hrefl : ∀ lk d, C.rely lk d d) (hallow : ∀ o v, C.allow o v)
    {p : Prog Op Ans ε α} {ws : List W} {lk : List (L × LockMode)} {d d' : D} {e : ε}
    (hwp : E.wp C p ws lk d) (hrun : E.alone p ws d = (.error e, d')) : d' = d := by
  induction p generalizing ws lk d with
  | ret a => cases congrArg Prod.fst hrun
  | fail e' => exact (congrArg Prod.snd hrun).symm
  | stmt o k ih =>
    rw [alone] at hrun
    split at hrun
    case h_1 e' hexec => exact (congrArg Prod.snd hrun).symm
    case h_2 r ws' hexec => exact ih r (hwp d (hrefl _ _) (hallow _ _) r ws' hexec).2 hrun
  | commit k ih =>
    obtain ⟨-, hend, hnext⟩ := hwp d (hrefl _ _)
    rcases hend with ⟨a, rfl⟩ | ⟨rfl, rfl⟩
    · cases congrArg Prod.fst hrun
    · exact ih hnext hrun

/-- The program does not answer without a commit. -/
def Prog.Committing : Prog Op Ans ε α → Prop
  | .ret _ => False
  | .fail _ => True
  | .stmt _ k => ∀ r, (k r).Committing
  | .commit _ => True

theorem Prog.committing_bind {β : Type} {p : Prog Op Ans ε α} {f : α → Prog Op Ans ε β}
    (h : ∀ a, (f a).Committing) : (p >>= f).Committing := by
  induction p with
  | ret a => exact h a
  | fail e => trivial
  | stmt o k ih => exact fun r ↦ ih r
  | commit k ih => trivial

/-- A program that does not answer without a commit has made a commit when it answers. -/
theorem Engine.commit_of_alone {E : Engine Op Ans D W L ε} {C : Contract Op D W L α}
    (foot : W → List (L × LockMode))
    (hfoot : ∀ {o : Op} {v : D} {r : Ans o} {ws : List W}, E.exec o v = .ok (r, ws) →
      ∀ w ∈ ws, foot w ⊆ E.needs o v)
    (hrefl : ∀ lk d, C.rely lk d d) (hallow : ∀ o v, C.allow o v)
    {p : Prog Op Ans ε α} {ws : List W} {lk : List (L × LockMode)} {d d' : D} {a : α}
    (hcommitting : p.Committing) (hwp : E.wp C p ws lk d) (hws : ∀ w ∈ ws, foot w ⊆ lk)
    (hrun : E.alone p ws d = (.ok a, d')) :
    ∃ lk' ws', C.guar lk' ws' d ∧ (∀ w ∈ ws', foot w ⊆ lk') ∧ d' = E.view ws' d := by
  induction p generalizing ws lk d with
  | ret b => exact hcommitting.elim
  | fail e => cases congrArg Prod.fst hrun
  | stmt o k ih =>
    rw [alone] at hrun
    split at hrun
    case h_1 e hexec => cases congrArg Prod.fst hrun
    case h_2 r ws' hexec =>
      refine ih r (hcommitting r) (hwp d (hrefl _ _) (hallow _ _) r ws' hexec).2 ?_ hrun
      intro w hw
      rw [List.mem_append] at hw
      rcases hw with hw | hw
      · exact List.subset_append_of_subset_left _ (hws w hw)
      · exact List.subset_append_of_subset_right _ (hfoot hexec w hw)
  | commit k ih =>
    obtain ⟨hguar, hend, hnext⟩ := hwp d (hrefl _ _)
    have hnone : ∀ w ∈ ([] : List W), foot w ⊆ [] := fun w hw ↦ (List.not_mem_nil hw).elim
    rcases hend with ⟨b, rfl⟩ | ⟨rfl, rfl⟩
    · exact ⟨lk, ws, hguar, hws, (congrArg Prod.snd hrun).symm⟩
    · rcases (alone_of_wp foot hfoot hrefl hallow hnext hnone hrun).1 with rfl | hcommit
      · exact ⟨[], [], hguar, hnone, rfl⟩
      · exact hcommit

end MicroErp.Concurrency
