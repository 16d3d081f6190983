import MicroErp.Concurrency.Dataflow

/-!
# Sessions that do not see each other

Sessions have owners, and each owner has a part of the database.  When the statements of an owner
read, lock and write within the owner's part, every run looks to the owner like the run of the
owner's sessions alone on that part: `Partition.Projects.run`.
-/

namespace MicroErp.Concurrency

variable {ι Op : Type} {Ans : Op → Type} {D W L ε α τ : Type}

/-- The session that an event is about. -/
def Event.session : Event ι → ι
  | .step i => i
  | .abort i => i

/-- A division of the sessions and of the database among owners, under a fact `F` that every run
keeps. -/
structure Partition {E : Engine Op Ans D W L ε} (F : Flow E ι) (τ : Type) where
  owner : ι → τ
  /-- The owner's part of the database. -/
  only : τ → D → D
  /-- The locks that the sessions of an owner may hold. -/
  holds : τ → L × LockMode → Prop
  needs_holds : ∀ {i o d}, F.inv d → F.issues i o → ∀ l ∈ E.needs o d, holds (owner i) l
  needs_only : ∀ {i o d}, F.inv d → F.issues i o →
    E.needs o (only (owner i) d) = E.needs o d
  exec_only : ∀ {i o d}, F.inv d → F.issues i o → E.exec o (only (owner i) d) = E.exec o d
  write_only : ∀ {i w d}, F.inv d → F.writes i w →
    only (owner i) (E.write w d) = E.write w (only (owner i) d)
  write_other : ∀ {i w d t}, F.inv d → F.writes i w → owner i ≠ t →
    only t (E.write w d) = only t d
  apart : ∀ {t t' l m m'}, t ≠ t' → holds t (l, m) → holds t' (l, m') → m.conflicts m' = false

namespace Partition

variable {E : Engine Op Ans D W L ε} {F : Flow E ι} (P : Partition F τ)

theorem view_only {i : ι} {ws : List W} {d : D} (hd : F.inv d) (hws : ∀ w ∈ ws, F.writes i w) :
    P.only (P.owner i) (E.view ws d) = E.view ws (P.only (P.owner i) d) := by
  induction ws generalizing d with
  | nil => rfl
  | cons w ws ih =>
    have hw := hws w List.mem_cons_self
    rw [Engine.view_cons, Engine.view_cons, ← P.write_only hd hw]
    exact ih (F.write hw hd) fun w' hw' ↦ hws w' (List.mem_cons_of_mem _ hw')

theorem view_other {i : ι} {ws : List W} {d : D} {t : τ} (hd : F.inv d)
    (hws : ∀ w ∈ ws, F.writes i w) (ht : P.owner i ≠ t) :
    P.only t (E.view ws d) = P.only t d := by
  induction ws generalizing d with
  | nil => rfl
  | cons w ws ih =>
    have hw := hws w List.mem_cons_self
    rw [Engine.view_cons, ih (F.write hw hd) fun w' hw' ↦ hws w' (List.mem_cons_of_mem _ hw')]
    exact P.write_other hd hw ht

/-- Every session holds only locks of its owner. -/
def Parted (s : Sys ι Op Ans D W L ε α) : Prop := ∀ h ∈ s.held, P.holds (P.owner h.1) h.2

variable [DecidableEq τ]

/-- `s'` is what the owner `t` sees of `s`: the sessions and locks of the owner, on the owner's part
of the database. -/
structure Projects (t : τ) (s s' : Sys ι Op Ans D W L ε α) : Prop where
  db : s'.db = P.only t s.db
  session : ∀ i, P.owner i = t → s'.session i = s.session i
  held : s'.held = s.held.filter fun h ↦ P.owner h.1 = t
  log : s'.log = s.log.filter fun x ↦ P.owner x.1 = t

variable {P} {t : τ} {s s' : Sys ι Op Ans D W L ε α} {Q : ι → α → Prop}

theorem Projects.start (d : D) (script script' : ι → Prog Op Ans ε α)
    (h : ∀ i, P.owner i = t → script' i = script i) :
    P.Projects t (Sys.start d script : Sys ι Op Ans D W L ε α) (Sys.start (P.only t d) script') :=
  ⟨rfl, fun i hi ↦ congrArg (Session.running · []) (h i hi), rfl, rfl⟩

variable [DecidableEq ι]

theorem Projects.released_own (h : P.Projects t s s') (i : ι) :
    s'.released i = (s.released i).filter fun h ↦ P.owner h.1 = t := by
  rw [Sys.released, Sys.released, h.held, List.filter_filter, List.filter_filter]
  simp only [Bool.and_comm]

theorem Projects.released_other (h : P.Projects t s s') {i : ι} (hi : P.owner i ≠ t) :
    s'.held = (s.released i).filter fun h ↦ P.owner h.1 = t := by
  rw [Sys.released, h.held, List.filter_filter]
  refine List.filter_congr fun x _ ↦ ?_
  by_cases hx : P.owner x.1 = t
  · have hne : x.1 ≠ i := fun heq ↦ hi (heq ▸ hx)
    simp [hx, hne]
  · simp [hx]

theorem Projects.set_own (h : P.Projects t s s') (i : ι) (x : Session Op Ans W ε α) (j : ι)
    (hj : P.owner j = t) : (s'.set i x).session j = (s.set i x).session j := by
  rw [Sys.set_session, Sys.set_session, h.session j hj]

theorem Projects.set_other (h : P.Projects t s s') {i : ι} (hi : P.owner i ≠ t)
    (x : Session Op Ans W ε α) (j : ι) (hj : P.owner j = t) : s'.session j = (s.set i x).session j := by
  have hne : j ≠ i := fun heq ↦ hi (heq ▸ hj)
  rw [Sys.set_session, if_neg hne, h.session j hj]

variable [DecidableEq L]

/-- Only the owner's other sessions can be in the way. -/
theorem Projects.blocked_eq (h : P.Projects t s s') (hs : P.Parted s) {i : ι}
    {req : List (L × LockMode)} (hreq : ∀ l ∈ req, P.holds t l) :
    s'.blocked i req = s.blocked i req := by
  rw [Sys.blocked, Sys.blocked, h.held, List.any_filter]
  rw [Bool.eq_iff_iff, List.any_eq_true, List.any_eq_true]
  refine exists_congr fun x ↦ and_congr_right fun hx ↦ ?_
  by_cases hown : P.owner x.1 = t
  · simp [hown]
  · have hfree : (req.any fun r ↦ x.2.1 = r.1 && x.2.2.conflicts r.2) = false := by
      rw [List.any_eq_false]
      intro r hr hboth
      obtain ⟨heq, hconflict⟩ := Bool.and_eq_true_iff.1 hboth
      have hheld : P.holds (P.owner x.1) (r.1, x.2.2) := by
        rw [← of_decide_eq_true heq]
        exact hs x hx
      rw [P.apart hown hheld (hreq r hr)] at hconflict
      cases hconflict
    rw [hfree]
    simp [hown]

omit [DecidableEq τ] in
theorem Parted.move {e : Event ι} (hs : P.Parted s) (hF : F.Holds Q s) (hmove : E.Move s e s') :
    P.Parted s' := by
  have hreleased : ∀ i, ∀ h ∈ s.released i, P.holds (P.owner h.1) h.2 :=
    fun i h hh ↦ hs h (List.mem_filter.1 hh).1
  cases hmove with
  | stay => exact hs
  | answer => exact hreleased _
  | rollback => exact hreleased _
  | refuse => exact hs
  | @execute i o k ws r ws' hrun hfree hexec =>
    have hi := hF.session i
    rw [hrun] at hi
    intro h hh
    rcases List.mem_append.1 hh with hh | hh
    · exact hs h hh
    · obtain ⟨l, hl, rfl⟩ := List.mem_map.1 hh
      exact P.needs_holds (F.view hi.2 hF.db) hi.1.1 l hl
  | commit => exact hreleased _
  | abort => exact hs

/-- A step of somebody else's session does not show. -/
theorem Projects.other {e : Event ι} (h : P.Projects t s s') (hF : F.Holds Q s)
    (he : P.owner e.session ≠ t) : P.Projects t (E.step s e) s' := by
  have hmove := E.step_move s e
  generalize E.step s e = s₁ at hmove
  cases hmove with
  | stay => exact h
  | answer => exact ⟨h.db, h.set_other he _, h.released_other he, h.log⟩
  | rollback => exact ⟨h.db, h.set_other he _, h.released_other he, h.log⟩
  | refuse => exact ⟨h.db, h.set_other he _, h.held, h.log⟩
  | @execute i o k ws r ws' hrun hfree hexec =>
    refine ⟨h.db, h.set_other he _, ?_, h.log⟩
    have hnone : ((E.needs o (E.view ws s.db)).map fun l ↦ (i, l)).filter
        (fun h ↦ P.owner h.1 = t) = [] := by
      rw [List.filter_eq_nil_iff]
      intro x hx
      obtain ⟨l, -, rfl⟩ := List.mem_map.1 hx
      simpa using show P.owner i ≠ t from he
    rw [h.held, List.filter_append, hnone, List.append_nil]
  | @commit i k ws hrun =>
    have hi := hF.session i
    rw [hrun] at hi
    refine ⟨?_, h.set_other he _, h.released_other he, ?_⟩
    · rw [h.db, P.view_other hF.db hi.2 he]
    · rw [h.log, List.filter_append]
      simp [show P.owner i ≠ t from he]
  | abort => exact ⟨h.db, h.set_other he _, h.held, h.log⟩

/-- A step of the owner's session does the same on the owner's part. -/
theorem Projects.own {e : Event ι} (h : P.Projects t s s') (hF : F.Holds Q s) (hs : P.Parted s)
    (he : P.owner e.session = t) : P.Projects t (E.step s e) (E.step s' e) := by
  cases e with
  | step i =>
    have hi := hF.session i
    have hsession := h.session i he
    simp only [Engine.step, Engine.stepSession, hsession]
    cases hrun : s.session i with
    | finished out => exact h
    | running p ws =>
      rw [hrun] at hi
      have hview : E.view ws s'.db = P.only t (E.view ws s.db) := by
        rw [h.db, ← he]
        exact (P.view_only hF.db hi.2).symm
      cases p with
      | ret a => exact ⟨h.db, h.set_own _ _, h.released_own _, h.log⟩
      | fail e => exact ⟨h.db, h.set_own _ _, h.released_own _, h.log⟩
      | stmt o k =>
        have hinv := F.view hi.2 hF.db
        have hneeds : E.needs o (E.view ws s'.db) = E.needs o (E.view ws s.db) := by
          rw [hview, ← he]
          exact P.needs_only hinv hi.1.1
        have hexec : E.exec o (E.view ws s'.db) = E.exec o (E.view ws s.db) := by
          rw [hview, ← he]
          exact P.exec_only hinv hi.1.1
        have hblocked : s'.blocked i (E.needs o (E.view ws s.db)) =
            s.blocked i (E.needs o (E.view ws s.db)) :=
          h.blocked_eq hs fun l hl ↦ he ▸ P.needs_holds hinv hi.1.1 l hl
        simp only [hneeds, hexec]
        rw [hblocked]
        split
        · exact h
        · split
          · exact ⟨h.db, h.set_own _ _, h.held, h.log⟩
          · refine ⟨h.db, h.set_own _ _, ?_, h.log⟩
            have hall : ((E.needs o (E.view ws s.db)).map fun l ↦ (i, l)).filter
                (fun h ↦ P.owner h.1 = t) = (E.needs o (E.view ws s.db)).map fun l ↦ (i, l) := by
              rw [List.filter_eq_self]
              intro x hx
              obtain ⟨l, -, rfl⟩ := List.mem_map.1 hx
              simpa using show P.owner i = t from he
            rw [List.filter_append, hall, h.held]
      | commit k =>
        refine ⟨hview, h.set_own _ _, h.released_own _, ?_⟩
        rw [h.log, List.filter_append]
        simp [show P.owner i = t from he]
  | abort i =>
    simp only [Engine.step, Engine.abortSession, h.session i he]
    split
    · exact ⟨h.db, h.set_own _ _, h.held, h.log⟩
    · exact ⟨h.db, h.set_own _ _, h.held, h.log⟩
    · exact h

/-- What an owner sees of a run is the run of the owner's own events. -/
theorem Projects.run (h : P.Projects t s s') (hF : F.Holds Q s) (hs : P.Parted s)
    (es : List (Event ι)) :
    P.Projects t (E.run s es) (E.run s' (es.filter fun e ↦ P.owner e.session = t)) := by
  induction es generalizing s s' with
  | nil => exact h
  | cons e es ih =>
    have hF' := hF.move (E.step_move s e)
    have hs' := hs.move hF (E.step_move s e)
    by_cases he : P.owner e.session = t
    · rw [List.filter_cons_of_pos (by simpa using he)]
      exact ih (h.own hF hs he) hF' hs'
    · rw [List.filter_cons_of_neg (by simpa using he)]
      exact ih (h.other hF he) hF' hs'

omit [DecidableEq ι] [DecidableEq L] in
theorem Projects.outcome_eq (h : P.Projects t s s') {i : ι} (hi : P.owner i = t) :
    s'.outcome i = s.outcome i := by
  rw [Sys.outcome, Sys.outcome, h.session i hi]

end Partition

end MicroErp.Concurrency
