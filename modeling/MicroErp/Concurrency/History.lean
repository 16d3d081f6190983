import MicroErp.Concurrency.RelyGuarantee
import Mathlib.Algebra.BigOperators.Group.Finset.Piecewise
import Mathlib.Data.Fintype.Basic

/-!
# What a session has written

The commits of one session, one after another, are the writes that it has made for good.  If a
program accounts in its answer for what it has committed, whatever its statements are answered, its
session does so in every run.  And if all commits go along a relation, what a program has brought
about by its answer, and that relation keeps, holds from then on.
-/

namespace MicroErp.Concurrency

open scoped BigOperators

variable {ι Op : Type} {Ans : Op → Type} {D W L ε α : Type}

/-- All writes that are committed, oldest first. -/
def Sys.written (s : Sys ι Op Ans D W L ε α) : List W := s.log.flatMap Prod.snd

/-- At each commit of a history that begins in `d`, `P` holds of its writes and of the database
before it. -/
def Engine.AtCommits (E : Engine Op Ans D W L ε) (P : List W → D → Prop) :
    D → List (ι × List W) → Prop
  | _, [] => True
  | d, x :: log => P x.2 d ∧ Engine.AtCommits E P (E.view x.2 d) log

instance Engine.decidableAtCommits (E : Engine Op Ans D W L ε) (P : List W → D → Prop)
    [∀ ws d, Decidable (P ws d)] (d : D) : ∀ log : List (ι × List W), Decidable (E.AtCommits P d log)
  | [] => isTrue trivial
  | x :: log =>
      have := Engine.decidableAtCommits E P (E.view x.2 d) log
      inferInstanceAs (Decidable (P x.2 d ∧ E.AtCommits P (E.view x.2 d) log))

/-- The write keeps the invariant. -/
def Engine.Keeps (E : Engine Op Ans D W L ε) (I : D → Prop) (w : W) : Prop :=
  ∀ d, I d → I (E.write w d)

/-- As long as all views meet `I`, the writes keep it, and whenever the program answers `a`, `Q a`
holds of what it has committed by then. -/
def Prog.Wrote (E : Engine Op Ans D W L ε) (I : D → Prop) (Q : α → List W → Prop) :
    Prog Op Ans ε α → List W → List W → Prop
  | .ret a, done, _ => Q a done
  | .fail _, _, _ => True
  | .stmt o k, done, ws => ∀ v, I v → ∀ r ws', E.exec o v = .ok (r, ws') →
      (∀ w ∈ ws', E.Keeps I w) ∧ (k r).Wrote E I Q done (ws ++ ws')
  | .commit k, done, ws => k.Wrote E I Q (done ++ ws) []

def Session.Wrote (E : Engine Op Ans D W L ε) (I : D → Prop) (Q : α → List W → Prop)
    (done : List W) : Session Op Ans W ε α → Prop
  | .running p ws => (∀ w ∈ ws, E.Keeps I w) ∧ p.Wrote E I Q done ws
  | .finished (.ok a) => Q a done
  | .finished (.error _) => True

theorem Engine.Keeps.view {E : Engine Op Ans D W L ε} {I : D → Prop} {ws : List W} {d : D}
    (h : ∀ w ∈ ws, E.Keeps I w) (hd : I d) : I (E.view ws d) := by
  induction ws generalizing d with
  | nil => exact hd
  | cons w ws ih =>
    exact ih (fun w' hw' ↦ h w' (List.mem_cons_of_mem _ hw')) (h w List.mem_cons_self d hd)

section Sessions

variable [DecidableEq ι]

/-- The writes of session `i` that are committed. -/
def Sys.wrote (s : Sys ι Op Ans D W L ε α) (i : ι) : List W :=
  (s.log.filter fun x ↦ x.1 = i).flatMap Prod.snd

theorem Sys.sublist_wrote {s : Sys ι Op Ans D W L ε α} {x : ι × List W} (hx : x ∈ s.log) :
    x.2.Sublist (s.wrote x.1) := by
  have hfilter : x ∈ s.log.filter fun y ↦ y.1 = x.1 :=
    List.mem_filter.2 ⟨hx, decide_eq_true rfl⟩
  exact List.sublist_flatten_of_mem (List.mem_map_of_mem hfilter)

/-- Every committed write is one of its session. -/
theorem Sys.exists_wrote {s : Sys ι Op Ans D W L ε α} {w : W} (hw : w ∈ s.written) :
    ∃ i, w ∈ s.wrote i := by
  obtain ⟨x, hx, hw⟩ := List.mem_flatMap.1 hw
  exact ⟨x.1, (Sys.sublist_wrote hx).subset hw⟩

/-- The invariant holds, and each session accounts for its writes. -/
structure Sys.Records (E : Engine Op Ans D W L ε) (I : D → Prop) (Q : ι → α → List W → Prop)
    (s : Sys ι Op Ans D W L ε α) : Prop where
  inv : I s.db
  session : ∀ i, (s.session i).Wrote E I (Q i) (s.wrote i)

/-- Additions over all writes are additions over those of each session. -/
theorem Sys.sum_wrote [Fintype ι] (s : Sys ι Op Ans D W L ε α) {f : List W → ℕ}
    (hf : ∀ ws ws', f (ws ++ ws') = f ws + f ws') : f s.written = ∑ i, f (s.wrote i) := by
  have hnil : f [] = 0 := by simpa using hf [] []
  unfold Sys.written Sys.wrote
  induction s.log with
  | nil => simp [hnil]
  | cons x log ih =>
    have hcons : ∀ i, f (((x :: log).filter fun y ↦ y.1 = i).flatMap Prod.snd) =
        (if x.1 = i then f x.2 else 0) + f ((log.filter fun y ↦ y.1 = i).flatMap Prod.snd) := by
      intro i
      by_cases hi : x.1 = i
      · simp [hi, hf]
      · simp [hi]
    calc f ((x :: log).flatMap Prod.snd)
        = f x.2 + f (log.flatMap Prod.snd) := by rw [List.flatMap_cons, hf]
      _ = (∑ i, if x.1 = i then f x.2 else 0) +
          ∑ i, f ((log.filter fun y ↦ y.1 = i).flatMap Prod.snd) := by
        rw [ih, Finset.sum_ite_eq, if_pos (Finset.mem_univ _)]
      _ = ∑ i, f (((x :: log).filter fun y ↦ y.1 = i).flatMap Prod.snd) := by
        rw [← Finset.sum_add_distrib]
        exact Finset.sum_congr rfl fun i _ ↦ (hcons i).symm

variable [DecidableEq L] {E : Engine Op Ans D W L ε} {I : D → Prop} {Q : ι → α → List W → Prop}
  {s s' : Sys ι Op Ans D W L ε α} {e : Event ι}

/-- The database of a run is what all writes made of the first one. -/
theorem Engine.run_written (d : D) (script : ι → Prog Op Ans ε α) (es : List (Event ι)) :
    (E.run (Sys.start d script) es).db = E.view (E.run (Sys.start d script) es).written d := by
  obtain ⟨commits, hlog, hdb⟩ := E.run_log (Sys.start d script) es
  have hview : ∀ (commits : List (ι × List W)) d,
      commits.foldl (fun d x ↦ E.view x.2 d) d = E.view (commits.flatMap Prod.snd) d := by
    intro commits
    induction commits with
    | nil => exact fun _ ↦ rfl
    | cons x commits ih =>
      intro d
      rw [List.foldl_cons, ih, List.flatMap_cons, Engine.view_append]
  rw [hdb, Sys.written, hlog]
  exact hview commits d

omit [DecidableEq L] in
theorem Sys.wrote_of_append {j : ι} {ws : List W} (h : s'.log = s.log ++ [(j, ws)]) (i : ι) :
    s'.wrote i = s.wrote i ++ if j = i then ws else [] := by
  unfold Sys.wrote
  rw [h, List.filter_append, List.flatMap_append]
  by_cases hj : j = i <;> simp [hj]

theorem Sys.Records.move (h : s.Records E I Q) (hmove : E.Move s e s') : s'.Records E I Q := by
  obtain ⟨hinv, hsession⟩ := h
  cases hmove with
  | stay => exact ⟨hinv, hsession⟩
  | @answer i a ws hi =>
    refine ⟨hinv, fun j ↦ ?_⟩
    simp only [Sys.set_session]
    split
    · rename_i hj
      have hold := hsession i
      rw [hi] at hold
      rw [hj]
      exact hold.2
    · exact hsession j
  | @rollback i a ws hi =>
    refine ⟨hinv, fun j ↦ ?_⟩
    simp only [Sys.set_session]
    split
    · trivial
    · exact hsession j
  | @refuse i o k ws a hi =>
    refine ⟨hinv, fun j ↦ ?_⟩
    rw [Sys.set_session]
    split
    · rename_i hj
      have hold := hsession i
      rw [hi] at hold
      exact ⟨hold.1, trivial⟩
    · exact hsession j
  | @execute i o k ws r ws' hi _ hexec =>
    refine ⟨hinv, fun j ↦ ?_⟩
    simp only [Sys.set_session]
    split
    · rename_i hj
      have hold := hsession i
      rw [hi] at hold
      obtain ⟨hkeeps, hnext⟩ := hold.2 _ (Engine.Keeps.view hold.1 hinv) r ws' hexec
      rw [hj]
      refine ⟨fun w hw ↦ ?_, hnext⟩
      exact (List.mem_append.1 hw).elim (hold.1 w) (hkeeps w)
    · exact hsession j
  | @commit i k ws hi =>
    have hold := hsession i
    rw [hi] at hold
    refine ⟨Engine.Keeps.view hold.1 hinv, fun j ↦ ?_⟩
    rw [Sys.wrote_of_append (s := s) (j := i) rfl]
    simp only [Sys.set_session]
    split
    · rename_i hj
      subst hj
      rw [if_pos rfl]
      exact ⟨fun w hw ↦ (List.not_mem_nil hw).elim, hold.2⟩
    · rename_i hj
      rw [if_neg (Ne.symm hj), List.append_nil]
      exact hsession j
  | @abort i p ws hi =>
    refine ⟨hinv, fun j ↦ ?_⟩
    rw [Sys.set_session]
    split
    · have hold := hsession i
      rw [hi] at hold
      exact ⟨hold.1, trivial⟩
    · exact hsession j

theorem Sys.Records.run (h : s.Records E I Q) (es : List (Event ι)) : (E.run s es).Records E I Q := by
  induction es generalizing s with
  | nil => exact h
  | cons e es ih => exact ih (h.move (E.step_move s e))

omit [DecidableEq L] in
theorem Sys.Records.start {d : D} {script : ι → Prog Op Ans ε α} (hd : I d)
    (h : ∀ i, (script i).Wrote E I (Q i) [] []) :
    (Sys.start d script : Sys ι Op Ans D W L ε α).Records E I Q :=
  ⟨hd, fun i ↦ ⟨fun _ hw ↦ (List.not_mem_nil hw).elim, h i⟩⟩

omit [DecidableEq L] in
/-- A session that has answered accounts for what it has committed. -/
theorem Sys.Records.wrote_of_outcome (h : s.Records E I Q) {i : ι} {a : α}
    (ho : s.outcome i = some (.ok a)) : Q i a (s.wrote i) := by
  have hsession := h.session i
  rw [Sys.outcome_eq_some.1 ho] at hsession
  exact hsession

end Sessions

/-! ## What a session has brought about -/

/-- Each commit goes along `R`, and whenever the program answers `a`, `Q a` holds from then on, as
long as the commits of the others go along `R` too. -/
def Prog.Attains (E : Engine Op Ans D W L ε) (R : D → D → Prop) (Q : α → D → Prop) :
    Prog Op Ans ε α → List W → D → Prop
  | .ret a, _, d => ∀ d', R d d' → Q a d'
  | .fail _, _, _ => True
  | .stmt o k, ws, d => ∀ d', R d d' → ∀ r ws', E.exec o (E.view ws d') = .ok (r, ws') →
      (k r).Attains E R Q (ws ++ ws') d'
  | .commit k, ws, d => ∀ d', R d d' →
      R d' (E.view ws d') ∧ k.Attains E R Q [] (E.view ws d')

def Session.Attains (E : Engine Op Ans D W L ε) (R : D → D → Prop) (Q : α → D → Prop) :
    Session Op Ans W ε α → D → Prop
  | .running p ws, d => p.Attains E R Q ws d
  | .finished (.ok a), d => ∀ d', R d d' → Q a d'
  | .finished (.error _), _ => True

/-- All sessions do so from here. -/
def Sys.Attains (E : Engine Op Ans D W L ε) (R : D → D → Prop) (Q : α → D → Prop)
    (s : Sys ι Op Ans D W L ε α) : Prop :=
  ∀ i, (s.session i).Attains E R Q s.db

section Attains

variable {E : Engine Op Ans D W L ε} {R : D → D → Prop} {Q : α → D → Prop}
  {s s' : Sys ι Op Ans D W L ε α} {e : Event ι}

theorem Prog.Attains.along [IsTrans D R] {p : Prog Op Ans ε α} {ws : List W} {d d' : D}
    (h : p.Attains E R Q ws d) (hR : R d d') : p.Attains E R Q ws d' := by
  cases p with
  | ret a => exact fun d'' hR' ↦ h d'' (IsTrans.trans _ _ _ hR hR')
  | fail e => trivial
  | stmt o k => exact fun d'' hR' ↦ h d'' (IsTrans.trans _ _ _ hR hR')
  | commit k => exact fun d'' hR' ↦ h d'' (IsTrans.trans _ _ _ hR hR')

theorem Session.Attains.along [IsTrans D R] {x : Session Op Ans W ε α} {d d' : D}
    (h : x.Attains E R Q d) (hR : R d d') : x.Attains E R Q d' := by
  cases x with
  | running p ws => exact Prog.Attains.along h hR
  | finished out =>
    cases out with
    | ok a => exact fun d'' hR' ↦ h d'' (IsTrans.trans _ _ _ hR hR')
    | error e => trivial

theorem Sys.Attains.start {d : D} {script : ι → Prog Op Ans ε α}
    (h : ∀ i, (script i).Attains E R Q [] d) :
    (Sys.start d script : Sys ι Op Ans D W L ε α).Attains E R Q := h

/-- What a session has answered for holds. -/
theorem Sys.Attains.of_outcome [Std.Refl R] (h : s.Attains E R Q) {i : ι} {a : α}
    (ho : s.outcome i = some (.ok a)) : Q a s.db := by
  have hsession := h i
  rw [Sys.outcome_eq_some.1 ho] at hsession
  exact hsession s.db (refl s.db)

variable [DecidableEq ι]

/-- A session that changes by itself, in the same database. -/
theorem Sys.Attains.set {i : ι} {x : Session Op Ans W ε α} (h : s.Attains E R Q)
    (hx : x.Attains E R Q s.db) (j : ι) : ((s.set i x).session j).Attains E R Q s.db := by
  rw [Sys.set_session]
  split
  · exact hx
  · exact h j

variable [DecidableEq L] [Std.Refl R] [IsTrans D R]

theorem Sys.Attains.move (h : s.Attains E R Q) (hmove : E.Move s e s') : s'.Attains E R Q := by
  cases hmove with
  | stay => exact h
  | @answer i a ws hi =>
    have hold := h i
    rw [hi] at hold
    exact h.set hold
  | rollback hi => exact h.set trivial
  | refuse hi => exact h.set trivial
  | @execute i o k ws r ws' hi _ hexec =>
    have hold := h i
    rw [hi] at hold
    exact h.set (hold s.db (refl s.db) r ws' hexec)
  | @commit i k ws hi =>
    have hold := h i
    rw [hi] at hold
    obtain ⟨hR, hnext⟩ := hold s.db (refl s.db)
    intro j
    simp only [Sys.set_session]
    split
    · exact hnext
    · exact (h j).along hR
  | abort hi => exact h.set trivial

theorem Sys.Attains.run (h : s.Attains E R Q) (es : List (Event ι)) : (E.run s es).Attains E R Q := by
  induction es generalizing s with
  | nil => exact h
  | cons e es ih => exact ih (h.move (E.step_move s e))

omit [IsTrans D R] in
theorem Sys.Attains.rel_move (h : s.Attains E R Q) (hmove : E.Move s e s') : R s.db s'.db := by
  cases hmove with
  | @commit i k ws hi =>
    have hold := h i
    rw [hi] at hold
    exact (hold s.db (refl s.db)).1
  | _ => exact refl s.db

/-- A run goes along the relation. -/
theorem Sys.Attains.rel_run (h : s.Attains E R Q) (es : List (Event ι)) : R s.db (E.run s es).db := by
  induction es generalizing s with
  | nil => exact refl s.db
  | cons e es ih =>
    have hmove := E.step_move s e
    exact IsTrans.trans _ _ _ (h.rel_move hmove) (ih (h.move hmove))

end Attains

end MicroErp.Concurrency
