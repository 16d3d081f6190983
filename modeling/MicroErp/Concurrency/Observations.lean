import MicroErp.Concurrency.Outline

/-!
# What the answers have said

A session that looks before it writes relies on what its statements were answered, and others may
commit between the two.  What the answers have said is recorded along the run.  Where it still holds
at each commit that writes, the commits meet whatever their programs have looked for.
-/

namespace MicroErp.Concurrency

variable {ι Op F : Type} {Ans : Op → Type} {D W L ε α : Type}

/-- Before each of its commits the program has observed enough. -/
def Prog.Observes (observes : (o : Op) → Ans o → List F) (enough : List F → Prop) :
    Prog Op Ans ε α → List F → Prop
  | .ret _, _ => True
  | .fail _, _ => True
  | .stmt o k, known => ∀ r, (k r).Observes observes enough (known ++ observes o r)
  | .commit k, known => enough known ∧ k.Observes observes enough known

section Programs

variable {observes : (o : Op) → Ans o → List F} {enough : List F → Prop}

/-- A program that needs to look for nothing. -/
theorem Prog.observes_of_forall (h : ∀ known, enough known) (p : Prog Op Ans ε α) (known : List F) :
    p.Observes observes enough known := by
  induction p generalizing known with
  | ret a => trivial
  | fail e => trivial
  | stmt o k ih => exact fun r ↦ ih r _
  | commit k ih => exact ⟨h known, ih known⟩

/-- A program that only answers after it has observed enough. -/
theorem Prog.Observes.bind_pure {β : Type} {p : Prog Op Ans ε α} {f : α → β} {known : List F}
    (h : p.Observes observes enough known) :
    (p >>= fun a ↦ pure (f a)).Observes observes enough known := by
  induction p generalizing known with
  | ret a => trivial
  | fail e => trivial
  | stmt o k ih => exact fun r ↦ ih r (h r)
  | commit k ih => exact ⟨h.1, ih h.2⟩

end Programs

section Runs

variable [DecidableEq ι] [DecidableEq L] {E : Engine Op Ans D W L ε}
  {observes : (o : Op) → Ans o → List F} {holds : F → D → Prop} {enough : ι → List F → Prop}
  {s : Sys ι Op Ans D W L ε α} {known : ι → List F} {es : List (Event ι)}

/-- What the sessions have observed after one more event. -/
def Engine.observe (E : Engine Op Ans D W L ε) (observes : (o : Op) → Ans o → List F)
    (s : Sys ι Op Ans D W L ε α) (known : ι → List F) : Event ι → ι → List F
  | .abort _ => known
  | .step i =>
      match s.session i with
      | .running (.stmt o _) ws =>
          if s.blocked i (E.needs o (E.view ws s.db)) then known
          else
            match E.exec o (E.view ws s.db) with
            | .error _ => known
            | .ok (r, _) => Function.update known i (known i ++ observes o r)
      | _ => known

/-- Whatever a session has observed holds when it commits its writes. -/
def Engine.StaysTrue (E : Engine Op Ans D W L ε) (observes : (o : Op) → Ans o → List F)
    (holds : F → D → Prop) : Sys ι Op Ans D W L ε α → (ι → List F) → List (Event ι) → Prop
  | _, _, [] => True
  | s, known, e :: es =>
      (∀ i k ws, e = .step i → s.session i = .running (.commit k) ws → ws ≠ [] →
        ∀ f ∈ known i, holds f s.db) ∧
      Engine.StaysTrue E observes holds (E.step s e) (E.observe observes s known e) es

/-- Where they stand, the programs will have observed enough. -/
def Sys.Observing (observes : (o : Op) → Ans o → List F) (enough : ι → List F → Prop)
    (s : Sys ι Op Ans D W L ε α) (known : ι → List F) : Prop :=
  ∀ i p ws, s.session i = .running p ws → p.Observes observes (enough i) (known i)

omit [DecidableEq ι] [DecidableEq L] in
theorem Sys.Observing.start {d : D} {script : ι → Prog Op Ans ε α}
    (h : ∀ i, (script i).Observes observes (enough i) []) :
    (Sys.start d script : Sys ι Op Ans D W L ε α).Observing observes enough fun _ ↦ [] := by
  intro i p ws hi
  cases hi
  exact h i

omit [DecidableEq L] in
/-- One session goes on from what it has observed; the others stand where they stood. -/
theorem Sys.Observing.set (h : s.Observing observes enough known) {i : ι}
    {x : Session Op Ans W ε α} {facts : List F} {s' : Sys ι Op Ans D W L ε α}
    (hs' : s'.session = (s.set i x).session)
    (hx : ∀ p ws, x = .running p ws → p.Observes observes (enough i) facts) :
    s'.Observing observes enough (Function.update known i facts) := by
  intro j p ws hj
  rw [hs', Sys.set_session] at hj
  by_cases hij : j = i
  · subst hij
    rw [if_pos rfl] at hj
    rw [Function.update_self]
    exact hx p ws hj
  · rw [if_neg hij] at hj
    rw [Function.update_of_ne hij]
    exact h j p ws hj

omit [DecidableEq L] in
/-- Likewise if nothing new is observed. -/
theorem Sys.Observing.set_same (h : s.Observing observes enough known) {i : ι}
    {x : Session Op Ans W ε α} {s' : Sys ι Op Ans D W L ε α}
    (hs' : s'.session = (s.set i x).session)
    (hx : ∀ p ws, x = .running p ws → p.Observes observes (enough i) (known i)) :
    s'.Observing observes enough known := by
  rw [← Function.update_eq_self i known]
  exact h.set hs' hx

theorem Sys.Observing.step (h : s.Observing observes enough known) (e : Event ι) :
    (E.step s e).Observing observes enough (E.observe observes s known e) := by
  cases e with
  | abort i =>
    simp only [Engine.step, Engine.abortSession, Engine.observe]
    split
    · exact h.set_same rfl (by rintro p ws ⟨⟩; trivial)
    · exact h.set_same rfl (by rintro p ws ⟨⟩; trivial)
    · exact h
  | step i =>
    simp only [Engine.step, Engine.stepSession, Engine.observe]
    cases hi : s.session i with
    | finished out => exact h
    | running p ws =>
      have hp := h i p ws hi
      cases p with
      | ret a =>
        dsimp only
        exact h.set_same rfl (by rintro p ws ⟨⟩)
      | fail e =>
        dsimp only
        exact h.set_same rfl (by rintro p ws ⟨⟩)
      | commit k =>
        dsimp only
        refine h.set_same rfl ?_
        rintro p ws ⟨⟩
        exact hp.2
      | stmt o k =>
        dsimp only
        split
        · exact h
        · cases hexec : E.exec o (E.view ws s.db) with
          | error e =>
            dsimp only
            exact h.set_same rfl (by rintro p ws ⟨⟩; trivial)
          | ok x =>
            dsimp only
            refine h.set rfl ?_
            rintro p ws ⟨⟩
            exact hp x.1

/-- At each commit that writes, the session has observed enough, and it still holds. -/
theorem Engine.StaysTrue.commitsMeet (h : E.StaysTrue observes holds s known es)
    (hobserving : s.Observing observes enough known) :
    E.CommitsMeet (fun i _ d ↦ ∃ facts, enough i facts ∧ ∀ f ∈ facts, holds f d) s es := by
  induction es generalizing s known with
  | nil => trivial
  | cons e es ih =>
    refine ⟨fun i k ws he hi hne ↦ ?_, ih h.2 (hobserving.step e)⟩
    exact ⟨known i, (hobserving i _ _ hi).1, h.1 i k ws he hi hne⟩

/-- Two assumptions on the commits are one. -/
theorem Engine.CommitsMeet.and {ok ok' : ι → List (L × LockMode) → D → Prop}
    (h : E.CommitsMeet ok s es) (h' : E.CommitsMeet ok' s es) :
    E.CommitsMeet (fun i lk d ↦ ok i lk d ∧ ok' i lk d) s es := by
  induction es generalizing s with
  | nil => trivial
  | cons e es ih =>
    exact ⟨fun i k ws he hi hne ↦ ⟨h.1 i k ws he hi hne, h'.1 i k ws he hi hne⟩, ih h.2 h'.2⟩

/-- Whether what was observed stays true in a concrete run can be computed. -/
instance Engine.decidableStaysTrue [∀ f d, Decidable (holds f d)] :
    ∀ (s : Sys ι Op Ans D W L ε α) (known : ι → List F) (es : List (Event ι)),
      Decidable (E.StaysTrue observes holds s known es)
  | _, _, [] => isTrue trivial
  | s, known, .abort i :: es =>
    have := decidableStaysTrue (E.step s (.abort i)) (E.observe observes s known (.abort i)) es
    decidable_of_iff (E.StaysTrue observes holds (E.step s (.abort i))
        (E.observe observes s known (.abort i)) es)
      ⟨fun h ↦ ⟨fun _ _ _ he ↦ (by cases he), h⟩, fun h ↦ h.2⟩
  | s, known, .step i :: es =>
    have := decidableStaysTrue (E.step s (.step i)) (E.observe observes s known (.step i)) es
    match h : s.session i with
    | .running (.commit k) (w :: ws) =>
      decidable_of_iff ((∀ f ∈ known i, holds f s.db) ∧ E.StaysTrue observes holds
          (E.step s (.step i)) (E.observe observes s known (.step i)) es) <| by
        refine and_congr_left fun _ ↦ ⟨fun hnow j k' ws' he hs _ ↦ ?_, fun hall ↦
          hall i k (w :: ws) rfl h (List.cons_ne_nil w ws)⟩
        cases he
        exact hnow
    | .running (.commit k) [] =>
      decidable_of_iff (E.StaysTrue observes holds (E.step s (.step i))
          (E.observe observes s known (.step i)) es) <| by
        refine ⟨fun hrest ↦ ⟨fun j k' ws' he hs hne ↦ ?_, hrest⟩, fun h ↦ h.2⟩
        cases he
        cases h.symm.trans hs
        exact (hne rfl).elim
    | .running (.ret _) _ | .running (.fail _) _ | .running (.stmt _ _) _ | .finished _ =>
      decidable_of_iff (E.StaysTrue observes holds (E.step s (.step i))
          (E.observe observes s known (.step i)) es) <| by
        refine ⟨fun hrest ↦ ⟨fun j k' ws' he hs ↦ ?_, hrest⟩, fun h ↦ h.2⟩
        cases he
        cases h.symm.trans hs

end Runs

end MicroErp.Concurrency
