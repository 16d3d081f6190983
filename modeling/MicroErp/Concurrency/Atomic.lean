import MicroErp.Concurrency.Single

/-!
# All or nothing

A program that commits at most once, and after a commit that wrote something only has to answer,
leaves nothing behind when it fails.  The database of every run is then what one commit of each
successful session made of the first one, whatever the other sessions did in between.
-/

namespace MicroErp.Concurrency

variable {ι Op : Type} {Ans : Op → Type} {D W L ε α β : Type}

/-- The statement writes nothing. -/
def Engine.Reads (E : Engine Op Ans D W L ε) (o : Op) : Prop :=
  ∀ v r ws, E.exec o v = .ok (r, ws) → ws = []

/-- The program commits at most once and answers with nothing pending, `clean` saying that nothing
is pending yet.  After a commit that may have written it answers at once. -/
def Prog.OneCommit (E : Engine Op Ans D W L ε) : Prog Op Ans ε α → Prop → Prop
  | .ret _, clean => clean
  | .fail _, _ => True
  | .stmt o k, clean => ∀ r, (k r).OneCommit E (clean ∧ E.Reads o)
  | .commit k, clean => (∃ a, k = .ret a) ∨ (clean ∧ k.ReadsOnly E)

section Programs

variable {E : Engine Op Ans D W L ε} {p : Prog Op Ans ε α} {f : α → Prog Op Ans ε β}
  {clean clean' : Prop}

theorem Prog.OneCommit.mono (h : p.OneCommit E clean) (hclean : clean → clean') :
    p.OneCommit E clean' := by
  induction p generalizing clean clean' with
  | ret a => exact hclean h
  | fail e => trivial
  | stmt o k ih => exact fun r ↦ ih r (h r) fun hr ↦ ⟨hclean hr.1, hr.2⟩
  | commit k ih => exact h.imp id fun hk ↦ ⟨hclean hk.1, hk.2⟩

theorem Prog.OneCommit.bind_pure {g : α → β} (h : p.OneCommit E clean) :
    (p >>= fun a ↦ pure (g a)).OneCommit E clean := by
  induction p generalizing clean with
  | ret a => exact h
  | fail e => trivial
  | stmt o k ih => exact fun r ↦ ih r (h r)
  | commit k ih =>
    rcases h with ⟨a, rfl⟩ | ⟨hclean, hreads⟩
    · exact Or.inl ⟨g a, rfl⟩
    · exact Or.inr ⟨hclean, hreads.bind fun _ ↦ trivial⟩

end Programs

/-! ## Sessions and their commits -/

/-- What a session can be that has made these commits. -/
def Session.Whole (E : Engine Op Ans D W L ε) (commits : List (ι × List W)) :
    Session Op Ans W ε α → Prop
  | .running p ws =>
      (commits = [] ∧ ∃ clean, p.OneCommit E clean ∧ (clean → ws = [])) ∨
        (ws = [] ∧ commits.length = 1 ∧
          ((∃ a, p = .ret a) ∨ (∀ x ∈ commits, x.2 = []) ∧ p.ReadsOnly E))
  | .finished (.ok _) => commits.length ≤ 1
  | .finished (.error _) => commits.length ≤ 1 ∧ ∀ x ∈ commits, x.2 = []

/-- The session has answered, or has only to answer. -/
def Session.Succeeds : Session Op Ans W ε α → Prop
  | .running (.ret _) _ => True
  | .finished (.ok _) => True
  | _ => False

variable {E : Engine Op Ans D W L ε}

theorem Session.Whole.length_le {commits : List (ι × List W)} {x : Session Op Ans W ε α}
    (h : x.Whole E commits) : commits.length ≤ 1 := by
  cases x with
  | running p ws =>
    rcases h with ⟨rfl, -⟩ | ⟨-, hone, -⟩
    · exact Nat.zero_le 1
    · exact Nat.le_of_eq hone
  | finished out =>
    cases out with
    | ok a => exact h
    | error e => exact h.1

/-- Only a session that succeeds has committed something. -/
theorem Session.Whole.succeeds {commits : List (ι × List W)} {x : Session Op Ans W ε α}
    (h : x.Whole E commits) {c : ι × List W} (hc : c ∈ commits) (hwrites : c.2 ≠ []) :
    x.Succeeds := by
  cases x with
  | running p ws =>
    rcases h with ⟨rfl, -⟩ | ⟨-, -, ⟨a, rfl⟩ | ⟨hnone, -⟩⟩
    · cases hc
    · trivial
    · exact (hwrites (hnone c hc)).elim
  | finished out =>
    cases out with
    | ok a => trivial
    | error e => exact (hwrites (h.2 c hc)).elim

section Runs

variable [DecidableEq ι]

def Sys.commitsOf (s : Sys ι Op Ans D W L ε α) (i : ι) : List (ι × List W) :=
  s.log.filter fun x ↦ x.1 = i

def Sys.Whole (E : Engine Op Ans D W L ε) (s : Sys ι Op Ans D W L ε α) : Prop :=
  ∀ i, (s.session i).Whole E (s.commitsOf i)

variable {s s' : Sys ι Op Ans D W L ε α}

/-- A step of session `i` that commits nothing. -/
theorem Sys.Whole.set (h : s.Whole E) {i : ι} {x : Session Op Ans W ε α}
    (hsession : ∀ j, s'.session j = (s.set i x).session j) (hlog : s'.log = s.log)
    (hx : x.Whole E (s.commitsOf i)) : s'.Whole E := by
  intro j
  rw [hsession, Sys.set_session, Sys.commitsOf, hlog]
  split
  · rename_i hj
    exact hj ▸ hx
  · exact h j

variable [DecidableEq L]

theorem Sys.Whole.step (h : s.Whole E) (e : Event ι) : (E.step s e).Whole E := by
  cases e with
  | step i =>
    have hi := h i
    have hmove := E.step_move s (.step i)
    generalize E.step s (.step i) = s' at hmove ⊢
    cases hmove with
    | stay => exact h
    | @answer _ a ws hrun =>
      refine h.set (fun _ ↦ rfl) rfl ?_
      rw [hrun] at hi
      exact hi.length_le
    | @rollback _ e ws hrun =>
      refine h.set (fun _ ↦ rfl) rfl ?_
      rw [hrun] at hi
      refine ⟨hi.length_le, fun x hx ↦ ?_⟩
      by_contra hwrites
      exact hi.succeeds hx hwrites
    | @refuse _ o k ws e hrun hfree hexec =>
      refine h.set (fun _ ↦ rfl) rfl ?_
      rw [hrun] at hi
      rcases hi with ⟨hnone, -⟩ | ⟨hws, hone, ⟨a, ha⟩ | ⟨hempty, -⟩⟩
      · exact Or.inl ⟨hnone, False, trivial, False.elim⟩
      · cases ha
      · exact Or.inr ⟨hws, hone, Or.inr ⟨hempty, trivial⟩⟩
    | @execute _ o k ws r ws' hrun hfree hexec =>
      refine h.set (fun _ ↦ rfl) rfl ?_
      rw [hrun] at hi
      rcases hi with ⟨hnone, clean, hp, hclean⟩ | ⟨hws, hone, ⟨a, ha⟩ | ⟨hempty, hreads⟩⟩
      · refine Or.inl ⟨hnone, _, hp r, fun hr ↦ ?_⟩
        rw [hclean hr.1, hr.2 _ r ws' hexec]
        rfl
      · cases ha
      · refine Or.inr ⟨?_, hone, Or.inr ⟨hempty, hreads.2 r⟩⟩
        rw [hws, hreads.1 _ r ws' hexec]
        rfl
    | @commit _ k ws hrun =>
      rw [hrun] at hi
      rcases hi with ⟨hnone, clean, hp, hclean⟩ | ⟨-, -, ⟨a, ha⟩ | ⟨-, hreads⟩⟩
      · intro j
        have hcommits : (s.log ++ [(i, ws)]).filter (fun x ↦ x.1 = j) =
            s.commitsOf j ++ if j = i then [(i, ws)] else [] := by
          rw [List.filter_append, Sys.commitsOf]
          congr 1
          by_cases hj : j = i
          · simp [hj]
          · simp [hj, Ne.symm hj]
        by_cases hj : j = i
        · subst hj
          rw [if_pos rfl, hnone] at hcommits
          simp only [Sys.set_session, if_pos, Sys.commitsOf, hcommits]
          refine Or.inr ⟨rfl, rfl, hp.imp id fun hk ↦ ⟨fun x hx ↦ ?_, hk.2⟩⟩
          rw [List.mem_singleton.1 hx]
          exact hclean hk.1
        · rw [if_neg hj, List.append_nil] at hcommits
          simp only [Sys.set_session, if_neg hj, Sys.commitsOf, hcommits]
          exact h j
      · cases ha
      · exact hreads.elim
  | abort i =>
    have hi := h i
    simp only [Engine.step, Engine.abortSession]
    split
    case h_1 o k ws hrun =>
      refine h.set (fun _ ↦ rfl) rfl ?_
      rw [hrun] at hi
      rcases hi with ⟨hnone, -⟩ | ⟨hws, hone, ⟨a, ha⟩ | ⟨hempty, -⟩⟩
      · exact Or.inl ⟨hnone, False, trivial, False.elim⟩
      · cases ha
      · exact Or.inr ⟨hws, hone, Or.inr ⟨hempty, trivial⟩⟩
    case h_2 k ws hrun =>
      refine h.set (fun _ ↦ rfl) rfl ?_
      rw [hrun] at hi
      rcases hi with ⟨hnone, -⟩ | ⟨-, -, ⟨a, ha⟩ | ⟨-, hreads⟩⟩
      · exact Or.inl ⟨hnone, False, trivial, False.elim⟩
      · cases ha
      · exact hreads.elim
    case h_3 => exact h

omit [DecidableEq L] in
theorem Sys.Whole.start {d : D} {script : ι → Prog Op Ans ε α}
    (h : ∀ i, (script i).OneCommit E True) :
    (Sys.start d script : Sys ι Op Ans D W L ε α).Whole E :=
  fun i ↦ Or.inl ⟨rfl, True, h i, fun _ ↦ rfl⟩

theorem Sys.Whole.run (h : s.Whole E) (es : List (Event ι)) : (E.run s es).Whole E := by
  induction es generalizing s with
  | nil => exact h
  | cons e es ih => exact ih (h.step e)

end Runs

end MicroErp.Concurrency
