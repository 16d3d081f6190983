import MicroErp.Concurrency.LockOrder

/-!
# What a session keeps to itself

A fact may hold of everybody but a few sessions which have not committed yet: nobody else knows the
identifiers that they have generated.  `Flow.HoldsBut.run` keeps such a fact through every run that
does not commit them, for the database, the other sessions and the locks that these hold.
-/

namespace MicroErp.Concurrency

variable {ι Op : Type} {Ans : Op → Type} {D W L ε α : Type} {E : Engine Op Ans D W L ε}

/-- The statements of session `i` need only locks that meet `S i`. -/
def Flow.Takes (F : Flow E ι) (S : ι → L × LockMode → Prop) : Prop :=
  ∀ {i o d}, F.inv d → F.issues i o → ∀ x ∈ E.needs o d, S i x

variable [DecidableEq ι]

/-- The database and all sessions but those `apart` have the fact. -/
structure Flow.HoldsBut (F : Flow E ι) (apart : ι → Prop) (S : ι → L × LockMode → Prop)
    (Q : ι → α → Prop) (s : Sys ι Op Ans D W L ε α) : Prop where
  db : F.inv s.db
  session : ∀ i, ¬apart i → F.Follows Q i (s.session i)
  held : ∀ i, ¬apart i → ∀ x ∈ s.locksOf i, S i x

variable {F : Flow E ι} {apart : ι → Prop} {S : ι → L × LockMode → Prop} {Q : ι → α → Prop}
  {s s' : Sys ι Op Ans D W L ε α}

theorem Flow.HoldsBut.start {d : D} {script : ι → Prog Op Ans ε α} (hd : F.inv d)
    (hscript : ∀ i, ¬apart i → (script i).Safe (F.issues i) F.answers (Q i)) :
    F.HoldsBut apart S Q (Sys.start d script : Sys ι Op Ans D W L ε α) where
  db := hd
  session i hi := ⟨hscript i hi, fun _ hw ↦ (List.not_mem_nil hw).elim⟩
  held _ _ _ hx := (List.not_mem_nil hx).elim

/-- Whatever lock such a session holds or asks for. -/
theorem Flow.HoldsBut.touches (h : F.HoldsBut apart S Q s) (hS : F.Takes S) {i : ι}
    {x : L × LockMode} (hi : ¬apart i) (htouches : s.Touches E i x) : S i x := by
  rcases htouches with ⟨o, k, ws, hrun, hx⟩ | hheld
  · have hsession := h.session i hi
    rw [hrun] at hsession
    exact hS (F.view hsession.2 h.db) hsession.1.1 x hx
  · exact h.held i hi x hheld

variable [DecidableEq L]

theorem Flow.HoldsBut.move {e : Event ι} (h : F.HoldsBut apart S Q s) (hS : F.Takes S)
    (hmove : E.Move s e s') (hlog : ∀ x ∈ s'.log, ¬apart x.1) : F.HoldsBut apart S Q s' := by
  have hset : ∀ (i : ι) x, (¬apart i → F.Follows Q i x) →
      ∀ j, ¬apart j → F.Follows Q j ((s.set i x).session j) := by
    intro i x hx j hj
    rw [Sys.set_session]
    split
    · rename_i hji
      exact hji ▸ hx (hji ▸ hj)
    · exact h.session j hj
  have hreleased : ∀ {i : ι} {s' : Sys ι Op Ans D W L ε α}, s'.held = s.released i →
      ∀ j, ¬apart j → ∀ x ∈ s'.locksOf j, S j x := by
    intro i s' hheld j hj x hx
    rw [Sys.locksOf_of_released s s' hheld] at hx
    split at hx
    · cases hx
    · exact h.held j hj x hx
  have hfollows : ∀ {i p ws}, s.session i = .running p ws → ¬apart i →
      p.Safe (F.issues i) F.answers (Q i) ∧ ∀ w ∈ ws, F.writes i w := by
    intro i p ws hrun hi
    have hsession := h.session i hi
    rwa [hrun] at hsession
  cases hmove with
  | stay => exact h
  | @answer i a ws hrun =>
    exact ⟨h.db, hset i _ fun hi ↦ (hfollows hrun hi).1, hreleased rfl⟩
  | @rollback i e ws hrun => exact ⟨h.db, hset i _ fun _ ↦ trivial, hreleased rfl⟩
  | @refuse i o k ws e hrun hfree hexec =>
    exact ⟨h.db, hset i _ fun hi ↦ ⟨trivial, (hfollows hrun hi).2⟩, h.held⟩
  | @abort i p ws hrun =>
    exact ⟨h.db, hset i _ fun hi ↦ ⟨trivial, (hfollows hrun hi).2⟩, h.held⟩
  | @execute i o k ws r ws' hrun hfree hexec =>
    refine ⟨h.db, hset i _ fun hi ↦ ?_, fun j hj x hx ↦ ?_⟩
    · obtain ⟨hsafe, hws⟩ := hfollows hrun hi
      obtain ⟨hanswer, hwrites⟩ := F.exec (F.view hws h.db) hsafe.1 hexec
      exact ⟨hsafe.2 r hanswer, fun w hw ↦ (List.mem_append.1 hw).elim (hws w) (hwrites w)⟩
    · rw [Sys.locksOf_of_append s _ rfl] at hx
      rcases List.mem_append.1 hx with hheld | hneeds
      · exact h.held j hj x hheld
      · split at hneeds
        · rename_i hji
          subst hji
          obtain ⟨hsafe, hws⟩ := hfollows hrun hj
          exact hS (F.view hws h.db) hsafe.1 x hneeds
        · cases hneeds
  | @commit i k ws hrun =>
    have hi : ¬apart i := hlog (i, ws) (List.mem_append_right _ (List.mem_singleton.2 rfl))
    obtain ⟨hsafe, hws⟩ := hfollows hrun hi
    exact ⟨F.view hws h.db, hset i _ fun _ ↦ ⟨hsafe, fun w hw ↦ (List.not_mem_nil hw).elim⟩,
      hreleased rfl⟩

/-- As long as the sessions apart commit nothing, the others have the fact. -/
theorem Flow.HoldsBut.run (h : F.HoldsBut apart S Q s) (hS : F.Takes S) (es : List (Event ι))
    (hlog : ∀ x ∈ (E.run s es).log, ¬apart x.1) : F.HoldsBut apart S Q (E.run s es) := by
  induction es generalizing s with
  | nil => exact h
  | cons e es ih =>
    obtain ⟨commits, hcommits, -⟩ := E.run_log (E.step s e) es
    refine ih (h.move hS (E.step_move s e) fun x hx ↦ hlog x ?_) hlog
    change x ∈ (E.run (E.step s e) es).log
    rw [hcommits]
    exact List.mem_append_left _ hx

end MicroErp.Concurrency
