import MicroErp.Concurrency.RelyGuarantee

/-!
# What values a program passes on

Some facts need no locks: they hold of every row that is ever read, hence of every statement that
is computed from such rows, hence of every row that is ever written.  `Prog.Safe` follows such a
fact through a program, and `Flow.run` through every run, with the pending writes of all sessions.
-/

namespace MicroErp.Concurrency

variable {ι Op : Type} {Ans : Op → Type} {D W L ε α β : Type}

namespace Prog

/-- If every answer meets `A`, the program issues only statements that meet `G`, and its own answer
meets `Q`. -/
def Safe (G : Op → Prop) (A : (o : Op) → Ans o → Prop) (Q : α → Prop) :
    Prog Op Ans ε α → Prop
  | .ret a => Q a
  | .fail _ => True
  | .stmt o k => G o ∧ ∀ r, A o r → (k r).Safe G A Q
  | .commit k => k.Safe G A Q

variable {G : Op → Prop} {A : (o : Op) → Ans o → Prop} {Q : α → Prop} {R : β → Prop}

theorem Safe.bind {p : Prog Op Ans ε α} {f : α → Prog Op Ans ε β} (h : p.Safe G A Q)
    (hf : ∀ a, Q a → (f a).Safe G A R) : (p >>= f).Safe G A R := by
  induction p with
  | ret a => exact hf a h
  | fail e => trivial
  | stmt o k ih => exact ⟨h.1, fun r hr ↦ ih r (h.2 r hr)⟩
  | commit k ih => exact ih h

theorem Safe.mono {G' : Op → Prop} {Q' : α → Prop} {p : Prog Op Ans ε α} (h : p.Safe G A Q)
    (hG : ∀ o, G o → G' o) (hQ : ∀ a, Q a → Q' a) : p.Safe G' A Q' := by
  induction p with
  | ret a => exact hQ a h
  | fail e => trivial
  | stmt o k ih => exact ⟨hG o h.1, fun r hr ↦ ih r (h.2 r hr)⟩
  | commit k ih => exact ih h

theorem safe_trivial (p : Prog Op Ans ε α) :
    p.Safe (fun _ ↦ True) (fun _ _ ↦ True) fun _ ↦ True := by
  induction p with
  | ret a => trivial
  | fail e => trivial
  | stmt o k ih => exact ⟨trivial, fun r _ ↦ ih r⟩
  | commit k ih => exact ih

theorem safe_issue {o : Op} (h : G o) : (issue o : Prog Op Ans ε (Ans o)).Safe G A (A o) :=
  ⟨h, fun _ hr ↦ hr⟩

/-- The program issues only statements that meet `G`, and does not commit. -/
def Body (G : Op → Prop) : Prog Op Ans ε α → Prop
  | .ret _ => True
  | .fail _ => True
  | .stmt o k => G o ∧ ∀ r, (k r).Body G
  | .commit _ => False

theorem Body.bind {p : Prog Op Ans ε α} {f : α → Prog Op Ans ε β} (h : p.Body G)
    (hf : ∀ a, (f a).Body G) : (p >>= f).Body G := by
  induction p with
  | ret a => exact hf a
  | fail e => trivial
  | stmt o k ih => exact ⟨h.1, fun r ↦ ih r (h.2 r)⟩
  | commit k ih => exact h.elim

/-- Statements that meet `G` whatever the answers are. -/
theorem safe_of_body {p : Prog Op Ans ε α} (h : p.Body G) : p.Safe G A fun _ ↦ True := by
  induction p with
  | ret a => trivial
  | fail e => trivial
  | stmt o k ih => exact ⟨h.1, fun r _ ↦ ih r (h.2 r)⟩
  | commit k ih => exact h.elim

end Prog

/-- A fact of databases, answers and writes that the engine passes on, for sessions that issue the
statements `G`. -/
structure Flow (E : Engine Op Ans D W L ε) (ι : Type) where
  /-- Holds of the database, with or without pending writes. -/
  inv : D → Prop
  issues : ι → Op → Prop
  answers : (o : Op) → Ans o → Prop
  writes : ι → W → Prop
  exec : ∀ {i o d r ws}, inv d → issues i o → E.exec o d = .ok (r, ws) →
    answers o r ∧ ∀ w ∈ ws, writes i w
  write : ∀ {i w d}, writes i w → inv d → inv (E.write w d)

namespace Flow

variable {E : Engine Op Ans D W L ε} (F : Flow E ι)

theorem view {i : ι} {ws : List W} {d : D} (hws : ∀ w ∈ ws, F.writes i w) (hd : F.inv d) :
    F.inv (E.view ws d) := by
  induction ws generalizing d with
  | nil => exact hd
  | cons w ws ih =>
    rw [Engine.view_cons]
    refine ih (fun w' hw' ↦ hws w' (List.mem_cons_of_mem _ hw')) ?_
    exact F.write (hws w List.mem_cons_self) hd

/-- What holds of a session: its program is safe and its pending writes are such. -/
def Follows (Q : ι → α → Prop) (i : ι) : Session Op Ans W ε α → Prop
  | .running p ws => p.Safe (F.issues i) F.answers (Q i) ∧ ∀ w ∈ ws, F.writes i w
  | .finished (.ok a) => Q i a
  | .finished (.error _) => True

/-- The database, all sessions and all commits have the fact. -/
structure Holds (Q : ι → α → Prop) (s : Sys ι Op Ans D W L ε α) : Prop where
  db : F.inv s.db
  session : ∀ i, F.Follows Q i (s.session i)
  log : ∀ x ∈ s.log, ∀ w ∈ x.2, F.writes x.1 w

variable {F} {Q : ι → α → Prop} [DecidableEq ι] [DecidableEq L]

theorem Holds.move {s s' : Sys ι Op Ans D W L ε α} {e : Event ι} (h : F.Holds Q s)
    (hmove : E.Move s e s') : F.Holds Q s' := by
  have hset : ∀ (i : ι) x, F.Follows Q i x → ∀ j, F.Follows Q j ((s.set i x).session j) := by
    intro i x hx j
    rw [Sys.set_session]
    split
    · rename_i hj
      exact hj ▸ hx
    · exact h.session j
  cases hmove with
  | stay => exact h
  | @answer i a ws hrun =>
    have hi := h.session i
    rw [hrun] at hi
    exact ⟨h.db, hset i _ hi.1, h.log⟩
  | @rollback i e ws hrun => exact ⟨h.db, hset i _ trivial, h.log⟩
  | @refuse i o k ws e hrun hfree hexec =>
    have hi := h.session i
    rw [hrun] at hi
    exact ⟨h.db, hset i _ ⟨trivial, hi.2⟩, h.log⟩
  | @execute i o k ws r ws' hrun hfree hexec =>
    have hi := h.session i
    rw [hrun] at hi
    obtain ⟨hanswer, hwrites⟩ := F.exec (F.view hi.2 h.db) hi.1.1 hexec
    refine ⟨h.db, hset i _ ⟨hi.1.2 r hanswer, fun w hw ↦ ?_⟩, h.log⟩
    exact (List.mem_append.1 hw).elim (hi.2 w) (hwrites w)
  | @commit i k ws hrun =>
    have hi := h.session i
    rw [hrun] at hi
    refine ⟨F.view hi.2 h.db, hset i _ ⟨hi.1, fun w hw ↦ (List.not_mem_nil hw).elim⟩, ?_⟩
    intro x hx
    rcases List.mem_append.1 hx with hx | hx
    · exact h.log x hx
    · obtain rfl := List.mem_singleton.1 hx
      exact hi.2
  | @abort i p ws hrun =>
    have hi := h.session i
    rw [hrun] at hi
    exact ⟨h.db, hset i _ ⟨trivial, hi.2⟩, h.log⟩

omit [DecidableEq ι] [DecidableEq L] in
theorem Holds.start {d : D} {script : ι → Prog Op Ans ε α} (hd : F.inv d)
    (hscript : ∀ i, (script i).Safe (F.issues i) F.answers (Q i)) :
    F.Holds Q (Sys.start d script : Sys ι Op Ans D W L ε α) where
  db := hd
  session i := ⟨hscript i, fun _ hw ↦ (List.not_mem_nil hw).elim⟩
  log _ hx := (List.not_mem_nil hx).elim

/-- Safe programs pass the fact on in every run. -/
theorem Holds.run {s : Sys ι Op Ans D W L ε α} (h : F.Holds Q s) (es : List (Event ι)) :
    F.Holds Q (E.run s es) := by
  induction es generalizing s with
  | nil => exact h
  | cons e es ih => exact ih (h.move (E.step_move s e))

end Flow

end MicroErp.Concurrency
