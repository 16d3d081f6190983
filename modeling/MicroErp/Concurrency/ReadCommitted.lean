import MicroErp.Concurrency.Program
import Mathlib.Logic.Function.Basic
import Mathlib.Data.List.Basic

/-!
# Interleaved transactions under READ COMMITTED

Every session runs one program.  A statement reads the committed database with the session's own
uncommitted writes on top, takes the row locks it needs or waits, and adds its writes to the
session's pending ones.  A commit applies them and releases the locks.  A schedule picks the next
session, so a theorem about every schedule is a theorem about every interleaving.
-/

namespace MicroErp.Concurrency

/-- The row locks of PostgreSQL that the statements take. -/
inductive LockMode where
  | keyShare
  | noKeyUpdate
  | update
  deriving DecidableEq, Repr

/-- Two sessions cannot hold conflicting locks on one row. -/
def LockMode.conflicts : LockMode → LockMode → Bool
  | keyShare, keyShare => false
  | keyShare, noKeyUpdate => false
  | noKeyUpdate, keyShare => false
  | _, _ => true

theorem LockMode.conflicts_comm (m m' : LockMode) : m.conflicts m' = m'.conflicts m := by
  cases m <;> cases m' <;> rfl

/-- What a database does with a statement: the locks it needs and its result on a view, the effect
of a write, and the error a session gets when it is aborted from outside. -/
structure Engine (Op : Type) (Ans : Op → Type) (D W L ε : Type) where
  needs : Op → D → List (L × LockMode)
  exec : (o : Op) → D → Except ε (Ans o × List W)
  write : W → D → D
  aborted : ε

/-- A session runs its program with its pending writes, or has answered. -/
inductive Session (Op : Type) (Ans : Op → Type) (W ε α : Type) where
  | running (p : Prog Op Ans ε α) (pending : List W)
  | finished (out : Except ε α)

structure Sys (ι : Type) (Op : Type) (Ans : Op → Type) (D W L ε α : Type) where
  db : D
  session : ι → Session Op Ans W ε α
  held : List (ι × L × LockMode)
  /-- The commits so far, oldest first. -/
  log : List (ι × List W)

inductive Event (ι : Type) where
  | step (i : ι)
  /-- The statement of session `i` fails from outside: lock timeout, deadlock victim, lost
  connection. -/
  | abort (i : ι)

variable {ι Op : Type} {Ans : Op → Type} {D W L ε α : Type}

namespace Engine

variable (E : Engine Op Ans D W L ε)

/-- The database as a session with these pending writes sees it. -/
def view (pending : List W) (d : D) : D := pending.foldl (fun d w ↦ E.write w d) d

@[simp] theorem view_nil (d : D) : E.view [] d = d := rfl

@[simp] theorem view_cons (w : W) (ws : List W) (d : D) :
    E.view (w :: ws) d = E.view ws (E.write w d) := rfl

theorem view_append (ws ws' : List W) (d : D) : E.view (ws ++ ws') d = E.view ws' (E.view ws d) :=
  List.foldl_append

/-- What every write leaves alone is the same in the view. -/
theorem view_unchanged {β : Type} (f : D → β) {ws : List W} {d : D}
    (h : ∀ w ∈ ws, ∀ d, f (E.write w d) = f d) : f (E.view ws d) = f d := by
  induction ws generalizing d with
  | nil => rfl
  | cons w ws ih =>
    rw [view_cons, ih fun w' hw' ↦ h w' (List.mem_cons_of_mem _ hw')]
    exact h w List.mem_cons_self d

/-- The program run to its end with nobody else in the database. -/
def alone : Prog Op Ans ε α → List W → D → Except ε α × D
  | .ret a, _, d => (.ok a, d)
  | .fail e, _, d => (.error e, d)
  | .stmt o k, ws, d =>
      match E.exec o (E.view ws d) with
      | .error e => (.error e, d)
      | .ok (r, ws') => alone (k r) (ws ++ ws') d
  | .commit k, ws, d => alone k [] (E.view ws d)

/-- What a program answers when its last step wraps a value. -/
theorem alone_bind_pure {β : Type} {f : α → β} {p : Prog Op Ans ε α} {ws : List W} {d d' : D}
    {b : β} (h : E.alone (p >>= fun a ↦ pure (f a)) ws d = (.ok b, d')) : ∃ a, b = f a := by
  induction p generalizing ws d with
  | ret a => exact ⟨a, Except.ok.inj (congrArg Prod.fst h).symm⟩
  | fail e => cases congrArg Prod.fst h
  | stmt o k ih =>
    rw [Prog.stmt_bind, alone] at h
    split at h
    · cases congrArg Prod.fst h
    · exact ih _ h
  | commit k ih => exact ih h

end Engine

namespace Sys

/-- Every session at the beginning of its program. -/
def start (d : D) (script : ι → Prog Op Ans ε α) : Sys ι Op Ans D W L ε α where
  db := d
  session i := .running (script i) []
  held := []
  log := []

/-- How session `i` ended, if it has. -/
def outcome (s : Sys ι Op Ans D W L ε α) (i : ι) : Option (Except ε α) :=
  match s.session i with
  | .running _ _ => none
  | .finished out => some out

theorem outcome_eq_some {s : Sys ι Op Ans D W L ε α} {i : ι} {out : Except ε α} :
    s.outcome i = some out ↔ s.session i = .finished out := by
  unfold outcome
  cases s.session i <;> simp

variable [DecidableEq ι] [DecidableEq L]

/-- Some other session holds a lock that conflicts with one of `req`. -/
def blocked (s : Sys ι Op Ans D W L ε α) (i : ι) (req : List (L × LockMode)) : Bool :=
  s.held.any fun h ↦ h.1 ≠ i && req.any fun r ↦ h.2.1 = r.1 && h.2.2.conflicts r.2

def locksOf (s : Sys ι Op Ans D W L ε α) (i : ι) : List (L × LockMode) :=
  (s.held.filter fun h ↦ h.1 = i).map Prod.snd

/-- The locks left when session `i` ends its transaction. -/
def released (s : Sys ι Op Ans D W L ε α) (i : ι) : List (ι × L × LockMode) :=
  s.held.filter fun h ↦ h.1 ≠ i

def set (s : Sys ι Op Ans D W L ε α) (i : ι) (x : Session Op Ans W ε α) :
    Sys ι Op Ans D W L ε α :=
  { s with session := Function.update s.session i x }

end Sys

namespace Engine

variable [DecidableEq ι] [DecidableEq L] (E : Engine Op Ans D W L ε)

/-- The next statement of session `i`; a blocked or finished session leaves everything as it is. -/
def stepSession (s : Sys ι Op Ans D W L ε α) (i : ι) : Sys ι Op Ans D W L ε α :=
  match s.session i with
  | .finished _ => s
  | .running (.ret a) _ => { s.set i (.finished (.ok a)) with held := s.released i }
  | .running (.fail e) _ => { s.set i (.finished (.error e)) with held := s.released i }
  | .running (.stmt o k) ws =>
      let v := E.view ws s.db
      if s.blocked i (E.needs o v) then s
      else
        match E.exec o v with
        | .error e => s.set i (.running (.fail e) ws)
        | .ok (r, ws') =>
            { s.set i (.running (k r) (ws ++ ws')) with
              held := s.held ++ (E.needs o v).map fun l ↦ (i, l) }
  | .running (.commit k) ws =>
      { s.set i (.running k []) with
        db := E.view ws s.db
        held := s.released i
        log := s.log ++ [(i, ws)] }

/-- A statement that fails from outside sends its session to the rollback. -/
def abortSession (s : Sys ι Op Ans D W L ε α) (i : ι) : Sys ι Op Ans D W L ε α :=
  match s.session i with
  | .running (.stmt _ _) ws => s.set i (.running (.fail E.aborted) ws)
  | .running (.commit _) ws => s.set i (.running (.fail E.aborted) ws)
  | _ => s

def step (s : Sys ι Op Ans D W L ε α) : Event ι → Sys ι Op Ans D W L ε α
  | .step i => E.stepSession s i
  | .abort i => E.abortSession s i

def run (s : Sys ι Op Ans D W L ε α) (es : List (Event ι)) : Sys ι Op Ans D W L ε α :=
  es.foldl E.step s

end Engine

end MicroErp.Concurrency
