import Mathlib.Logic.Basic
import Mathlib.Tactic.Common

/-!
# Transactional programs

A request handler talks to its database one statement at a time.  `Prog` is the tree of what it
will still do: issue a statement and continue with the answer, commit, answer, or throw.  The same
tree is run alone (`Engine.alone`) and interleaved with others (`Engine.step`), so both semantics
read one program text.
-/

namespace MicroErp.Concurrency

/-- A program over the statements `Op`; a statement `o` is answered by an `Ans o`. -/
inductive Prog (Op : Type) (Ans : Op → Type) (ε α : Type) where
  | ret (a : α)
  | fail (e : ε)
  | stmt (o : Op) (k : Ans o → Prog Op Ans ε α)
  | commit (k : Prog Op Ans ε α)

namespace Prog

variable {Op : Type} {Ans : Op → Type} {ε α β γ : Type}

def bind : Prog Op Ans ε α → (α → Prog Op Ans ε β) → Prog Op Ans ε β
  | ret a, f => f a
  | fail e, _ => fail e
  | stmt o k, f => stmt o fun r ↦ (k r).bind f
  | commit k, f => commit (k.bind f)

instance : Monad (Prog Op Ans ε) where
  pure := ret
  bind := bind

/-- Issue one statement and answer with its result. -/
def issue (o : Op) : Prog Op Ans ε (Ans o) := stmt o ret

def commitTransaction : Prog Op Ans ε Unit := commit (ret ())

@[simp] theorem bind_eq (p : Prog Op Ans ε α) (f : α → Prog Op Ans ε β) : p.bind f = (p >>= f) := rfl

@[simp] theorem pure_eq_ret (a : α) : (pure a : Prog Op Ans ε α) = ret a := rfl

@[simp] theorem ret_bind (a : α) (f : α → Prog Op Ans ε β) : (ret a >>= f) = f a := rfl

@[simp] theorem fail_bind (e : ε) (f : α → Prog Op Ans ε β) : (fail e >>= f) = fail e := rfl

@[simp] theorem stmt_bind (o : Op) (k : Ans o → Prog Op Ans ε α) (f : α → Prog Op Ans ε β) :
    (stmt o k >>= f) = stmt o fun r ↦ k r >>= f := rfl

@[simp] theorem commit_bind (k : Prog Op Ans ε α) (f : α → Prog Op Ans ε β) :
    (commit k >>= f) = commit (k >>= f) := rfl

@[simp] theorem issue_bind (o : Op) (f : Ans o → Prog Op Ans ε β) :
    (issue o >>= f) = stmt o f := rfl

@[simp] theorem commitTransaction_bind (f : Unit → Prog Op Ans ε β) :
    (commitTransaction >>= f) = commit (f ()) := rfl

@[simp] theorem ite_bind (p : Prop) [Decidable p] (a b : Prog Op Ans ε α)
    (f : α → Prog Op Ans ε β) :
    ((if p then a else b) >>= f) = if p then a >>= f else b >>= f := by
  split <;> rfl

theorem bind_assoc (p : Prog Op Ans ε α) (f : α → Prog Op Ans ε β) (g : β → Prog Op Ans ε γ) :
    ((p >>= f) >>= g) = (p >>= fun a ↦ f a >>= g) := by
  induction p with
  | ret a => rfl
  | fail e => rfl
  | stmt o k ih => simp only [stmt_bind, ih]
  | commit k ih => simp only [commit_bind, ih]

end Prog

end MicroErp.Concurrency
