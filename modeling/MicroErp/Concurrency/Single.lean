import MicroErp.Concurrency.RelyGuarantee

/-!
# One session by itself

With nobody else in the database, a session that answers has done what its program does alone,
whatever the schedule.  One that fails at any of its steps, from inside or from outside, has
committed nothing, provided that its program answers as soon as it has committed.
-/

namespace MicroErp.Concurrency

variable {Op : Type} {Ans : Op → Type} {D W L ε α : Type}

/-- After a commit the program only answers. -/
def Prog.CommitsLast : Prog Op Ans ε α → Prop
  | .ret _ => True
  | .fail _ => True
  | .stmt _ k => ∀ r, (k r).CommitsLast
  | .commit k => ∃ a, k = .ret a

/-- A program that does not commit. -/
def Prog.Silent : Prog Op Ans ε α → Prop
  | .ret _ => True
  | .fail _ => True
  | .stmt _ k => ∀ r, (k r).Silent
  | .commit _ => False

theorem Prog.Silent.bind_silent {β : Type} {p : Prog Op Ans ε α} {f : α → Prog Op Ans ε β}
    (h : p.Silent) (hf : ∀ a, (f a).Silent) : (p >>= f).Silent := by
  induction p with
  | ret a => exact hf a
  | fail e => trivial
  | stmt o k ih => exact fun r ↦ ih r (h r)
  | commit k ih => exact h.elim

theorem Prog.Silent.bind {β : Type} {p : Prog Op Ans ε α} {f : α → Prog Op Ans ε β}
    (h : p.Silent) (hf : ∀ a, (f a).CommitsLast) : (p >>= f).CommitsLast := by
  induction p with
  | ret a => exact hf a
  | fail e => trivial
  | stmt o k ih => exact fun r ↦ ih r (h r)
  | commit k ih => exact h.elim

/-- What is known of a session by itself that runs `p` from `d`. -/
def Session.Tracks (E : Engine Op Ans D W L ε) (p : Prog Op Ans ε α) (d d' : D) :
    Session Op Ans W ε α → Prop
  | .running q ws => (q = .fail E.aborted ∨ E.alone q ws d' = E.alone p [] d) ∧
      (p.CommitsLast → (q.CommitsLast ∧ d' = d) ∨ ∃ a, q = .ret a)
  | .finished (.ok a) => E.alone p [] d = (.ok a, d')
  | .finished (.error e) => (e = E.aborted ∨ (E.alone p [] d).1 = .error e) ∧
      (p.CommitsLast → d' = d)

/-! ## Programs on a database of their own -/

/-- The program with every write in place at once. -/
def Engine.eval (E : Engine Op Ans D W L ε) : Prog Op Ans ε α → D → Except ε (α × D)
  | .ret a, v => .ok (a, v)
  | .fail e, _ => .error e
  | .stmt o k, v =>
      match E.exec o v with
      | .error e => .error e
      | .ok (r, ws) => E.eval (k r) (E.view ws v)
  | .commit k, v => E.eval k v

section Eval

variable {β : Type} {E : Engine Op Ans D W L ε}

@[simp] theorem ok_bind (a : α) (f : α → Except ε β) : (Except.ok a >>= f) = f a := rfl

@[simp] theorem error_bind (e : ε) (f : α → Except ε β) : (Except.error e >>= f) = .error e := rfl

theorem bind_eq_ok {x : Except ε α} {f : α → Except ε β} {b : β} :
    (x >>= f) = .ok b ↔ ∃ a, x = .ok a ∧ f a = .ok b := by
  cases x <;> simp

@[simp] theorem Engine.eval_ret (a : α) (v : D) :
    E.eval (.ret a : Prog Op Ans ε α) v = .ok (a, v) := rfl

@[simp] theorem Engine.eval_fail (e : ε) (v : D) :
    E.eval (.fail e : Prog Op Ans ε α) v = .error e := rfl

@[simp] theorem Engine.eval_commit (k : Prog Op Ans ε α) (v : D) :
    E.eval (.commit k) v = E.eval k v := rfl

theorem Engine.eval_bind (p : Prog Op Ans ε α) (f : α → Prog Op Ans ε β) (v : D) :
    E.eval (p >>= f) v = E.eval p v >>= fun x ↦ E.eval (f x.1) x.2 := by
  induction p generalizing v with
  | ret a => rfl
  | fail e => rfl
  | stmt o k ih =>
    rw [Prog.stmt_bind, eval, eval]
    cases E.exec o v with
    | error e => rfl
    | ok x => exact ih x.1 (E.view x.2 v)
  | commit k ih => exact ih v

theorem Engine.eval_bind_eq_error {p : Prog Op Ans ε α} {f : α → Prog Op Ans ε β} {v : D} {e : ε}
    (h : E.eval (p >>= f) v = .error e) :
    E.eval p v = .error e ∨ ∃ x, E.eval p v = .ok x ∧ E.eval (f x.1) x.2 = .error e := by
  rw [eval_bind] at h
  cases heval : E.eval p v with
  | error e' =>
    rw [heval] at h
    exact Or.inl (congrArg Except.error (Except.error.inj h))
  | ok x =>
    rw [heval] at h
    exact Or.inr ⟨x, rfl, h⟩

/-- A program that writes nothing and does not commit. -/
def Prog.ReadsOnly (E : Engine Op Ans D W L ε) : Prog Op Ans ε α → Prop
  | .ret _ => True
  | .fail _ => True
  | .stmt o k => (∀ v r ws, E.exec o v = .ok (r, ws) → ws = []) ∧ ∀ r, (k r).ReadsOnly E
  | .commit _ => False

/-- A program that answers with nothing pending: what follows its commit only reads. -/
def Prog.Transactional (E : Engine Op Ans D W L ε) : Prog Op Ans ε α → Prop
  | .ret _ => False
  | .fail _ => True
  | .stmt _ k => ∀ r, (k r).Transactional E
  | .commit k => k.ReadsOnly E

theorem Prog.Silent.bind_transactional {p : Prog Op Ans ε α} {f : α → Prog Op Ans ε β}
    (h : p.Silent) (hf : ∀ a, (f a).Transactional E) : (p >>= f).Transactional E := by
  induction p with
  | ret a => exact hf a
  | fail e => trivial
  | stmt o k ih => exact fun r ↦ ih r (h r)
  | commit k ih => exact h.elim

theorem Prog.ReadsOnly.bind {p : Prog Op Ans ε α} {f : α → Prog Op Ans ε β}
    (h : p.ReadsOnly E) (hf : ∀ a, (f a).ReadsOnly E) : (p >>= f).ReadsOnly E := by
  induction p with
  | ret a => exact hf a
  | fail e => trivial
  | stmt o k ih => exact ⟨h.1, fun r ↦ ih r (h.2 r)⟩
  | commit k ih => exact h.elim

theorem Prog.Transactional.bind {p : Prog Op Ans ε α} {f : α → Prog Op Ans ε β}
    (h : p.Transactional E) (hf : ∀ a, (f a).ReadsOnly E) : (p >>= f).Transactional E := by
  induction p with
  | ret a => exact h.elim
  | fail e => trivial
  | stmt o k ih => exact fun r ↦ ih r (h r)
  | commit k ih => exact Prog.ReadsOnly.bind h hf

theorem Prog.CommitsLast.transactional {p : Prog Op Ans ε α} (h : p.CommitsLast)
    (hcommitting : p.Committing) : p.Transactional E := by
  induction p with
  | ret a => exact hcommitting
  | fail e => trivial
  | stmt o k ih => exact fun r ↦ ih r (h r) (hcommitting r)
  | commit k ih =>
    obtain ⟨a, rfl⟩ := h
    trivial

theorem Engine.alone_of_readsOnly {p : Prog Op Ans ε α} (h : p.ReadsOnly E) (d : D) :
    E.alone p [] d = ((E.eval p d).map Prod.fst, d) ∧ ∀ x, E.eval p d = .ok x → x.2 = d := by
  induction p with
  | ret a => exact ⟨rfl, by rintro x ⟨⟩; rfl⟩
  | fail e => exact ⟨rfl, by rintro x ⟨⟩⟩
  | stmt o k ih =>
    rw [alone, eval, view_nil]
    cases hexec : E.exec o d with
    | error e => exact ⟨rfl, by rintro x ⟨⟩⟩
    | ok x =>
      obtain ⟨r, ws⟩ := x
      obtain rfl : ws = [] := h.1 d r ws hexec
      exact ih r (h.2 r)
  | commit k ih => exact h.elim

/-- Run alone, such a program answers what it does on a database of its own. -/
theorem Engine.alone_of_transactional {p : Prog Op Ans ε α} (h : p.Transactional E)
    (ws : List W) (d : D) :
    (E.alone p ws d).1 = (E.eval p (E.view ws d)).map Prod.fst ∧
      ∀ x, E.eval p (E.view ws d) = .ok x → (E.alone p ws d).2 = x.2 := by
  induction p generalizing ws with
  | ret a => exact h.elim
  | fail e => exact ⟨rfl, by rintro x ⟨⟩⟩
  | stmt o k ih =>
    rw [alone, eval]
    cases hexec : E.exec o (E.view ws d) with
    | error e => exact ⟨rfl, by rintro x ⟨⟩⟩
    | ok x =>
      obtain ⟨r, ws'⟩ := x
      simp only [← view_append]
      exact ih r (h r) (ws ++ ws')
  | commit k ih =>
    obtain ⟨halone, hkept⟩ := Engine.alone_of_readsOnly h (E.view ws d)
    rw [alone, eval, halone]
    exact ⟨rfl, fun x hx ↦ (hkept x hx).symm⟩

theorem Engine.eval_of_alone {p : Prog Op Ans ε α} (hp : p.Transactional E) {d d' : D} {a : α}
    (h : E.alone p [] d = (.ok a, d')) : E.eval p d = .ok (a, d') := by
  obtain ⟨hanswer, hdb⟩ := Engine.alone_of_transactional hp [] d
  rw [h, view_nil] at hanswer hdb
  cases heval : E.eval p d with
  | error e =>
    rw [heval] at hanswer
    cases hanswer
  | ok x =>
    rw [heval] at hanswer
    exact congrArg Except.ok (Prod.ext (Except.ok.inj hanswer).symm (hdb x heval).symm)

theorem Engine.alone_error_iff {p : Prog Op Ans ε α} (h : p.Transactional E) {d : D} {e : ε} :
    (E.alone p [] d).1 = .error e ↔ E.eval p d = .error e := by
  rw [(Engine.alone_of_transactional h [] d).1, view_nil]
  cases E.eval p d <;> simp [Except.map]

end Eval

/-! ## Sessions -/

variable [DecidableEq L] {E : Engine Op Ans D W L ε} {p : Prog Op Ans ε α} {d : D}

theorem Session.Tracks.step {s : Sys Unit Op Ans D W L ε α} {e : Event Unit}
    (h : (s.session ()).Tracks E p d s.db) :
    ((E.step s e).session ()).Tracks E p d (E.step s e).db := by
  cases e with
  | step i =>
    simp only [Engine.step, Engine.stepSession]
    split
    case h_1 out hs => exact h
    case h_2 a ws hs =>
      rw [hs] at h
      simp only [Sys.set_session, if_true]
      exact (h.1.resolve_left fun he ↦ by cases he).symm
    case h_3 a ws hs =>
      rw [hs] at h
      simp only [Sys.set_session, if_true]
      refine ⟨h.1.imp (fun he ↦ ?_) fun he ↦ ?_, fun hlast ↦ ?_⟩
      · cases he
        rfl
      · exact (congrArg Prod.fst he).symm
      · exact ((h.2 hlast).resolve_right fun he ↦ he.elim fun _ he ↦ by cases he).2
    case h_4 o k ws hs =>
      rw [hs] at h
      have halone := h.1.resolve_left fun he ↦ by cases he
      have hlast : p.CommitsLast → (∀ r, (k r).CommitsLast) ∧ s.db = d := fun hlast ↦
        (h.2 hlast).resolve_right fun he ↦ he.elim fun _ he ↦ by cases he
      split
      · rw [hs]
        exact h
      · split
        case h_1 a hexec =>
          rw [Sys.set_session, if_pos rfl]
          refine ⟨Or.inr ?_, fun hp ↦ Or.inl ⟨trivial, (hlast hp).2⟩⟩
          rw [← halone, Engine.alone, Engine.alone, hexec]
          rfl
        case h_2 r ws' hexec =>
          simp only [Sys.set_session, if_true]
          refine ⟨Or.inr ?_, fun hp ↦ Or.inl ⟨(hlast hp).1 r, (hlast hp).2⟩⟩
          rw [← halone, Engine.alone, hexec]
          rfl
    case h_5 k ws hs =>
      rw [hs] at h
      have halone := h.1.resolve_left fun he ↦ by cases he
      simp only [Sys.set_session, if_true]
      refine ⟨Or.inr halone, fun hp ↦ Or.inr ?_⟩
      exact ((h.2 hp).resolve_right fun he ↦ he.elim fun _ he ↦ by cases he).1
  | abort i =>
    simp only [Engine.step, Engine.abortSession]
    split
    case h_1 o k ws hs =>
      rw [hs] at h
      rw [Sys.set_session, if_pos rfl]
      refine ⟨Or.inl rfl, fun hp ↦ Or.inl ⟨trivial, ?_⟩⟩
      exact ((h.2 hp).resolve_right fun he ↦ he.elim fun _ he ↦ by cases he).2
    case h_2 k ws hs =>
      rw [hs] at h
      rw [Sys.set_session, if_pos rfl]
      refine ⟨Or.inl rfl, fun hp ↦ Or.inl ⟨trivial, ?_⟩⟩
      exact ((h.2 hp).resolve_right fun he ↦ he.elim fun _ he ↦ by cases he).2
    case h_3 => exact h

theorem Engine.tracks_run (p : Prog Op Ans ε α) (d : D) (es : List (Event Unit)) :
    ((E.run (Sys.start d fun _ : Unit ↦ p) es).session ()).Tracks E p d
      (E.run (Sys.start d fun _ : Unit ↦ p) es).db := by
  have hrun : ∀ {s : Sys Unit Op Ans D W L ε α}, (s.session ()).Tracks E p d s.db →
      ((E.run s es).session ()).Tracks E p d (E.run s es).db := by
    induction es with
    | nil => exact id
    | cons e es ih => exact fun h ↦ ih h.step
  exact hrun ⟨Or.inr rfl, fun hp ↦ Or.inl ⟨hp, rfl⟩⟩

/-- A session by itself that answers does what its program does alone. -/
theorem Engine.alone_of_answer {es : List (Event Unit)} {a : α}
    (h : (E.run (Sys.start d fun _ : Unit ↦ p) es).outcome () = some (.ok a)) :
    E.alone p [] d = (.ok a, (E.run (Sys.start d fun _ : Unit ↦ p) es).db) := by
  have htracks := E.tracks_run p d es
  rwa [Sys.outcome_eq_some.1 h] at htracks

/-- A session by itself that fails leaves everything as it was. -/
theorem Engine.unchanged_of_error {es : List (Event Unit)} {e : ε} (hp : p.CommitsLast)
    (h : (E.run (Sys.start d fun _ : Unit ↦ p) es).outcome () = some (.error e)) :
    (E.run (Sys.start d fun _ : Unit ↦ p) es).db = d := by
  have htracks := E.tracks_run p d es
  rw [Sys.outcome_eq_some.1 h] at htracks
  exact htracks.2 hp

theorem Engine.eval_of_answer {es : List (Event Unit)} {a : α} (hp : p.Transactional E)
    (h : (E.run (Sys.start d fun _ : Unit ↦ p) es).outcome () = some (.ok a)) :
    E.eval p d = .ok (a, (E.run (Sys.start d fun _ : Unit ↦ p) es).db) :=
  Engine.eval_of_alone hp (E.alone_of_answer h)

end MicroErp.Concurrency
