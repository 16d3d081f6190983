import MicroErp.Concurrency.LockOrder
import Mathlib.Data.DFinsupp.WellFounded
import Mathlib.SetTheory.Ordinal.Family

/-!
# Everybody can finish

A session that waits for nobody comes nearer to its end with each step.  Where no sessions wait for
each other in a circle, some steps therefore bring all of them to their ends, and nobody is aborted.
-/

namespace MicroErp.Concurrency

variable {ι Op : Type} {Ans : Op → Type} {D W L H ε α : Type}

/-- How far a program is from its end. -/
noncomputable def Prog.rank : Prog Op Ans ε α → Ordinal.{0}
  | .ret _ => 0
  | .fail _ => 0
  | .stmt _ k => Order.succ (⨆ r, (k r).rank)
  | .commit k => Order.succ k.rank

theorem Prog.rank_next {o : Op} (k : Ans o → Prog Op Ans ε α) (r : Ans o) :
    (k r).rank < (Prog.stmt o k).rank :=
  Order.lt_succ_of_le (Ordinal.le_iSup (fun r ↦ (k r).rank) r)

theorem Prog.rank_fail {o : Op} (k : Ans o → Prog Op Ans ε α) (e : ε) :
    (Prog.fail e : Prog Op Ans ε α).rank < (Prog.stmt o k).rank :=
  Order.lt_succ_of_le zero_le

noncomputable def Session.rank : Session Op Ans W ε α → Ordinal.{0}
  | .running p _ => Order.succ p.rank
  | .finished _ => 0

section Steps

variable [DecidableEq ι] {E : Engine Op Ans D W L ε} {s : Sys ι Op Ans D W L ε α} {i : ι}

/-- The session is running and waits for nobody. -/
def Sys.CanGoOn (E : Engine Op Ans D W L ε) (s : Sys ι Op Ans D W L ε α) (i : ι) : Prop :=
  (∃ p ws, s.session i = .running p ws) ∧ ∀ j, ¬s.WaitsFor E i j

variable [DecidableEq L]

theorem Sys.waitsFor_of_blocked {o : Op} {k : Ans o → Prog Op Ans ε α} {ws : List W}
    (hrun : s.session i = .running (.stmt o k) ws)
    (h : s.blocked i (E.needs o (E.view ws s.db)) = true) : ∃ j, s.WaitsFor E i j := by
  simp only [blocked, List.any_eq_true, Bool.and_eq_true, decide_eq_true_eq] at h
  obtain ⟨⟨j, l, m'⟩, hheld, hne, ⟨l', m⟩, hneeds, heq, hconflict⟩ := h
  obtain rfl : l = l' := heq
  refine ⟨j, l, fun hij ↦ hne hij.symm, m, m', ⟨o, k, ws, hrun, hneeds⟩, Sys.mem_locksOf.2 hheld, ?_⟩
  rwa [LockMode.conflicts_comm]

/-- A step of such a session brings it nearer to its end. -/
theorem Sys.CanGoOn.rank_lt (h : s.CanGoOn E i) :
    (fun j ↦ ((E.stepSession s i).session j).rank) < fun j ↦ (s.session j).rank := by
  have hset : ∀ x : Session Op Ans W ε α, x.rank < (s.session i).rank →
      (fun j ↦ ((s.set i x).session j).rank) < fun j ↦ (s.session j).rank := by
    intro x hx
    refine Pi.lt_def.2 ⟨fun j ↦ ?_, i, ?_⟩
    · change ((s.set i x).session j).rank ≤ (s.session j).rank
      rw [Sys.set_session]
      split
      · rename_i hj
        exact hj ▸ hx.le
      · exact le_rfl
    · rw [Sys.set_session, if_pos rfl]
      exact hx
  obtain ⟨⟨p, ws, hrun⟩, hfree⟩ := h
  simp only [Engine.stepSession, hrun]
  cases p with
  | ret a => exact hset _ (by rw [hrun]; exact Order.lt_succ_of_le zero_le)
  | fail e => exact hset _ (by rw [hrun]; exact Order.lt_succ_of_le zero_le)
  | commit k => exact hset _ (by rw [hrun]; exact Order.succ_lt_succ (Order.lt_succ _))
  | stmt o k =>
    dsimp only
    split
    · rename_i hblocked
      obtain ⟨j, hj⟩ := Sys.waitsFor_of_blocked hrun hblocked
      exact (hfree j hj).elim
    · split
      · exact hset _ (by rw [hrun]; exact Order.succ_lt_succ (Prog.rank_fail k _))
      · exact hset _ (by rw [hrun]; exact Order.succ_lt_succ (Prog.rank_next k _))

/-- Where waiting never goes in a circle, steps alone bring everybody to an end. -/
theorem Engine.exists_finish [Finite ι] [PartialOrder H] {O : LockOrder L H}
    {idle : ι → L × LockMode → Prop} (hordered : ∀ es, (E.run s es).Ordered E O idle)
    (hended : ∀ es {i out}, (E.run s es).session i = .finished out → (E.run s es).locksOf i = []) :
    ∃ es, (∀ e ∈ es, ∃ i, e = .step i) ∧ ∀ i, ((E.run s es).outcome i).isSome := by
  generalize hrank : (fun j ↦ (s.session j).rank) = ranks
  induction ranks using WellFoundedLT.induction generalizing s with
  | ind ranks ih =>
    by_cases hdone : ∀ i, (s.outcome i).isSome
    · exact ⟨[], fun _ he ↦ (List.not_mem_nil he).elim, hdone⟩
    obtain ⟨i, hi⟩ := not_forall.1 hdone
    obtain ⟨j, hchain, hfree⟩ := (hordered []).exists_free i
    -- the last session of the chain is running: it is `i`, or somebody waits for it
    have hrunning : ∃ p ws, s.session j = .running p ws := by
      cases hj : s.session j with
      | running p ws => exact ⟨p, ws, rfl⟩
      | finished out =>
        rcases Relation.ReflTransGen.cases_tail hchain with rfl | ⟨k, -, l, -, m, m', -, hheld, -⟩
        · exact (hi (by rw [Sys.outcome_eq_some.2 hj]; rfl)).elim
        · change (l, m') ∈ s.locksOf j at hheld
          rw [show s.locksOf j = [] from hended [] hj] at hheld
          cases hheld
    have hgoes : s.CanGoOn E j := ⟨hrunning, hfree⟩
    obtain ⟨es, hsteps, hes⟩ := ih _ (hrank ▸ hgoes.rank_lt) (s := E.stepSession s j)
      (fun es ↦ hordered (.step j :: es)) (fun es ↦ hended (.step j :: es)) rfl
    exact ⟨.step j :: es, List.forall_mem_cons.2 ⟨⟨j, rfl⟩, hsteps⟩, hes⟩

end Steps

end MicroErp.Concurrency
