import MicroErp.Concurrency.RelyGuarantee
import Mathlib.Data.List.Nodup

/-!
# Serializability

A session whose contract is tracked stays in step with a run of its program alone from the latest
committed database, until the moment when its outcome is fixed: its commit, a failure, or a last
read.  Listing the sessions in the order of these moments gives a serial order with the same
outcomes and the same database.
-/

namespace MicroErp.Concurrency

variable {ι Op : Type} {Ans : Op → Type} {D W L ε α : Type}

namespace Engine

variable (E : Engine Op Ans D W L ε)

/-- The programs of `order` one after the other: their outcomes and the database at the end. -/
def serial (script : ι → Prog Op Ans ε α) : List ι → D → List (ι × Except ε α) × D
  | [], d => ([], d)
  | i :: order, d =>
      let first := E.alone (script i) [] d
      let rest := serial script order first.2
      ((i, first.1) :: rest.1, rest.2)

variable {E}

theorem serial_append {script : ι → Prog Op Ans ε α} {order order' : List ι} {d : D} :
    E.serial script (order ++ order') d =
      ((E.serial script order d).1 ++ (E.serial script order' (E.serial script order d).2).1,
        (E.serial script order' (E.serial script order d).2).2) := by
  induction order generalizing d with
  | nil => rfl
  | cons i order ih => simp only [List.cons_append, serial, ih]

theorem serial_fst_map (script : ι → Prog Op Ans ε α) (order : List ι) (d : D) :
    (E.serial script order d).1.map Prod.fst = order := by
  induction order generalizing d with
  | nil => rfl
  | cons i order ih => simp only [serial, List.map_cons, ih]

end Engine

variable (E : Engine Op Ans D W L ε) (C : ι → Contract Op D W L α)

/-- Where session `i` stands against a serial order of the sessions whose outcome is fixed. -/
def Placed (script : ι → Prog Op Ans ε α) (outcomes : List (ι × Except ε α)) (i : ι)
    (lk : List (L × LockMode)) (d : D) : Session Op Ans W ε α → Prop
  | .finished out => (i, out) ∈ outcomes
  | .running p ws =>
      (∃ out, (i, out) ∈ outcomes ∧ Settled out ws p) ∨
        (i ∉ outcomes.map Prod.fst ∧ ∀ d', (C i).rely lk d d' → E.ready (C i) p ws d' →
          E.alone p ws d' = E.alone (script i) [] d')

variable {E C}

section Steps

variable [DecidableEq ι]

/-- The serial order explains the committed database and every session. -/
def Explains (E : Engine Op Ans D W L ε) (C : ι → Contract Op D W L α)
    (script : ι → Prog Op Ans ε α) (d₀ : D) (order : List ι) (s : Sys ι Op Ans D W L ε α) : Prop :=
  order.Nodup ∧ (E.serial script order d₀).2 = s.db ∧
    ∀ i, Placed E C script (E.serial script order d₀).1 i (s.locksOf i) s.db (s.session i)

variable {foot : W → List (L × LockMode)} {script : ι → Prog Op Ans ε α} {d₀ : D} {order : List ι}

omit [DecidableEq ι] in
theorem Placed.mono {outcomes outcomes' : List (ι × Except ε α)} {i : ι}
    {lk lk' : List (L × LockMode)} {d d' : D} {x : Session Op Ans W ε α}
    (hC : Compatible E C foot) (h : Placed E C script outcomes i lk d x)
    (hsub : outcomes ⊆ outcomes') (hnew : i ∈ outcomes'.map Prod.fst → i ∈ outcomes.map Prod.fst)
    (hlk : lk ⊆ lk') (hrely : (C i).rely lk d d') : Placed E C script outcomes' i lk' d' x := by
  cases x with
  | finished out => exact hsub h
  | running p ws =>
    rcases h with ⟨out, hout, hsettled⟩ | ⟨hi, htracks⟩
    · exact Or.inl ⟨out, hsub hout, hsettled⟩
    · exact Or.inr ⟨fun hi' ↦ hi (hnew hi'),
        fun d'' hd'' ↦ htracks d'' (hC.trans hrely (hC.mono hlk hd''))⟩

/-- Session `i` is put at the end of the order when its run alone from here gives what it did. -/
theorem Explains.extend {s s' : Sys ι Op Ans D W L ε α} {i : ι} (out : Except ε α)
    (hC : Compatible E C foot) (h : Explains E C script d₀ order s)
    (hi : i ∉ order) (halone : E.alone (script i) [] s.db = (out, s'.db))
    (hplaced : ∀ outcomes, (i, out) ∈ outcomes →
      Placed E C script outcomes i (s'.locksOf i) s'.db (s'.session i))
    (hsession : ∀ j, j ≠ i → s'.session j = s.session j)
    (hlocks : ∀ j, j ≠ i → s'.locksOf j = s.locksOf j)
    (hrely : ∀ j, j ≠ i → (C j).rely (s.locksOf j) s.db s'.db) :
    Explains E C script d₀ (order ++ [i]) s' := by
  obtain ⟨hnodup, hdb, hsessions⟩ := h
  have hserial : E.serial script (order ++ [i]) d₀ =
      ((E.serial script order d₀).1 ++ [(i, out)], s'.db) := by
    rw [Engine.serial_append, hdb]
    simp only [Engine.serial, halone]
  refine ⟨?_, by rw [hserial], fun j ↦ ?_⟩
  · exact hnodup.append (List.nodup_singleton i) (by simpa using hi)
  · rw [hserial]
    by_cases hj : j = i
    · subst hj
      exact hplaced _ (by simp)
    · rw [hsession j hj, hlocks j hj]
      refine (hsessions j).mono hC (List.subset_append_left _ _) ?_ (List.Subset.refl _) (hrely j hj)
      simp [hj]

/-- A step of session `i` that fixes no outcome keeps the order. -/
theorem Explains.keep {s s' : Sys ι Op Ans D W L ε α} {i : ι}
    (h : Explains E C script d₀ order s) (hdb : s'.db = s.db)
    (hplaced : Placed E C script (E.serial script order d₀).1 i (s'.locksOf i) s.db
      (s'.session i))
    (hsession : ∀ j, j ≠ i → s'.session j = s.session j)
    (hlocks : ∀ j, j ≠ i → s'.locksOf j = s.locksOf j) :
    Explains E C script d₀ order s' := by
  obtain ⟨hnodup, hserial, hsessions⟩ := h
  refine ⟨hnodup, by rw [hserial, hdb], fun j ↦ ?_⟩
  rw [hdb]
  by_cases hj : j = i
  · subst hj
    exact hplaced
  · rw [hsession j hj, hlocks j hj]
    exact hsessions j

variable [DecidableEq L]

theorem Explains.move {s s' : Sys ι Op Ans D W L ε α} {i : ι}
    (hC : Compatible E C foot) (htracked : ∀ i, (C i).tracked) (hs : Sound E C foot s)
    (h : Explains E C script d₀ order s) (hmove : E.Move s (.step i) s')
    (hallow : ∀ o k ws, s.session i = .running (.stmt o k) ws →
      s.blocked i (E.needs o (E.view ws s.db)) = false → (C i).allow o (E.view ws s.db)) :
    ∃ order', Explains E C script d₀ order' s' := by
  have hplace := h.2.2 i
  have hfresh : i ∉ (E.serial script order d₀).1.map Prod.fst → i ∉ order := by
    rw [Engine.serial_fst_map]
    exact id
  cases hmove with
  | stay => exact ⟨order, h⟩
  | @answer _ a ws hrun =>
    have hlocks := Sys.locksOf_of_released s { s.set i (.finished (.ok a)) with
      held := s.released i } rfl
    rw [hrun] at hplace
    rcases hplace with ⟨out, hout, rfl⟩ | ⟨hi, htracks⟩
    · refine ⟨order, h.keep (i := i) rfl ?_ (fun j hj ↦ by simp [Sys.set_session, hj])
        (fun j hj ↦ by rw [hlocks, if_neg hj])⟩
      simpa [Sys.set_session, Placed] using hout
    · refine ⟨order ++ [i], h.extend (.ok a) hC (hfresh hi) ?_ ?_
        (fun j hj ↦ by simp [Sys.set_session, hj]) (fun j hj ↦ by rw [hlocks, if_neg hj])
        (fun j _ ↦ hC.refl j _ _)⟩
      · exact (htracks s.db (hC.refl i _ _) trivial).symm
      · intro outcomes hmem
        simpa [Sys.set_session, Placed] using hmem
  | @rollback _ e ws hrun =>
    have hlocks := Sys.locksOf_of_released s { s.set i (.finished (.error e)) with
      held := s.released i } rfl
    rw [hrun] at hplace
    rcases hplace with ⟨out, hout, rfl⟩ | ⟨hi, htracks⟩
    · refine ⟨order, h.keep (i := i) rfl ?_ (fun j hj ↦ by simp [Sys.set_session, hj])
        (fun j hj ↦ by rw [hlocks, if_neg hj])⟩
      simpa [Sys.set_session, Placed] using hout
    · refine ⟨order ++ [i], h.extend (.error e) hC (hfresh hi) ?_ ?_
        (fun j hj ↦ by simp [Sys.set_session, hj]) (fun j hj ↦ by rw [hlocks, if_neg hj])
        (fun j _ ↦ hC.refl j _ _)⟩
      · exact (htracks s.db (hC.refl i _ _) trivial).symm
      · intro outcomes hmem
        simpa [Sys.set_session, Placed] using hmem
  | @refuse _ o k ws e hrun hfree hexec =>
    rw [hrun] at hplace
    rcases hplace with ⟨out, -, hsettled⟩ | ⟨hi, htracks⟩
    · exact hsettled.elim
    · refine ⟨order ++ [i], h.extend (.error e) hC (hfresh hi) ?_ ?_
        (fun j hj ↦ by simp [Sys.set_session, hj]) (fun _ _ ↦ rfl) (fun j _ ↦ hC.refl j _ _)⟩
      · rw [← htracks s.db (hC.refl i _ _) (hallow o k ws hrun hfree), Engine.alone, hexec]
        rfl
      · intro outcomes hmem
        simp only [Sys.set_session, if_pos]
        exact Or.inl ⟨_, hmem, rfl⟩
  | @execute _ o k ws r ws' hrun hfree hexec =>
    have hlocks := Sys.locksOf_of_append s
      { s.set i (.running (k r) (ws ++ ws')) with
        held := s.held ++ (E.needs o (E.view ws s.db)).map fun l ↦ (i, l) } rfl
    rw [hrun] at hplace
    rcases hplace with ⟨out, -, hsettled⟩ | ⟨hi, htracks⟩
    · exact hsettled.elim
    have hready := hallow o k ws hrun hfree
    have hstep : E.alone (k r) (ws ++ ws') s.db = E.alone (script i) [] s.db := by
      rw [← htracks s.db (hC.refl i _ _) hready, Engine.alone, hexec]
    have hfollows := (hs.running hrun s.db (hC.refl i _ _) hready r ws' hexec).1 (htracked i)
    rcases hfollows with ⟨out, hsettled⟩ | hfollows
    · refine ⟨order ++ [i], h.extend out hC (hfresh hi) ?_ ?_
        (fun j hj ↦ by simp [Sys.set_session, hj])
        (fun j hj ↦ by rw [hlocks, if_neg hj, List.append_nil]) (fun j _ ↦ hC.refl j _ _)⟩
      · rw [← hstep, Engine.alone_of_settled E hsettled]
        rfl
      · intro outcomes hmem
        simp only [Sys.set_session, if_pos]
        exact Or.inl ⟨_, hmem, hsettled⟩
    · refine ⟨order, h.keep (i := i) rfl ?_ (fun j hj ↦ by simp [Sys.set_session, hj])
        (fun j hj ↦ by rw [hlocks, if_neg hj, List.append_nil])⟩
      rw [hlocks, if_pos rfl]
      simp only [Sys.set_session, if_pos]
      refine Or.inr ⟨hi, fun d' hrely hnext ↦ ?_⟩
      obtain ⟨hready', halone⟩ := hfollows d' hrely hnext
      rw [halone]
      exact htracks d' (hC.mono (List.subset_append_left _ _) hrely) hready'
  | @commit _ k ws hrun =>
    have hlocks := Sys.locksOf_of_released s { s.set i (.running k []) with
      db := E.view ws s.db, held := s.released i, log := s.log ++ [(i, ws)] } rfl
    rw [hrun] at hplace
    obtain ⟨hguar, hend, -⟩ := hs.running hrun s.db (hC.refl i _ _)
    rcases hplace with ⟨out, hout, hsettled⟩ | ⟨hi, htracks⟩
    · cases k with
      | ret a =>
        obtain ⟨rfl, rfl⟩ := hsettled
        refine ⟨order, h.keep (i := i) rfl ?_ (fun j hj ↦ by simp [Sys.set_session, hj])
          (fun j hj ↦ by rw [hlocks, if_neg hj])⟩
        simp only [Sys.set_session, if_pos]
        exact Or.inl ⟨_, hout, rfl⟩
      | fail e => exact hsettled.elim
      | stmt o k => exact hsettled.elim
      | commit k => exact hsettled.elim
    · rcases hend with ⟨a, rfl⟩ | ⟨rfl, hnone⟩
      · refine ⟨order ++ [i], h.extend (.ok a) hC (hfresh hi) ?_ ?_
          (fun j hj ↦ by simp [Sys.set_session, hj]) (fun j hj ↦ by rw [hlocks, if_neg hj])
          (fun j hj ↦ hC.others hj hguar (hs.covered hrun) (hs.apart j i hj))⟩
        · rw [← htracks s.db (hC.refl i _ _) trivial]
          rfl
        · intro outcomes hmem
          simp only [Sys.set_session, if_pos]
          exact Or.inl ⟨_, hmem, rfl⟩
      · refine ⟨order, h.keep (i := i) rfl ?_ (fun j hj ↦ by simp [Sys.set_session, hj])
          (fun j hj ↦ by rw [hlocks, if_neg hj])⟩
        rw [hlocks, if_pos rfl]
        simp only [Sys.set_session, if_pos]
        refine Or.inr ⟨hi, fun d' hrely _ ↦ ?_⟩
        rw [← htracks d' (hnone ▸ hrely) trivial]
        rfl

/-- Every run of tracked sessions is explained by a serial order, if no statement fails from
outside. -/
theorem Explains.run {s : Sys ι Op Ans D W L ε α} {es : List ι} (hC : Compatible E C foot)
    (htracked : ∀ i, (C i).tracked) (hs : Sound E C foot s)
    (hmeets : E.Meets (fun i ↦ (C i).allow) s (es.map .step))
    (h : Explains E C script d₀ order s) :
    ∃ order', Explains E C script d₀ order' (E.run s (es.map .step)) := by
  induction es generalizing s order with
  | nil => exact ⟨order, h⟩
  | cons i es ih =>
    have hmove := E.step_move s (.step i)
    obtain ⟨order', h'⟩ := h.move hC htracked hs hmove fun o k ws ↦ hmeets.1 i o k ws rfl
    exact ih (hs.move hC hmove hmeets.1) hmeets.2 h'

end Steps

/-- Sessions that have all answered did what they would do one after the other, in some order. -/
theorem serializable [DecidableEq ι] [DecidableEq L] {foot : W → List (L × LockMode)}
    {script : ι → Prog Op Ans ε α} {d : D} {es : List ι} (hC : Compatible E C foot)
    (htracked : ∀ i, (C i).tracked) (hwp : ∀ i, E.wp (C i) (script i) [] [] d)
    (hmeets : E.Meets (fun i ↦ (C i).allow) (Sys.start d script) (es.map .step))
    (hdone : ∀ i, ∃ out,
      (E.run (Sys.start d script) (es.map .step)).session i = .finished out) :
    ∃ order : List ι, order.Nodup ∧ (∀ i, i ∈ order) ∧
      (E.serial script order d).2 = (E.run (Sys.start d script) (es.map .step)).db ∧
      ∀ i out, (E.run (Sys.start d script) (es.map .step)).session i = .finished out →
        (i, out) ∈ (E.serial script order d).1 := by
  have hexplains : Explains E C script d [] (Sys.start d script) :=
    ⟨List.nodup_nil, rfl, fun i ↦ Or.inr ⟨by simp [Engine.serial], fun _ _ _ ↦ rfl⟩⟩
  have hsound : Sound E C foot (Sys.start d script) := Sound.start hwp
  obtain ⟨order, hnodup, hserial, hsessions⟩ := hexplains.run hC htracked hsound hmeets
  have houtcome : ∀ i out,
      (E.run (Sys.start d script) (es.map .step)).session i = .finished out →
        (i, out) ∈ (E.serial script order d).1 := by
    intro i out hout
    have hplaced := hsessions i
    rw [hout] at hplaced
    exact hplaced
  refine ⟨order, hnodup, fun i ↦ ?_, hserial, houtcome⟩
  obtain ⟨out, hout⟩ := hdone i
  rw [← Engine.serial_fst_map (E := E) script order d]
  exact List.mem_map_of_mem (houtcome i out hout)

end MicroErp.Concurrency
