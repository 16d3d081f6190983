import MicroErp.Concurrency.Outline

/-!
# Every commit of a run

The history of a run lists its commits in their order, so the database before and after each of
them can be read off it.
-/

namespace MicroErp.Concurrency

variable {ι Op : Type} {Ans : Op → Type} {D W L ε α : Type}

/-- `P` relates the databases before and after each commit of a history that begins in `d`. -/
inductive Engine.EachCommit (E : Engine Op Ans D W L ε) (P : ι → D → D → Prop) :
    D → List (ι × List W) → Prop
  | nil (d : D) : EachCommit E P d []
  | cons {d : D} {x : ι × List W} {log : List (ι × List W)} (h : P x.1 d (E.view x.2 d))
      (hlog : EachCommit E P (E.view x.2 d) log) : EachCommit E P d (x :: log)

variable {E : Engine Op Ans D W L ε} {P : ι → D → D → Prop}

theorem Engine.EachCommit.append {d : D} {log : List (ι × List W)} {x : ι × List W}
    (h : E.EachCommit P d log)
    (hx : P x.1 (log.foldl (fun d x ↦ E.view x.2 d) d)
      (E.view x.2 (log.foldl (fun d x ↦ E.view x.2 d) d))) : E.EachCommit P d (log ++ [x]) := by
  induction h with
  | nil d => exact .cons hx (.nil _)
  | cons hy _ ih => exact .cons hy (ih hx)

variable [DecidableEq ι] [DecidableEq L]

/-- What each guaranteed commit does, as long as it meets what is assumed of it, is done by every
commit of a run. -/
theorem Sound.each_commit {C : ι → Contract Op D W L α} {foot : W → List (L × LockMode)} {d : D}
    {script : ι → Prog Op Ans ε α} {ok : ι → List (L × LockMode) → D → Prop} {es : List (Event ι)}
    (hs : Sound E C foot (Sys.start d script)) (hC : Compatible E C foot)
    (hmeets : E.Meets (fun i ↦ (C i).allow) (Sys.start d script) es)
    (hcommits : E.CommitsMeet ok (Sys.start d script) es)
    (hstep : ∀ i lk ws d, (C i).guar lk ws d → (∀ w ∈ ws, foot w ⊆ lk) →
      (ws ≠ [] → ok i lk d) → P i d (E.view ws d)) :
    E.EachCommit P d (E.run (Sys.start d script) es).log := by
  have hboth := hs.history_of_commits hC hmeets hcommits (J := fun d' log ↦
    d' = log.foldl (fun d x ↦ E.view x.2 d) d ∧ E.EachCommit P d log) ⟨rfl, .nil d⟩
    fun i lk ws d' log h hguar hfoot hok ↦ ?_
  · exact hboth.2
  · obtain ⟨rfl, hlog⟩ := h
    rw [List.foldl_append]
    exact ⟨rfl, hlog.append (hstep i lk ws _ hguar hfoot hok)⟩

end MicroErp.Concurrency
