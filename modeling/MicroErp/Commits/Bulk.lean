import MicroErp.Commits.Rules

/-!
# Bulk updates

An `UPDATE` of many rows waits for each row of its snapshot and checks the condition again.  The
rows it has updated are locked, so it stays true of them that they met the condition.
-/

namespace MicroErp.Commits

open MicroErp.Concurrency MicroErp.Database MicroErp.Services MicroErp.Storage

variable {S : Setting} {req : Request} {env : Env} {d d' : Db} {lk lk' : List (LockName × LockMode)}
  {ws : List Write}

/-- The rows `done` are updated by `f`. -/
def bulk (f : Transaction → Transaction) (done : List Uuid) : Effect :=
  { Effect.none with tweak := fun t ↦ if t.id ∈ done then f t else t }

/-- A bulk update that has updated the rows `done`, for which `p` held, by `f`. -/
structure Updating (S : Setting) (req : Request) (env : Env) (p : Transaction → Prop)
    (f : Transaction → Transaction) (done : List Uuid) (ws : List Write)
    (lk : List (LockName × LockMode)) (d : Db) : Prop where
  pending : Pending S req env ws lk d (bulk f done)
  locked : ∀ id ∈ done, (.transaction id, .noKeyUpdate) ∈ lk
  rows : ∀ id ∈ done, ∃ t, d.transactions.find id = some t ∧ p t

namespace Updating

variable {p : Transaction → Prop} {f : Transaction → Transaction} {done : List Uuid}

theorem nil : Updating S req env p f [] [] lk d := by
  refine ⟨?_, fun _ h ↦ (List.not_mem_nil h).elim, fun _ h ↦ (List.not_mem_nil h).elim⟩
  have hbulk : bulk f [] = Effect.none := by simp [bulk, Effect.none, Function.id_def]
  rw [hbulk]
  exact Pending.nil

theorem stable (h : Updating S req env p f done ws lk d) (hlk : lk ⊆ lk')
    (hrely : Rely S req env lk d d') : Updating S req env p f done ws lk' d' where
  pending := h.pending.stable hlk hrely
  locked id hid := hlk (h.locked id hid)
  rows id hid := by
    obtain ⟨t, hfind, ht⟩ := h.rows id hid
    exact ⟨t, (hrely.transaction id .noKeyUpdate (h.locked id hid) nofun).trans hfind, ht⟩

theorem of_mem (h : Updating S req env p f done ws lk d) {t : Transaction}
    (ht : t ∈ d.transactions.rows) (hid : t.id ∈ done) : p t := by
  obtain ⟨t', hfind, ht'⟩ := h.rows t.id hid
  obtain ⟨hmem, hid'⟩ := Table.find_eq_some.1 hfind
  exact Db.eq_of_id ht hmem hid'.symm ▸ ht'

/-- A row that is still to come looks to the session as it is committed. -/
theorem find_of_not_mem (h : Updating S req env p f done ws lk d) {id : Uuid} (hid : id ∉ done) :
    (postgres.view ws d).transactions.find id = d.transactions.find id := by
  have hrows := (h.pending.yields d Rely.refl).transactions
  have hkeep : ∀ t, (if t.id ∈ done then f t else t).id = t.id := fun t ↦
    congrArg (·.id) (h.pending.core t)
  unfold Table.find
  rw [hrows, bulk, Effect.none, List.append_nil, List.find?_map]
  simp only [Function.comp_def, Transaction.key_eq, hkeep]
  cases hfind : d.transactions.rows.find? fun t ↦ t.id = id with
  | none => rfl
  | some t =>
    have htid : t.id = id := by simpa using List.find?_some hfind
    simp [htid, hid]

/-- Updating one more row, which is locked and meets the condition. -/
theorem snoc (h : Updating S req env p f done ws lk d) {id : Uuid} {w : Write}
    (hw : ∀ d, w.apply d = { d with transactions := d.transactions.modify id f })
    (hf : ∀ t, (f t).toCore = t.toCore) (hid : id ∉ done)
    (hlock : (.transaction id, .noKeyUpdate) ∈ lk)
    (hrow : ∃ t, d.transactions.find id = some t ∧ p t) :
    Updating S req env p f (done ++ [id]) (ws ++ [w]) lk d := by
  refine ⟨⟨fun d' hrely ↦ ?_, ⟨List.nodup_nil, fun _ h ↦ (List.not_mem_nil h).elim,
    List.nodup_nil, fun _ h ↦ (List.not_mem_nil h).elim⟩, fun _ h ↦ (List.not_mem_nil h).elim,
    fun t ↦ ?_, fun _ ↦ rfl, rfl⟩, fun i hi ↦ ?_, fun i hi ↦ ?_⟩
  · have hy := h.pending.yields d' hrely
    rw [Engine.view_append, Engine.view_cons, Engine.view_nil, postgres_write, hw]
    refine ⟨?_, hy.customers, hy.batches⟩
    rw [Table.rows_modify, hy.transactions]
    simp only [bulk, Effect.none, List.append_nil, List.map_map]
    apply List.map_congr_left
    intro t _
    simp only [Function.comp_apply, Transaction.key_eq, List.mem_append, List.mem_singleton]
    have hfid : (f t).id = t.id := congrArg (·.id) (hf t)
    by_cases ht : t.id ∈ done
    · have hne : t.id ≠ id := fun heq ↦ hid (heq ▸ ht)
      simp [ht, hfid, hne]
    · by_cases heq : t.id = id
      · simp [heq, hid, Table.amend, hfid]
      · simp [ht, heq]
  · simp only [bulk]
    split
    · exact hf t
    · rfl
  · rcases List.mem_append.1 hi with hi | hi
    · exact h.locked i hi
    · obtain rfl := List.mem_singleton.1 hi
      exact hlock
  · rcases List.mem_append.1 hi with hi | hi
    · exact h.rows i hi
    · obtain rfl := List.mem_singleton.1 hi
      exact hrow

/-- One statement of the update: its row is updated, or does not meet the condition any more. -/
theorem wp_step [DecidablePred p] {o : Sql} {k : o.Ans → Script Answer} {id : Uuid} {w : Write}
    (h : Updating S req env p f done ws lk d) (answer : o.Ans) (hid : id ∉ done)
    (hexec : ∀ v, o.exec v =
      .ok (answer, if ((v.transactions.find id).filter fun t ↦ p t).isSome then [w] else []))
    (hlocks : ∀ v, ((v.transactions.find id).filter fun t ↦ p t).isSome →
      (.transaction id, .noKeyUpdate) ∈ o.locks v)
    (hw : ∀ d, w.apply d = { d with transactions := d.transactions.modify id f })
    (hf : ∀ t, (f t).toCore = t.toCore) (hallow : ∀ v, S.allow req env o v)
    (hsame : S.quiet → ∀ lk' d₁ d₂, lk ⊆ lk' → Rely S req env lk d d₁ →
      Rely S req env lk' d₁ d₂ → ((d₂.transactions.find id).filter fun t ↦ p t).isSome =
        ((d₁.transactions.find id).filter fun t ↦ p t).isSome)
    (hyes : ∀ ws' lk' d', lk ⊆ lk' → Rely S req env lk d d' →
      Updating S req env p f (done ++ [id]) ws' lk' d' →
        postgres.wp (contract S req env) (k answer) ws' lk' d')
    (hno : ∀ lk' d', lk ⊆ lk' → Rely S req env lk d d' →
      (∀ t ∈ d'.transactions.rows, t.id = id → ¬p t) →
      Updating S req env p f done ws lk' d' →
        postgres.wp (contract S req env) (k answer) ws lk' d') :
    postgres.wp (contract S req env) (.stmt o k) ws lk d := by
  intro d₁ hrely₁ _ r ws' hexec₁
  have h₁ := h.stable (List.Subset.refl _) hrely₁
  rw [postgres_exec, hexec, h₁.find_of_not_mem hid] at hexec₁
  obtain ⟨rfl, rfl⟩ : answer = r ∧
      (if ((d₁.transactions.find id).filter fun t ↦ p t).isSome then [w] else []) = ws' := by
    simpa using hexec₁
  have hsub := List.subset_append_left lk (postgres.needs o (postgres.view ws d₁))
  refine ⟨fun hS ↦ Engine.follows_of_exec fun d₂ hrely₂ ↦ ⟨hallow _, ?_⟩, ?_⟩
  · have h₂ := h₁.stable (List.Subset.refl _) (Rely.mono hsub hrely₂)
    rw [postgres_exec, hexec, h₂.find_of_not_mem hid, hsame hS _ d₁ d₂ hsub hrely₁ hrely₂]
  · cases hfound : ((d₁.transactions.find id).filter fun t ↦ p t).isSome with
    | true =>
      obtain ⟨t, ht⟩ := Option.isSome_iff_exists.1 hfound
      obtain ⟨hfind, hp⟩ := Option.filter_eq_some_iff.1 ht
      have hlock : (.transaction id, .noKeyUpdate) ∈
          lk ++ postgres.needs o (postgres.view ws d₁) := by
        refine List.mem_append_right _ (hlocks _ ?_)
        rw [h₁.find_of_not_mem hid]
        exact hfound
      rw [if_pos rfl]
      refine hyes _ _ d₁ hsub hrely₁ ?_
      exact (h₁.stable hsub Rely.refl).snoc hw hf hid hlock ⟨t, hfind, by simpa using hp⟩
    | false =>
      simp only [Bool.false_eq_true, if_false, List.append_nil]
      refine hno _ d₁ hsub hrely₁ (fun t ht htid hp ↦ ?_) (h₁.stable hsub Rely.refl)
      have hfind : d₁.transactions.find id = some t := Table.find_eq_some.2 ⟨ht, htid⟩
      rw [hfind] at hfound
      simp [Option.filter, hp] at hfound

end Updating

end MicroErp.Commits
