import MicroErp.Commits.Runs

/-!
# A key takes effect at most once

Copies of a request share the slot of its key in a unique index.  Several may find the slot free,
but only one of them commits a row in it, and the others fail or commit nothing.
-/

namespace MicroErp.Guarantees

open MicroErp.Commits MicroErp.Concurrency MicroErp.Database MicroErp.Services MicroErp.Storage

variable {S : Setting} {req r : Request} {env : Env} {d d' : Db} {e : Effect}
  {lk : List (LockName × LockMode)}

/-- The request has a slot in one of the unique indexes on keys. -/
def Keyed (req : Request) : Prop :=
  req.transactionKey.isSome ∨ req.batchKey.isSome ∨ req.customerKey.isSome

/-- A committed row has the key of the request. -/
def KeyTaken (req : Request) (d : Db) : Prop :=
  (∃ slot ∈ req.transactionKey, d.transactionByKey slot.1 slot.2 ≠ none) ∨
    (∃ slot ∈ req.batchKey, d.batchByKey slot.1 slot.2 ≠ none) ∨
      ∃ slot ∈ req.customerKey, d.customerByKey slot.1 slot.2 ≠ none

/-- The commits of the copies that wrote something. -/
def effectsOf {ι : Type} (copies : ι → Bool) (log : List (ι × List Write)) :
    List (ι × List Write) :=
  log.filter fun x ↦ copies x.1 ∧ x.2 ≠ []

/-! ## One commit -/

/-- Nothing gives a key back. -/
theorem KeyTaken.commit (h : KeyTaken r d) (hcommit : Commit S req env lk d d' e) :
    KeyTaken r d' := by
  rcases h with ⟨slot, hslot, htaken⟩ | ⟨slot, hslot, htaken⟩ | ⟨slot, hslot, htaken⟩
  · refine Or.inl ⟨slot, hslot, fun hnone ↦ htaken ?_⟩
    rw [Db.transactionByKey_eq_none] at hnone ⊢
    intro core hcore
    apply hnone
    rw [hcommit.cores]
    exact List.mem_append_left _ hcore
  · refine Or.inr (Or.inl ⟨slot, hslot, fun hnone ↦ htaken ?_⟩)
    rw [Db.batchByKey_eq_none] at hnone ⊢
    intro b hb
    apply hnone
    rw [hcommit.yields.batches]
    exact List.mem_append_left _ hb
  · refine Or.inr (Or.inr ⟨slot, hslot, fun hnone ↦ htaken ?_⟩)
    rw [Db.customerByKey_eq_none] at hnone ⊢
    intro x hx
    apply hnone
    rw [hcommit.fixed]
    exact List.mem_append_left _ hx

/-- A row under a key is committed only while the key is free, and takes it. -/
theorem taken_by_row (hcommit : Commit S req env lk d d' e) {slot : Uuid × Uuid}
    (hslot : req.transactionKey = some slot) :
    d.transactionByKey slot.1 slot.2 = none ∧ d'.transactionByKey slot.1 slot.2 ≠ none := by
  obtain ⟨row, hrow, rfl⟩ := hcommit.changes.own_key hslot
  refine ⟨hcommit.vacant.key_free row hrow, fun hnone ↦ ?_⟩
  refine Db.transactionByKey_eq_none.1 hnone row.toCore ?_ ⟨rfl, rfl⟩
  rw [hcommit.cores]
  exact List.mem_append_right _ (List.mem_map_of_mem hrow)

theorem taken_by_batch (hcommit : Commit S req env lk d d' e) {slot : Uuid × Uuid}
    (hslot : req.batchKey = some slot) :
    d.batchByKey slot.1 slot.2 = none ∧ d'.batchByKey slot.1 slot.2 ≠ none := by
  obtain ⟨b, hb, rfl⟩ : ∃ b ∈ e.batches, (b.tenant_id, b.idempotency_key) = slot := by
    cases hcommit.changes with
    | inflate => exact ⟨_, List.mem_cons_self, Option.some.inj hslot⟩
    | post hkey hc hposts => cases hposts <;> cases hslot
    | edit hedit => cases req <;> first | exact hedit.elim | cases hslot
    | aside haside => cases req <;> first | exact haside.elim | cases hslot
    | flag hflag => cases req <;> first | exact hflag.elim | cases hslot
    | _ => cases hslot
  refine ⟨(hcommit.batchKey b hb).2, fun hnone ↦ ?_⟩
  refine Db.batchByKey_eq_none.1 hnone b ?_ ⟨rfl, rfl⟩
  rw [hcommit.yields.batches]
  exact List.mem_append_right _ hb

theorem taken_by_customer (hcommit : Commit S req env lk d d' e) {slot : Uuid × Uuid}
    (hslot : req.customerKey = some slot) :
    d.customerByKey slot.1 slot.2 = none ∧ d'.customerByKey slot.1 slot.2 ≠ none := by
  obtain ⟨c, hc, htenant, hkey⟩ : ∃ c ∈ e.customers, c.tenant_id = slot.1 ∧
      c.idempotency_key = some slot.2 := by
    cases hcommit.changes with
    | @create tenantId dto =>
      obtain ⟨key, hkey, rfl⟩ := Option.map_eq_some_iff.1 hslot
      exact ⟨_, List.mem_cons_self, rfl, hkey⟩
    | post hkey hc hposts => cases hposts <;> cases hslot
    | edit hedit => cases req <;> first | exact hedit.elim | cases hslot
    | aside haside => cases req <;> first | exact haside.elim | cases hslot
    | flag hflag => cases req <;> first | exact hflag.elim | cases hslot
    | _ => cases hslot
  refine ⟨htenant ▸ (hcommit.customerKey c hc _ hkey).2, fun hnone ↦ ?_⟩
  refine Db.customerByKey_eq_none.1 hnone c.fixed ?_ ⟨htenant, hkey⟩
  rw [hcommit.fixed]
  exact List.mem_append_right _ (List.mem_map_of_mem hc)

theorem keyTaken_by (hcommit : Commit S r env lk d d' e) (hkeyed : Keyed r) :
    ¬KeyTaken r d ∧ KeyTaken r d' := by
  constructor
  · rintro (⟨slot, hslot, htaken⟩ | ⟨slot, hslot, htaken⟩ | ⟨slot, hslot, htaken⟩)
    · exact htaken (taken_by_row hcommit hslot).1
    · exact htaken (taken_by_batch hcommit hslot).1
    · exact htaken (taken_by_customer hcommit hslot).1
  · rcases hkeyed with hkey | hkey | hkey
    · obtain ⟨slot, hslot⟩ := Option.isSome_iff_exists.1 hkey
      exact Or.inl ⟨slot, hslot, (taken_by_row hcommit hslot).2⟩
    · obtain ⟨slot, hslot⟩ := Option.isSome_iff_exists.1 hkey
      exact Or.inr (Or.inl ⟨slot, hslot, (taken_by_batch hcommit hslot).2⟩)
    · obtain ⟨slot, hslot⟩ := Option.isSome_iff_exists.1 hkey
      exact Or.inr (Or.inr ⟨slot, hslot, (taken_by_customer hcommit hslot).2⟩)

/-! ## Runs -/

section Runs

variable {ι : Type} {copies : ι → Bool} {log : List (ι × List Write)}

/-- The copies took effect once if at all, and then the key is taken. -/
structure AtMostOnce (r : Request) (d₀ : Db) (copies : ι → Bool) (d : Db)
    (log : List (ι × List Write)) : Prop where
  once : (effectsOf copies log).length ≤ 1
  free : ¬KeyTaken r d → effectsOf copies log = []
  taken : KeyTaken r d₀ → KeyTaken r d ∧ effectsOf copies log = []

theorem AtMostOnce.idle {d₀ : Db} (h : AtMostOnce r d₀ copies d log) (i : ι) :
    AtMostOnce r d₀ copies d (log ++ [(i, [])]) := by
  have hlog : effectsOf copies (log ++ [(i, [])]) = effectsOf copies log := by simp [effectsOf]
  exact ⟨hlog ▸ h.once, hlog ▸ h.free, hlog ▸ h.taken⟩

theorem AtMostOnce.commit {d₀ : Db} (h : AtMostOnce r d₀ copies d log) (hkeyed : Keyed r) {i : ι}
    (hreq : copies i → req = r) (hcommit : Commit S req env lk d d' e) (ws : List Write) :
    AtMostOnce r d₀ copies d' (log ++ [(i, ws)]) := by
  have happend : effectsOf copies (log ++ [(i, ws)]) =
      effectsOf copies log ++ effectsOf copies [(i, ws)] := List.filter_append _ _
  by_cases hi : copies i
  · obtain rfl := hreq hi
    obtain ⟨hfree, htaken⟩ := keyTaken_by hcommit hkeyed
    refine ⟨?_, fun hnot ↦ (hnot htaken).elim, fun htaken₀ ↦ (hfree (h.taken htaken₀).1).elim⟩
    rw [happend, h.free hfree, List.nil_append]
    exact List.length_filter_le _ _
  · have hlog : effectsOf copies (log ++ [(i, ws)]) = effectsOf copies log := by
      simp [effectsOf, hi]
    constructor
    · rw [hlog]
      exact h.once
    · rw [hlog]
      exact fun hnot ↦ h.free fun htaken ↦ hnot (htaken.commit hcommit)
    · rw [hlog]
      exact fun htaken ↦ ⟨(h.taken htaken).1.commit hcommit, (h.taken htaken).2⟩

variable [DecidableEq ι] {req : ι → Request} {env : ι → Env} {es : List (Event ι)}

/-- However many copies of a request with a key run among others, one of them at most commits
anything, and none if the key was taken.  The database is what the commits made of it. -/
theorem key_takes_effect_once (hd : Reachable d) (hids : FreshIds req env)
    (hunused : ∀ i, (env i).Unused d) (hkeyed : Keyed r) (hcopies : ∀ i, copies i → req i = r) :
    let s := postgres.run (serve req env d) es
    ((effectsOf copies s.log).length ≤ 1 ∧ (KeyTaken r d → effectsOf copies s.log = [])) ∧
      s.db = s.log.foldl (fun d x ↦ postgres.view x.2 d) d := by
  obtain ⟨hC, hsound⟩ := sound_free (S := .plain) hids hunused (wellFormed_of_reachable hd) id id
    rfl
  have h : AtMostOnce r d copies (postgres.run (serve req env d) es).db
      (postgres.run (serve req env d) es).log := hsound.history hC (.of_forall fun i ↦
    allow_plain (req i) (env i)) ⟨Nat.zero_le _, fun _ ↦ rfl, fun htaken ↦ ⟨htaken, rfl⟩⟩
      fun i lk ws d log hJ hguar _ ↦ by
        rcases hguar with ⟨rfl, -⟩ | ⟨e, hcommit⟩
        · exact hJ.idle i
        · exact hJ.commit hkeyed (hcopies i) hcommit ws
  obtain ⟨commits, hlog, hdb⟩ := postgres.run_log (serve req env d) es
  refine ⟨⟨h.once, fun htaken ↦ (h.taken htaken).2⟩, ?_⟩
  rw [hdb, hlog]
  rfl

end Runs

/-! ## Two copies of a debt -/

def doubling (_ : Fin 2) : Request := .registerDebt 1 2 (debtOf100 100 13)

theorem freshIds_doubling : FreshIds doubling laterEnv := freshIds_later (by decide) (by decide)

/-- Both copies find the key free; the one that comes second to the index fails. -/
theorem key_takes_effect_once_doubling :
    let s := postgres.run (serve doubling laterEnv owing) (turns 0 1 ++ turns 1 1 ++ turns 0 12 ++
      turns 1 12)
    ((effectsOf (fun _ ↦ true) s.log).length ≤ 1 ∧
        (KeyTaken (doubling 0) owing → effectsOf (fun _ ↦ true) s.log = [])) ∧
      s.db = s.log.foldl (fun d x ↦ postgres.view x.2 d) owing :=
  key_takes_effect_once reachable_owing freshIds_doubling (unused_owing (by decide)) (Or.inl rfl)
    fun _ _ ↦ rfl

end MicroErp.Guarantees
