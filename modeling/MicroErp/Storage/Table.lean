import Mathlib.Data.List.Nodup
import Mathlib.Tactic.Common

/-!
# Tables with a primary key

A table is the list of its rows in insertion order, together with the fact that no two rows share
their key.  Inserting under a key that is taken and changing a key are no-ops here; whether a
statement that attempts them fails is decided where statements are executed.
-/

namespace MicroErp.Storage

class Keyed (α : Type) (κ : outParam Type) where
  key : α → κ

/-- Rows in insertion order, no two with the same primary key. -/
structure Table (α : Type) {κ : Type} [Keyed α κ] where
  rows : List α
  nodup : (rows.map Keyed.key).Nodup

namespace Table

variable {α κ : Type} [Keyed α κ]

@[ext] theorem ext {t t' : Table α} (h : t.rows = t'.rows) : t = t' := by
  cases t
  cases t'
  congr

instance [DecidableEq α] : DecidableEq (Table α) := fun t t' ↦
  decidable_of_iff (t.rows = t'.rows) ⟨ext, fun h ↦ h ▸ rfl⟩

def empty : Table α := ⟨[], List.nodup_nil⟩

variable [DecidableEq κ]

/-- The row with this key. -/
def find (t : Table α) (k : κ) : Option α := t.rows.find? fun r ↦ Keyed.key r = k

def insert (t : Table α) (r : α) : Table α :=
  if h : Keyed.key r ∈ t.rows.map Keyed.key then t
  else ⟨t.rows ++ [r], by
    rw [List.map_append, List.map_cons, List.map_nil]
    exact t.nodup.append (List.nodup_singleton _) (by simpa using h)⟩

/-- Rewrite a row in place, provided its key stays. -/
def amend (f : α → α) (r : α) : α := if Keyed.key (f r) = Keyed.key r then f r else r

theorem key_amend (f : α → α) (r : α) : Keyed.key (amend f r) = Keyed.key r := by
  unfold amend
  split <;> simp [*]

/-- Rewrite the row with key `k`. -/
def modify (t : Table α) (k : κ) (f : α → α) : Table α :=
  ⟨t.rows.map fun r ↦ if Keyed.key r = k then amend f r else r, by
    have hkeys : (t.rows.map fun r ↦ if Keyed.key r = k then amend f r else r).map Keyed.key =
        t.rows.map Keyed.key := by
      rw [List.map_map]
      apply List.map_congr_left
      intro r _
      simp only [Function.comp_apply]
      split <;> simp [key_amend]
    rw [hkeys]
    exact t.nodup⟩

theorem find_eq_some {t : Table α} {k : κ} {r : α} :
    t.find k = some r ↔ r ∈ t.rows ∧ Keyed.key r = k := by
  constructor
  · intro h
    exact ⟨List.mem_of_find?_eq_some h, by simpa using List.find?_some h⟩
  · rintro ⟨hr, rfl⟩
    obtain ⟨r', h'⟩ : ∃ r', t.find (Keyed.key r) = some r' := by
      rw [← Option.isSome_iff_exists, find, List.find?_isSome]
      exact ⟨r, hr, by simp⟩
    have hmem := List.mem_of_find?_eq_some h'
    have hkey : Keyed.key r' = Keyed.key r := by simpa using List.find?_some h'
    rw [h', List.inj_on_of_nodup_map t.nodup hmem hr hkey]

theorem find_eq_none {t : Table α} {k : κ} :
    t.find k = none ↔ ∀ r ∈ t.rows, Keyed.key r ≠ k := by
  simp [find]

theorem find_key {t : Table α} {k : κ} {r : α} (h : t.find k = some r) : Keyed.key r = k :=
  (find_eq_some.1 h).2

theorem rows_insert_of_fresh {t : Table α} {r : α} (h : t.find (Keyed.key r) = none) :
    (t.insert r).rows = t.rows ++ [r] := by
  have hkey : Keyed.key r ∉ t.rows.map Keyed.key := by
    rw [List.mem_map]
    rintro ⟨r', hr', heq⟩
    exact find_eq_none.1 h r' hr' heq
  rw [insert, dif_neg hkey]

theorem rows_modify {t : Table α} {k : κ} {f : α → α} :
    (t.modify k f).rows = t.rows.map fun r ↦ if Keyed.key r = k then amend f r else r := rfl

theorem find_modify {t : Table α} {k k' : κ} {f : α → α} :
    (t.modify k f).find k' = (t.find k').map fun r ↦ if k' = k then amend f r else r := by
  unfold find
  rw [rows_modify, List.find?_map]
  have hp : ((fun r ↦ decide (Keyed.key r = k')) ∘ fun r ↦
      if Keyed.key r = k then amend f r else r) = fun r ↦ decide (Keyed.key r = k') := by
    funext r
    simp only [Function.comp_apply]
    split <;> simp [key_amend]
  rw [hp]
  cases h : t.rows.find? fun r ↦ decide (Keyed.key r = k') with
  | none => rfl
  | some r =>
    have hkey : Keyed.key r = k' := by simpa using List.find?_some h
    simp [hkey]

theorem find_insert {t : Table α} {r : α} {k : κ} (h : t.find (Keyed.key r) = none) :
    (t.insert r).find k = if Keyed.key r = k then some r else t.find k := by
  unfold find
  rw [rows_insert_of_fresh h, List.find?_append]
  by_cases hk : Keyed.key r = k
  · subst hk
    rw [if_pos rfl]
    unfold find at h
    simp [h]
  · rw [if_neg hk]
    simp [hk]

theorem find_insert_of_ne {t : Table α} {r : α} {k : κ} (h : Keyed.key r ≠ k) :
    (t.insert r).find k = t.find k := by
  cases hr : t.find (Keyed.key r) with
  | none => rw [find_insert hr, if_neg h]
  | some r' =>
    have hkey : Keyed.key r ∈ t.rows.map Keyed.key := by
      rw [← find_key hr]
      exact List.mem_map_of_mem (find_eq_some.1 hr).1
    rw [insert, dif_pos hkey]

theorem eq_of_find {t : Table α} {k : κ} {r r' : α} (h : t.find k = some r) (hr' : r' ∈ t.rows)
    (hk : Keyed.key r' = k) : r' = r :=
  Option.some.inj ((find_eq_some.2 ⟨hr', hk⟩).symm.trans h)

theorem forall_insert {p : α → Prop} {t : Table α} {row : α} (h : ∀ r ∈ t.rows, p r)
    (hrow : p row) : ∀ r ∈ (t.insert row).rows, p r := by
  intro r hr
  unfold insert at hr
  split at hr
  · exact h r hr
  · rcases List.mem_append.1 hr with hr | hr
    · exact h r hr
    · rwa [List.mem_singleton.1 hr]

theorem forall_modify {p : α → Prop} {t : Table α} {k : κ} {f : α → α} (h : ∀ r ∈ t.rows, p r)
    (hf : ∀ r, p r → p (f r)) : ∀ r ∈ (t.modify k f).rows, p r := by
  intro r hr
  rw [rows_modify] at hr
  obtain ⟨x, hx, rfl⟩ := List.mem_map.1 hr
  unfold amend
  split
  · split
    · exact hf x (h x hx)
    · exact h x hx
  · exact h x hx

/-- Only the row under the key matters. -/
theorem modify_congr {t : Table α} {k : κ} {r : α} {f g : α → α} (h : t.find k = some r)
    (hfg : f r = g r) : t.modify k f = t.modify k g := by
  ext1
  rw [rows_modify, rows_modify]
  apply List.map_congr_left
  intro r' hr'
  split
  · rename_i hk
    obtain rfl := eq_of_find h hr' hk
    unfold amend
    rw [hfg]
  · rfl

theorem modify_self {t : Table α} {k : κ} {r : α} (h : t.find k = some r) :
    t.modify k (fun _ ↦ r) = t := by
  ext1
  rw [rows_modify]
  refine (List.map_congr_left fun r' hr' ↦ ?_).trans (List.map_id _)
  split
  · rename_i hk
    obtain rfl := eq_of_find h hr' hk
    exact if_pos rfl
  · rfl

theorem find_modify_of_ne {t : Table α} {k k' : κ} {f : α → α} (h : k' ≠ k) :
    (t.modify k f).find k' = t.find k' := by
  rw [find_modify]
  simp [h]

end Table

end MicroErp.Storage
