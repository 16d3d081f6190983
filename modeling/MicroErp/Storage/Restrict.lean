import MicroErp.Storage.Table

/-!
# Part of a table

The rows with a property, and how look-ups and writes act on them.
-/

namespace MicroErp.Storage.Table

variable {α κ : Type} [Keyed α κ]

/-- The rows for which `p` holds. -/
def restrict (t : Table α) (p : α → Bool) : Table α :=
  ⟨t.rows.filter p, t.nodup.sublist (List.filter_sublist.map _)⟩

@[simp] theorem rows_restrict (t : Table α) (p : α → Bool) :
    (t.restrict p).rows = t.rows.filter p := rfl

/-- Rows that a filter picks are in the part if the filter says so. -/
theorem filter_restrict {t : Table α} {p q : α → Bool} (h : ∀ r, q r → p r) :
    (t.restrict p).rows.filter q = t.rows.filter q := by
  rw [rows_restrict, List.filter_filter]
  refine List.filter_congr fun r _ ↦ ?_
  cases hq : q r
  · rfl
  · simp [h r hq]

variable [DecidableEq κ] {t : Table α} {p : α → Bool} {k : κ} {r : α} {f : α → α}

theorem find_restrict : (t.restrict p).find k = (t.find k).filter p := by
  ext r
  rw [find_eq_some, rows_restrict, List.mem_filter, Option.filter_eq_some_iff, find_eq_some]
  tauto

/-- A look-up that only rows of the part can answer. -/
theorem find_restrict_eq (h : ∀ r ∈ t.rows, Keyed.key r = k → p r) :
    (t.restrict p).find k = t.find k := by
  rw [find_restrict]
  cases hfind : t.find k with
  | none => rfl
  | some r =>
    obtain ⟨hmem, hkey⟩ := find_eq_some.1 hfind
    exact Option.filter_some_pos (h r hmem hkey)

theorem restrict_insert (hr : p r) (h : ∀ r' ∈ t.rows, Keyed.key r' = Keyed.key r → p r') :
    (t.insert r).restrict p = (t.restrict p).insert r := by
  ext1
  cases hfind : t.find (Keyed.key r) with
  | none =>
    have hfind' : (t.restrict p).find (Keyed.key r) = none := by
      rw [find_restrict_eq h, hfind]
    rw [rows_restrict, rows_insert_of_fresh hfind, rows_insert_of_fresh hfind', List.filter_append]
    simp [hr]
  | some r' =>
    obtain ⟨hmem, hkey⟩ := find_eq_some.1 hfind
    have htaken : Keyed.key r ∈ t.rows.map Keyed.key := hkey ▸ List.mem_map_of_mem hmem
    have htaken' : Keyed.key r ∈ (t.restrict p).rows.map Keyed.key :=
      hkey ▸ List.mem_map_of_mem (List.mem_filter.2 ⟨hmem, h r' hmem hkey⟩)
    rw [insert, insert, dif_pos htaken, dif_pos htaken']

theorem restrict_insert_of_not (hr : p r = false) : (t.insert r).restrict p = t.restrict p := by
  ext1
  unfold insert
  split
  · rfl
  · simp [hr]

/-- A rewrite that leaves rows on their side. -/
theorem restrict_modify (h : ∀ r ∈ t.rows, Keyed.key r = k → p (f r) = p r) :
    (t.modify k f).restrict p = (t.restrict p).modify k f := by
  ext1
  rw [rows_restrict, rows_modify, rows_modify, rows_restrict, List.filter_map]
  congr 1
  refine List.filter_congr fun r hr ↦ ?_
  simp only [Function.comp_apply]
  split
  · rename_i hkey
    unfold amend
    split
    · exact h r hr hkey
    · rfl
  · rfl

/-- A rewrite on the other side. -/
theorem restrict_modify_of_not
    (h : ∀ r ∈ t.rows, Keyed.key r = k → p r = false ∧ p (f r) = false) :
    (t.modify k f).restrict p = t.restrict p := by
  rw [restrict_modify fun r hr hkey ↦ (h r hr hkey).2.trans (h r hr hkey).1.symm]
  ext1
  rw [rows_modify]
  refine (List.map_congr_left fun r hr ↦ if_neg fun hkey ↦ ?_).trans (List.map_id _)
  obtain ⟨hmem, hp⟩ := List.mem_filter.1 hr
  rw [(h r hmem hkey).1] at hp
  cases hp

/-- What the row under the key keeps, all rows keep. -/
theorem forall_modify_at {q : α → Prop} (h : ∀ r ∈ t.rows, q r)
    (hf : ∀ r, q r → Keyed.key r = k → q (f r)) : ∀ r ∈ (t.modify k f).rows, q r := by
  intro r hr
  obtain ⟨x, hx, rfl⟩ := List.mem_map.1 hr
  split
  · rename_i hkey
    unfold amend
    split
    · exact hf x (h x hx) hkey
    · exact h x hx
  · exact h x hx

end MicroErp.Storage.Table
