import Mathlib.Data.List.Sort
import Mathlib.Data.Prod.Lex
import Mathlib.Tactic.Linarith

/-!
# Rows read page by page

A query with an `ORDER BY` may answer rows with equal keys in any order, and the next query in
another one.  Only where the `ORDER BY` ends in a column that tells all rows apart do the pages of
several queries together give the rows.
-/

namespace MicroErp.Storage

variable {α β κ : Type} [LinearOrder κ] [LinearOrder β]

/-- How one query answers `ORDER BY key DESC`. -/
structure OrderByDesc (key : α → κ) where
  sort : List α → List α
  perm : ∀ rows, (sort rows).Perm rows
  desc : ∀ rows, (sort rows).Pairwise fun r r' ↦ key r' ≤ key r

/-- How many pages of this length there are. -/
def pageCount (total limit : ℕ) : ℕ := (total + limit - 1) / limit

theorem length_le_pageCount (total : ℕ) {limit : ℕ} (hlimit : 0 < limit) :
    total ≤ pageCount total limit * limit := by
  unfold pageCount
  have hmod := Nat.mod_lt (total + limit - 1) hlimit
  have hdiv := Nat.div_add_mod' (total + limit - 1) limit
  omega

namespace OrderByDesc

variable {key : α → κ} {id : α → β} {rows : List α} {limit n : ℕ}

/-- Rows with equal keys in the order of the table. -/
def stable (key : α → κ) : OrderByDesc key where
  sort rows := rows.insertionSort fun r r' ↦ key r' ≤ key r
  perm rows := List.perm_insertionSort _ rows
  desc rows :=
    haveI : Std.Total fun r r' : α ↦ key r' ≤ key r := ⟨fun r r' ↦ le_total (key r') (key r)⟩
    haveI : IsTrans α fun r r' ↦ key r' ≤ key r := ⟨fun _ _ _ h h' ↦ h'.trans h⟩
    List.pairwise_insertionSort _ rows

/-- `LIMIT` and `OFFSET`. -/
def page (o : OrderByDesc key) (limit offset : ℕ) (rows : List α) : List α :=
  ((o.sort rows).drop offset).take limit

/-- The first `n` pages, each read by a query of its own. -/
def pages (query : ℕ → OrderByDesc key) (limit : ℕ) (rows : List α) (n : ℕ) : List α :=
  (List.range n).flatMap fun k ↦ (query k).page limit (k * limit) rows

theorem pages_succ (query : ℕ → OrderByDesc key) (limit : ℕ) (rows : List α) (n : ℕ) :
    pages query limit rows (n + 1) =
      pages query limit rows n ++ (query n).page limit (n * limit) rows := by
  rw [pages, List.range_succ, List.flatMap_append]
  simp [pages]

/-- The pages of one order put it together again. -/
theorem pages_const (o : OrderByDesc key) (limit : ℕ) (rows : List α) (n : ℕ) :
    pages (fun _ ↦ o) limit rows n = (o.sort rows).take (n * limit) := by
  induction n with
  | zero => simp [pages]
  | succ n ih => rw [pages_succ, ih, page, ← List.take_add, Nat.succ_mul]

theorem length_sort (o : OrderByDesc key) (rows : List α) : (o.sort rows).length = rows.length :=
  (o.perm rows).length_eq

theorem perm_pages_const (o : OrderByDesc key) (hlimit : 0 < limit) :
    (pages (fun _ ↦ o) limit rows (pageCount rows.length limit)).Perm rows := by
  rw [pages_const, List.take_of_length_le]
  · exact o.perm rows
  · rw [length_sort]
    exact length_le_pageCount rows.length hlimit

/-! ## Orders that break the ties -/

/-- `ORDER BY key DESC, id ASC`. -/
def EndsIn (o : OrderByDesc key) (id : α → β) : Prop :=
  ∀ rows, (o.sort rows).Pairwise fun r r' ↦ key r = key r' → id r ≤ id r'

/-- Such an order leaves nothing open. -/
theorem EndsIn.sort_eq {o o' : OrderByDesc key} (h : o.EndsIn id) (h' : o'.EndsIn id)
    (hid : ∀ r ∈ rows, ∀ r' ∈ rows, id r = id r' → r = r') : o.sort rows = o'.sort rows := by
  refine List.Perm.eq_of_pairwise ?_ ((o.desc rows).and (h rows)) ((o'.desc rows).and (h' rows))
    ((o.perm rows).trans (o'.perm rows).symm)
  rintro r r' hr hr' ⟨hle, hties⟩ ⟨hle', hties'⟩
  have hkey : key r = key r' := le_antisymm hle' hle
  exact hid r ((o.perm rows).mem_iff.1 hr) r' ((o'.perm rows).mem_iff.1 hr')
    (le_antisymm (hties hkey) (hties' hkey.symm))

/-- The pages of any queries with such an order are the rows. -/
theorem perm_pages {query : ℕ → OrderByDesc key} (h : ∀ k, (query k).EndsIn id)
    (hid : ∀ r ∈ rows, ∀ r' ∈ rows, id r = id r' → r = r') (hlimit : 0 < limit) :
    (pages query limit rows (pageCount rows.length limit)).Perm rows := by
  have hsame : pages query limit rows (pageCount rows.length limit) =
      pages (fun _ ↦ query 0) limit rows (pageCount rows.length limit) := by
    refine List.flatMap_congr fun k _ ↦ ?_
    rw [page, page, (h k).sort_eq (h 0) hid]
  rw [hsame]
  exact perm_pages_const (query 0) hlimit

/-- First by the key, the greatest first, and then by the other column. -/
def byBoth (key : α → κ) (id : α → β) (r : α) : κᵒᵈ ×ₗ β := toLex (OrderDual.toDual (key r), id r)

theorem byBoth_le {r r' : α} :
    byBoth key id r ≤ byBoth key id r' ↔ key r' < key r ∨ key r = key r' ∧ id r ≤ id r' :=
  Prod.Lex.toLex_le_toLex

theorem pairwise_byBoth (rows : List α) :
    (rows.insertionSort fun r r' ↦ byBoth key id r ≤ byBoth key id r').Pairwise fun r r' ↦
      key r' < key r ∨ key r = key r' ∧ id r ≤ id r' := by
  have : Std.Total fun r r' : α ↦ byBoth key id r ≤ byBoth key id r' :=
    ⟨fun r r' ↦ le_total (byBoth key id r) (byBoth key id r')⟩
  have : IsTrans α fun r r' ↦ byBoth key id r ≤ byBoth key id r' := ⟨fun _ _ _ h h' ↦ h.trans h'⟩
  exact (List.pairwise_insertionSort _ rows).imp byBoth_le.1

/-- The rows in the order of both columns. -/
def endingIn (key : α → κ) (id : α → β) : OrderByDesc key where
  sort rows := rows.insertionSort fun r r' ↦ byBoth key id r ≤ byBoth key id r'
  perm rows := List.perm_insertionSort _ rows
  desc rows := (pairwise_byBoth rows).imp fun h ↦ h.elim le_of_lt fun h ↦ h.1.ge

theorem endsIn_endingIn (key : α → κ) (id : α → β) : (endingIn key id).EndsIn id := fun rows ↦
  (pairwise_byBoth rows).imp fun h hkey ↦ h.elim (fun hlt ↦ (hlt.ne' hkey).elim) And.right

end OrderByDesc

end MicroErp.Storage
