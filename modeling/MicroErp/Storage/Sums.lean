import Mathlib.Algebra.BigOperators.Group.List.Basic
import Mathlib.Tactic.Ring

/-!
# Sums over the rows with a property

How such a sum changes when rows are appended, rewritten or handed over from one property to
another.
-/

namespace MicroErp.Storage

variable {α β κ : Type}

/-- The sum of `f` over the rows with property `p`. -/
def sumOf (p : α → Prop) [DecidablePred p] (f : α → ℤ) (l : List α) : ℤ :=
  ((l.filter p).map f).sum

section

variable {p q : α → Prop} [DecidablePred p] [DecidablePred q] {f g : α → ℤ}

@[simp] theorem sumOf_nil : sumOf p f [] = 0 := rfl

theorem sumOf_cons (a : α) (l : List α) :
    sumOf p f (a :: l) = (if p a then f a else 0) + sumOf p f l := by
  unfold sumOf
  by_cases h : p a <;> simp [h]

theorem sumOf_append (l l' : List α) : sumOf p f (l ++ l') = sumOf p f l + sumOf p f l' := by
  simp [sumOf]

theorem sumOf_congr {l : List α} (hp : ∀ a ∈ l, p a ↔ q a) (hf : ∀ a ∈ l, f a = g a) :
    sumOf p f l = sumOf q g l := by
  induction l with
  | nil => rfl
  | cons a l ih =>
    rw [sumOf_cons, sumOf_cons, ih (fun b hb ↦ hp b (List.mem_cons_of_mem _ hb))
      (fun b hb ↦ hf b (List.mem_cons_of_mem _ hb)), hf a List.mem_cons_self]
    simp only [hp a List.mem_cons_self]

theorem sumOf_eq_zero {l : List α} (h : ∀ a ∈ l, ¬p a) : sumOf p f l = 0 := by
  unfold sumOf
  rw [List.filter_eq_nil_iff.2 fun a ha ↦ by simpa using h a ha]
  rfl

/-- The rows with one of two properties that exclude each other. -/
theorem sumOf_or {l : List α} (h : ∀ a ∈ l, ¬(p a ∧ q a)) :
    sumOf (fun a ↦ p a ∨ q a) f l = sumOf p f l + sumOf q f l := by
  induction l with
  | nil => rfl
  | cons a l ih =>
    have ha := h a List.mem_cons_self
    rw [sumOf_cons, sumOf_cons, sumOf_cons, ih fun b hb ↦ h b (List.mem_cons_of_mem _ hb)]
    by_cases hp : p a <;> by_cases hq : q a
    · exact (ha ⟨hp, hq⟩).elim
    all_goals simp only [hp, hq, or_true, true_or, or_self, if_true, if_false]; ring

end

theorem sumOf_map {p : β → Prop} [DecidablePred p] {f : β → ℤ} (h : α → β) (l : List α) :
    sumOf p f (l.map h) = sumOf (fun a ↦ p (h a)) (fun a ↦ f (h a)) l := by
  induction l with
  | nil => rfl
  | cons a l ih => rw [List.map_cons, sumOf_cons, sumOf_cons, ih]

/-- One row alone has its key. -/
theorem sumOf_key [DecidableEq κ] {key : α → κ} {f : α → ℤ} {l : List α}
    (h : (l.map key).Nodup) {a : α} (ha : a ∈ l) : sumOf (fun b ↦ key b = key a) f l = f a := by
  induction l with
  | nil => cases ha
  | cons b l ih =>
    rw [List.map_cons, List.nodup_cons] at h
    rw [sumOf_cons]
    rcases List.mem_cons.1 ha with rfl | ha
    · have hother : ∀ b ∈ l, ¬key b = key a := fun b hb heq ↦
        h.1 (heq ▸ List.mem_map_of_mem hb)
      rw [if_pos rfl, sumOf_eq_zero hother, add_zero]
    · have hne : ¬key b = key a := fun heq ↦ h.1 (heq ▸ List.mem_map_of_mem ha)
      rw [if_neg hne, ih h.2 ha, zero_add]

/-- A sum after a change of one row. -/
theorem sumOf_change [DecidableEq κ] {p : α → Prop} [DecidablePred p] {key : α → κ} {f g : α → ℤ}
    {l : List α} (h : (l.map key).Nodup) {a : α} (ha : a ∈ l)
    (hsame : ∀ b ∈ l, key b ≠ key a → f b = g b) :
    sumOf p f l = sumOf p g l + if p a then f a - g a else 0 := by
  induction l with
  | nil => cases ha
  | cons b l ih =>
    rw [List.map_cons, List.nodup_cons] at h
    rw [sumOf_cons, sumOf_cons]
    rcases List.mem_cons.1 ha with rfl | ha
    · have hrest : sumOf p f l = sumOf p g l := by
        refine sumOf_congr (fun _ _ ↦ Iff.rfl) fun c hc ↦ hsame c (List.mem_cons_of_mem _ hc) ?_
        exact fun heq ↦ h.1 (heq ▸ List.mem_map_of_mem hc)
      rw [hrest]
      split <;> ring
    · have hb : f b = g b :=
        hsame b List.mem_cons_self fun heq ↦ h.1 (heq ▸ List.mem_map_of_mem ha)
      rw [ih h.2 ha fun c hc ↦ hsame c (List.mem_cons_of_mem _ hc), hb]
      ring

/-- A sum over fewer rows differs by what the other rows contribute. -/
theorem sumOf_sub {p q : α → Prop} [DecidablePred p] [DecidablePred q] {f g : α → ℤ} (l : List α) :
    sumOf p f l - sumOf (fun a ↦ p a ∧ q a) g l =
      sumOf p (fun a ↦ f a - if q a then g a else 0) l := by
  induction l with
  | nil => rfl
  | cons a l ih =>
    rw [sumOf_cons, sumOf_cons, sumOf_cons, ← ih]
    by_cases hp : p a <;> by_cases hq : q a <;> simp only [hp, hq, and_self, and_true, and_false,
      if_true, if_false] <;> ring

end MicroErp.Storage
