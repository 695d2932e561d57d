import Mathlib.Algebra.Order.BigOperators.Group.Finset

/-!
# Sums over all members, one of whom changes

A sum over the members that satisfy a predicate is kept up to date when one member at a time
changes: what the member contributed before is taken off, what it contributes now is put on.
The equations add on both sides, so that they hold in the natural numbers.
-/

namespace Tally

open Finset

variable {α : Type*} [Fintype α] [DecidableEq α] {b : α}
variable {p q : α → Prop} [DecidablePred p] [DecidablePred q] {w u : α → ℕ}

/-- Only one summand changes. -/
theorem sum_replace (b : α) {f g : α → ℕ} (same : ∀ a, a ≠ b → g a = f a) :
    ∑ a, g a + f b = ∑ a, f a + g b := by
  have before := add_sum_erase univ f (mem_univ b)
  have after := add_sum_erase univ g (mem_univ b)
  have rest : ∑ a ∈ univ.erase b, g a = ∑ a ∈ univ.erase b, f a :=
    sum_congr rfl fun a other => same a (ne_of_mem_erase other)
  omega

/-- Only one member changes its weight, or whether it counts. -/
theorem sum_filter_replace (b : α) (counts : ∀ a, a ≠ b → (q a ↔ p a))
    (weight : ∀ a, a ≠ b → u a = w a) :
    ∑ a with q a, u a + (if p b then w b else 0) =
      ∑ a with p a, w a + (if q b then u b else 0) := by
  rw [sum_filter, sum_filter]
  refine sum_replace b (f := fun a => if p a then w a else 0)
    (g := fun a => if q a then u a else 0) fun a other => ?_
  simp only [counts a other, weight a other]

theorem card_filter_replace (b : α) (counts : ∀ a, a ≠ b → (q a ↔ p a)) :
    (univ.filter q).card + (if p b then 1 else 0) =
      (univ.filter p).card + (if q b then 1 else 0) := by
  rw [card_eq_sum_ones, card_eq_sum_ones]
  exact sum_filter_replace b counts fun _ _ => rfl

omit [DecidableEq α] in
theorem le_sum_filter (counts : p b) : w b ≤ ∑ a with p a, w a :=
  single_le_sum (fun _ _ => Nat.zero_le _) (mem_filter.mpr ⟨mem_univ _, counts⟩)

omit [DecidableEq α] in
/-- A bound for each member bounds the sum. -/
theorem sum_filter_le {bound : α → ℕ} (h : ∀ a, w a ≤ bound a) : ∑ a with p a, w a ≤ ∑ a, bound a :=
  (sum_le_sum fun a _ => h a).trans (sum_le_sum_of_subset (filter_subset ..))

end Tally
