import Mathlib.Algebra.GroupWithZero.Nat
import Mathlib.Data.List.AList

/-!
# Counters by key

A map from keys to numbers that is only ever increased by one. A key that was never increased reads
as zero. All numbers together are the number of increases.
-/

/-- The numbers by key. -/
abbrev Counter (κ : Type) := AList fun _ : κ => Nat

namespace Counter

open List

variable {κ : Type} [DecidableEq κ] (c : Counter κ) (k : κ)

def get : Nat := (c.lookup k).getD 0

def increase : Counter κ := c.insert k (c.get k + 1)

/-- The sum of all numbers in the map. -/
def total : Nat := (c.entries.map (·.2)).sum

omit [DecidableEq κ] in
@[simp] theorem total_empty : total (∅ : Counter κ) = 0 := rfl

@[simp] theorem get_increase_self : (c.increase k).get k = c.get k + 1 := by
  simp [get, increase]

theorem get_increase_of_ne {j : κ} (other : j ≠ k) : (c.increase k).get j = c.get j := by
  simp [get, increase, other]

/-- Taking out one key takes its number off the sum. -/
theorem sum_kerase (entries : List (Sigma fun _ : κ => Nat)) :
    (entries.dlookup k).getD 0 + ((entries.kerase k).map (·.2)).sum = (entries.map (·.2)).sum := by
  induction entries with
  | nil => rfl
  | cons entry entries ih =>
    obtain ⟨j, n⟩ := entry
    by_cases same : k = j
    · subst same
      simp
    · rw [dlookup_cons_ne _ _ same, kerase_cons_ne same, map_cons, map_cons,
        sum_cons, sum_cons, ← ih]
      omega

@[simp] theorem total_increase : (c.increase k).total = c.total + 1 := by
  have rest := sum_kerase k c.entries
  rw [total, total, ← rest, increase, AList.entries_insert, map_cons, sum_cons, get, AList.lookup]
  dsimp only
  omega

end Counter
