import Mathlib.Logic.Function.Basic

/-!
# Reservations of keys

Each holder has at most one key, and a key can be reserved. The reservation is exact when the
reserved keys are those that somebody holds and no two holders have a key in common. Giving a
key back and taking one that is free keep it so.
-/

namespace Registry

open Function

universe u v

variable {ι : Type u} {κ : Type v}

/-- The keys that stay reserved when one is given back. -/
def release [DecidableEq κ] (reserved : κ → Bool) : Option κ → κ → Bool
  | none => reserved
  | some k => update reserved k false

structure Exact (held : ι → Option κ) (reserved : κ → Bool) : Prop where
  reserved_iff : ∀ k, reserved k ↔ ∃ i, held i = some k
  unique : ∀ i j k, held i = some k → held j = some k → i = j

namespace Exact

variable {held : ι → Option κ} {reserved : κ → Bool}

theorem empty : Exact (fun _ : ι => none) fun _ : κ => false := by
  constructor <;> simp

/-- Nobody holds a key that is free. -/
theorem ne_of_free (h : Exact held reserved) {k : κ} (free : reserved k = false) (i : ι) :
    held i ≠ some k := by
  intro holds
  have := (h.reserved_iff k).mpr ⟨i, holds⟩
  simp [free] at this

variable [DecidableEq ι] [DecidableEq κ]

variable (h : Exact held reserved)
include h

/-- A holder gives back what it holds. -/
theorem release (i : ι) : Exact (update held i none) (Registry.release reserved (held i)) := by
  constructor
  · intro k
    cases holds : held i with
    | none =>
      rw [Registry.release, h.reserved_iff, ← holds, update_eq_self]
    | some k' =>
      by_cases same : k = k'
      · -- The key had no other holder.
        subst same
        simp only [Registry.release, update_self, Bool.false_eq_true, false_iff]
        rintro ⟨j, holds'⟩
        by_cases other : j = i
        · simp [other] at holds'
        · rw [update_of_ne other] at holds'
          exact other (h.unique j i k holds' holds)
      · rw [Registry.release, update_of_ne same, h.reserved_iff]
        constructor
        · rintro ⟨j, holds'⟩
          refine ⟨j, ?_⟩
          rw [update_of_ne ?_, holds']
          rintro rfl
          exact same (Option.some.inj (holds'.symm.trans holds))
        · rintro ⟨j, holds'⟩
          by_cases other : j = i
          · simp [other] at holds'
          · exact ⟨j, by rwa [update_of_ne other] at holds'⟩
  · intro j j' k
    by_cases first : j = i
    · simp [first]
    · by_cases second : j' = i
      · simp [second]
      · rw [update_of_ne first, update_of_ne second]
        exact h.unique j j' k

/-- A holder with no key takes one that is free. -/
theorem add {i : ι} (none : held i = none) {k : κ} (free : reserved k = false) :
    Exact (update held i (some k)) (update reserved k true) := by
  have nobody := h.ne_of_free free
  constructor
  · intro k'
    by_cases same : k' = k
    · subst same
      simpa using ⟨i, by simp⟩
    · rw [update_of_ne same, h.reserved_iff]
      constructor
      · rintro ⟨j, holds⟩
        refine ⟨j, ?_⟩
        rw [update_of_ne ?_, holds]
        rintro rfl
        simp [none] at holds
      · rintro ⟨j, holds⟩
        by_cases other : j = i
        · subst other
          exact absurd (by simpa using holds.symm) same
        · exact ⟨j, by rwa [update_of_ne other] at holds⟩
  · intro j j' k' holds holds'
    by_cases first : j = i <;> by_cases second : j' = i
    · rw [first, second]
    · subst first
      rw [update_self] at holds
      rw [update_of_ne second, ← holds] at holds'
      exact absurd holds' (nobody j')
    · subst second
      rw [update_self] at holds'
      rw [update_of_ne first, ← holds'] at holds
      exact absurd holds (nobody j)
    · rw [update_of_ne first] at holds
      rw [update_of_ne second] at holds'
      exact h.unique j j' k' holds holds'

/-- A holder takes a free key in place of the one it has. -/
theorem take (i : ι) {k : κ} (free : reserved k = false) :
    Exact (update held i (some k)) (update (Registry.release reserved (held i)) k true) := by
  have free' : Registry.release reserved (held i) k = false := by
    cases holds : held i with
    | none => exact free
    | some k' =>
      by_cases same : k = k'
      · simp [Registry.release, same]
      · rwa [Registry.release, update_of_ne same]
  have := (h.release i).add (update_self ..) free'
  rwa [update_idem] at this

end Exact

end Registry
