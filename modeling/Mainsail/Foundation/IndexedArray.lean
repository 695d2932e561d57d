import Mathlib.Data.List.Nodup

/-!
# Sets as arrays with an index

A set is kept as an array without repetition, and the position of each member in a mapping. The
mapping says nothing of other values: whether a value is a member is decided by looking at the
position that the mapping gives. A member is removed by moving the last one to its place.
-/

namespace IndexedArray

open Function List

variable {α : Type*} {array xs ys : List α} {index : α → Nat} {a b l : α}

structure Indexed (array : List α) (index : α → Nat) : Prop where
  nodup : array.Nodup
  position : ∀ a ∈ array, array[index a]? = some a

namespace Indexed

theorem mem_iff (h : Indexed array index) : a ∈ array ↔ array[index a]? = some a :=
  ⟨h.position a, mem_of_getElem?⟩

theorem index_eq (h : Indexed (xs ++ a :: ys) index) : index a = xs.length := by
  have there : (xs ++ a :: ys)[xs.length]? = some a := by simp
  have position := h.position a (by simp)
  obtain ⟨bound, -⟩ := List.getElem?_eq_some_iff.mp position
  exact (getElem?_inj bound h.nodup).mp (position.trans there.symm)

variable [DecidableEq α]

theorem push (h : Indexed array index) (new : a ∉ array) :
    Indexed (array ++ [a]) (update index a array.length) := by
  refine ⟨nodup_append.mpr ⟨h.nodup, nodup_singleton a, ?_⟩, ?_⟩
  · rintro b member c single rfl
    exact new (mem_singleton.mp single ▸ member)
  · intro b member
    by_cases same : b = a
    · simp [same]
    · have position := h.position b (by simpa [same] using member)
      obtain ⟨bound, -⟩ := List.getElem?_eq_some_iff.mp position
      rw [update_of_ne same, getElem?_append_left bound, position]

/-- The last member is removed. -/
theorem pop (h : Indexed (xs ++ [a]) index) (i : Nat) : Indexed xs (update index a i) := by
  obtain ⟨distinct, -, apart⟩ := nodup_append.mp h.nodup
  refine ⟨distinct, ?_⟩
  intro b member
  have other : b ≠ a := apart b member a (mem_singleton_self a)
  have position := h.position b (mem_append_left _ member)
  rw [update_of_ne other]
  obtain early | late := Nat.lt_or_ge (index b) xs.length
  · rwa [getElem?_append_left early] at position
  · rw [getElem?_append_right late] at position
    exact absurd (mem_of_getElem? position) (by simpa using other)

/-- The last member takes the place of the one that is removed. -/
theorem swap (h : Indexed (xs ++ a :: (ys ++ [l])) index) (i : Nat) :
    Indexed (xs ++ l :: ys) (update (update index l xs.length) a i) := by
  have distinct : (a :: l :: (xs ++ ys)).Nodup := by
    refine (Perm.nodup_iff ?_).mp h.nodup
    refine perm_middle.trans (.cons a ?_)
    rw [← append_assoc]
    exact perm_append_singleton ..
  obtain ⟨removed, rest⟩ := nodup_cons.mp distinct
  have moved : (xs ++ l :: ys).Perm (l :: (xs ++ ys)) := perm_middle
  refine ⟨moved.nodup_iff.mpr rest, ?_⟩
  intro b member
  have notRemoved : b ≠ a := by
    rintro rfl
    exact removed (moved.mem_iff.mp member)
  rw [update_of_ne notRemoved]
  by_cases last : b = l
  · simp [last]
  rw [update_of_ne last]
  have old : b ∈ xs ∨ b ∈ ys := by simpa [last] using member
  -- The others stay where they are.
  obtain early | late := old
  · obtain ⟨before, after, rfl⟩ := append_of_mem early
    have : index b = before.length := by
      rw [append_assoc, cons_append] at h
      exact h.index_eq
    simp [this]
  · obtain ⟨before, after, rfl⟩ := append_of_mem late
    have : index b = (xs ++ a :: before).length := by
      have : xs ++ a :: (before ++ b :: after ++ [l]) =
          (xs ++ a :: before) ++ b :: (after ++ [l]) := by simp
      rw [this] at h
      exact h.index_eq
    have there : xs ++ l :: (before ++ b :: after) = (xs ++ l :: before) ++ b :: after := by simp
    rw [this, there]
    simp

end Indexed

end IndexedArray
