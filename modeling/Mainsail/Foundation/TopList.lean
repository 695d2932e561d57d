import Mathlib.Data.List.Sort

/-!
# The highest values of a stream

The `n` highest of the values seen so far are kept in ascending order, so that the first is the
one to give way. A value is inserted in its place while there is room. After that it takes the
place of the lowest, or is passed over.
-/

namespace TopList

open List

variable {α β : Type*} [LinearOrder β] {rank rank' : α → β}
variable {n : Nat} {seen seen' best best' : List α} {a lowest : α}

/-- Insertion into a list in ascending order. -/
def insert (rank : α → β) (a : α) (l : List α) : List α :=
  l.orderedInsert (fun a b => rank a ≤ rank b) a

structure Best (rank : α → β) (n : Nat) (seen best : List α) : Prop where
  ascending : best.Pairwise fun a b => rank a ≤ rank b
  nodup : best.Nodup
  subset : ∀ a ∈ best, a ∈ seen
  length : best.length = min n seen.length
  above : ∀ a ∈ best, ∀ b ∈ seen, b ∉ best → rank b ≤ rank a

variable {b : α} {l : List α}

theorem insert_of_le (l : List α) (h : rank a ≤ rank b) : insert rank a (b :: l) = a :: b :: l :=
  orderedInsert_cons_of_le (fun a b => rank a ≤ rank b) l h

theorem insert_of_not_le (l : List α) (h : ¬ rank a ≤ rank b) :
    insert rank a (b :: l) = b :: insert rank a l :=
  orderedInsert_of_not_le (fun a b => rank a ≤ rank b) l h

theorem mem_insert : b ∈ insert rank a l ↔ b = a ∨ b ∈ l :=
  mem_orderedInsert _

theorem length_insert (l : List α) : (insert rank a l).length = l.length + 1 :=
  orderedInsert_length _ l a

theorem ascending_insert (h : l.Pairwise fun a b => rank a ≤ rank b) :
    (insert rank a l).Pairwise fun a b => rank a ≤ rank b :=
  haveI : Std.Total fun a b : α => rank a ≤ rank b := ⟨fun a b => le_total (rank a) (rank b)⟩
  haveI : IsTrans α fun a b : α => rank a ≤ rank b := ⟨fun _ _ _ => le_trans⟩
  h.orderedInsert a l

theorem nodup_insert (h : l.Nodup) (new : a ∉ l) : (insert rank a l).Nodup :=
  (perm_orderedInsert _ a l).nodup_iff.mpr (nodup_cons.mpr ⟨new, h⟩)

namespace Best

theorem empty : Best rank n [] [] where
  ascending := .nil
  nodup := .nil
  subset _ := id
  length := by simp
  above _ member := absurd member (not_mem_nil)

section

variable (h : Best rank n seen best)
include h

theorem congr (same : ∀ a ∈ seen, rank' a = rank a) :
    Best rank' n seen best where
  ascending := h.ascending.imp_of_mem fun ha hb le => by
    rwa [same _ (h.subset _ ha), same _ (h.subset _ hb)]
  nodup := h.nodup
  subset := h.subset
  length := h.length
  above a ha b hb other := by
    rw [same _ (h.subset a ha), same b hb]
    exact h.above a ha b hb other

/-- While there is room nothing has been passed over. -/
theorem mem_of_room (room : best.length < n) (member : a ∈ seen) :
    a ∈ best := by
  have length := h.length
  have perm := (subperm_of_subset h.nodup h.subset).perm_of_length_le (by omega)
  exact perm.mem_iff.mpr member

theorem room (new : a ∉ seen) (room : best.length < n) :
    Best rank n (seen ++ [a]) (insert rank a best) where
  ascending := ascending_insert h.ascending
  nodup := nodup_insert h.nodup fun member => new (h.subset a member)
  subset b member := by
    obtain rfl | old := mem_insert.mp member
    · simp
    · exact mem_append_left _ (h.subset b old)
  length := by
    have length := h.length
    rw [length_insert, length_append, length_singleton]
    omega
  above c _ b member out := by
    rw [mem_insert, not_or] at out
    have old : b ∈ seen := by simpa [out.1] using member
    exact absurd (h.mem_of_room room old) out.2

end

section

variable (h : Best rank n seen (lowest :: best))
include h

/-- The lowest is at most as high as any other. -/
theorem lowest_le (member : b ∈ lowest :: best) : rank lowest ≤ rank b := by
  obtain rfl | later := mem_cons.mp member
  · exact le_rfl
  · exact rel_of_pairwise_cons h.ascending later

theorem replace (new : a ∉ seen)
    (full : n ≤ (lowest :: best).length) (better : rank lowest < rank a) :
    Best rank n (seen ++ [a]) (insert rank a best) where
  ascending := ascending_insert h.ascending.of_cons
  nodup := nodup_insert h.nodup.of_cons fun member =>
    new (h.subset a (mem_cons_of_mem _ member))
  subset b member := by
    obtain rfl | old := mem_insert.mp member
    · simp
    · exact mem_append_left _ (h.subset b (mem_cons_of_mem _ old))
  length := by
    have length := h.length
    rw [length_cons] at length full
    rw [length_insert, length_append, length_singleton]
    omega
  above c chosen b member out := by
    rw [mem_insert, not_or] at out
    have old : b ∈ seen := by simpa [out.1] using member
    have low : rank b ≤ rank lowest := by
      by_cases same : b = lowest
      · rw [same]
      · exact h.above lowest (mem_cons_self ..) b old (by simp [same, out.2])
    obtain rfl | kept := mem_insert.mp chosen
    · exact low.trans better.le
    · exact low.trans (h.lowest_le (mem_cons_of_mem _ kept))

theorem skip (full : n ≤ (lowest :: best).length)
    (worse : ¬ rank lowest < rank a) : Best rank n (seen ++ [a]) (lowest :: best) where
  ascending := h.ascending
  nodup := h.nodup
  subset b member := mem_append_left _ (h.subset b member)
  length := by
    have length := h.length
    rw [length_append, length_singleton]
    omega
  above c chosen b member out := by
    obtain old | last := mem_append.mp member
    · exact h.above c chosen b old out
    · rw [mem_singleton.mp last]
      exact (not_lt.mp worse).trans (h.lowest_le chosen)

end

variable (h : Best rank n seen best)
include h

theorem lt_of_not_mem (injective : rank.Injective)
    (chosen : a ∈ best) (member : b ∈ seen) (out : b ∉ best) : rank b < rank a := by
  refine lt_of_le_of_ne (h.above a chosen b member out) fun same => ?_
  exact out (injective same ▸ chosen)

/-- The order in which the values came is of no consequence. -/
theorem perm (h' : Best rank n seen' best')
    (injective : rank.Injective) (same : seen.Perm seen') : best.Perm best' := by
  have length : best.length = best'.length := by rw [h.length, h'.length, same.length_eq]
  refine (subperm_of_subset h.nodup ?_).perm_of_length_le length.ge
  intro a chosen
  by_contra out
  -- Something else has been chosen in its place.
  obtain ⟨b, chosen', out'⟩ : ∃ b ∈ best', b ∉ best := by
    by_contra none
    push Not at none
    have perm := (subperm_of_subset h'.nodup none).perm_of_length_le length.le
    exact out (perm.mem_iff.mpr chosen)
  have one := h.lt_of_not_mem injective chosen (same.mem_iff.mpr (h'.subset b chosen')) out'
  have other := h'.lt_of_not_mem injective chosen' (same.mem_iff.mp (h.subset a chosen)) out
  exact lt_asymm one other

end Best

end TopList
