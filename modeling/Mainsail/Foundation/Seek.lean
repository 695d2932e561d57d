import Mathlib.Order.Lattice

/-!
# A moving position in a sorted list

A reader keeps a position in a list that is sorted by a key, the number of entries at or below the
key it has read last. For the next key it moves up over the entries that are at or below it, and
then down over those above it. Where it ends depends on the key alone.
-/

namespace Seek

open List Nat

variable {α β : Type*} [LinearOrder β] (key : α → β)

/-- The number of entries up to the first one above `b`. -/
def position (b : β) (l : List α) : Nat :=
  (l.takeWhile (key · ≤ b)).length

/-- Move up over the entries ahead. -/
def advance (b : β) : List α → Nat → Nat
  | [], i => i
  | a :: l, i => if key a ≤ b then advance b l (i + 1) else i

/-- Move down while the entry below is above `b`. -/
def retreat (l : List α) (b : β) : Nat → Nat
  | 0 => 0
  | i + 1 =>
    match l[i]? with
    | some a => if b < key a then retreat l b i else i + 1
    | none => i + 1

def seek (l : List α) (b : β) (i : Nat) : Nat :=
  retreat key l b (advance key b (l.drop i) i)

variable {key} {l : List α} {b : β} {i : Nat}

theorem position_le_length : position key b l ≤ l.length :=
  (takeWhile_sublist _).length_le

/-- The entry below the position is the last one of those counted. -/
theorem getElem?_pred_position (h : position key b l = i + 1) :
    l[i]? = (l.takeWhile (key · ≤ b)).getLast? := by
  have last : i = (l.takeWhile (key · ≤ b)).length - 1 := by
    rw [← position, h, Nat.add_sub_cancel]
  rw [getLast?_eq_getElem?, ← last]
  have inside : i < (l.takeWhile (key · ≤ b)).length := by
    rw [← position, h]
    exact lt_succ_self i
  calc l[i]? = (l.takeWhile (key · ≤ b) ++ l.dropWhile (key · ≤ b))[i]? := by
        rw [takeWhile_append_dropWhile]
    _ = _ := getElem?_append_left inside

theorem advance_eq : advance key b l i = i + position key b l := by
  induction l generalizing i with
  | nil => rfl
  | cons a l ih =>
    by_cases low : key a ≤ b
    · simp [advance, position, low, ih]
      omega
    · simp [advance, position, low]

theorem le_of_lt_position (h : i < position key b l) :
    key (l.get ⟨i, h.trans_le position_le_length⟩) ≤ b := by
  induction l generalizing i with
  | nil => exact absurd h (not_lt_zero i)
  | cons a l ih =>
    by_cases low : key a ≤ b
    · cases i with
      | zero => exact low
      | succ i =>
        refine ih ?_
        simpa [position, takeWhile_cons, low] using h
    · simp [position, low] at h

section Sorted

variable (sorted : l.Pairwise (key · ≤ key ·))
include sorted

theorem lt_of_position_le (h : position key b l ≤ i) (inside : i < l.length) :
    b < key (l.get ⟨i, inside⟩) := by
  induction l generalizing i with
  | nil => exact absurd inside (not_lt_zero i)
  | cons a l ih =>
    obtain ⟨first, rest⟩ := pairwise_cons.mp sorted
    by_cases low : key a ≤ b
    · cases i with
      | zero => simp [position, low] at h
      | succ i =>
        refine ih rest ?_ (lt_of_succ_lt_succ inside)
        simpa [position, takeWhile_cons, low] using h
    · have above : b < key a := lt_of_not_ge low
      cases i with
      | zero => exact above
      | succ i => exact above.trans_le (first _ (getElem_mem _))

theorem position_drop (h : i ≤ position key b l) :
    i + position key b (l.drop i) = position key b l := by
  induction i generalizing l with
  | zero => simp
  | succ i ih =>
    cases l with
    | nil => simp [position] at h
    | cons a l =>
      by_cases low : key a ≤ b
      · have count : position key b (a :: l) = position key b l + 1 := by
          simp [position, low]
        rw [count] at h ⊢
        have := ih (pairwise_cons.mp sorted).2 (le_of_succ_le_succ h)
        rw [drop_succ_cons]
        omega
      · simp [position, low] at h

theorem position_drop_of_le (h : position key b l ≤ i) : position key b (l.drop i) = 0 := by
  cases rest : l.drop i with
  | nil => rfl
  | cons a ahead =>
    have inside : i < l.length := by
      by_contra past
      rw [drop_eq_nil_of_le (Nat.le_of_not_lt past)] at rest
      cases rest
    have here : l.get ⟨i, inside⟩ = a := by
      rw [drop_eq_getElem_cons inside] at rest
      exact (cons.inj rest).1
    have above := lt_of_position_le sorted h inside
    rw [here] at above
    simp [position, not_le_of_gt above]

theorem retreat_eq (inside : i ≤ l.length) (h : position key b l ≤ i) :
    retreat key l b i = position key b l := by
  induction i with
  | zero => exact (le_zero.mp h).symm
  | succ i ih =>
    have within : i < l.length := inside
    have entry : l[i]? = some (l.get ⟨i, within⟩) := getElem?_eq_getElem within
    simp only [retreat, entry]
    by_cases above : b < key (l.get ⟨i, within⟩)
    · rw [if_pos above]
      apply ih within.le
      by_contra below
      exact absurd (le_of_lt_position (lt_of_not_ge below)) (not_le_of_gt above)
    · rw [if_neg above]
      by_contra differs
      have : position key b l ≤ i := by omega
      exact above (lt_of_position_le sorted this within)

/-- Where the reader ends depends on the key alone. -/
theorem seek_eq (inside : i ≤ l.length) : seek key l b i = position key b l := by
  rw [seek, advance_eq]
  obtain low | high := le_total i (position key b l)
  · rw [position_drop sorted low]
    exact retreat_eq sorted position_le_length le_rfl
  · rw [position_drop_of_le sorted high]
    exact retreat_eq sorted inside high

end Sorted

end Seek
