import Mathlib.Algebra.Order.Group.Nat

/-!
# Numbered blocks of changing length

The numbers from a start on are cut into blocks of the same length, which are numbered one
after the other. At some points the length changes; such a point starts a new segment. If
the length changes only at the end of a block, the blocks with the same number are the whole
blocks.
-/

/-- From `start` on, blocks of `length` numbers; the first of them has the number `index`. -/
@[ext] structure Segment where
  start : Nat
  index : Nat
  length : Nat
  deriving DecidableEq, Repr

namespace Segment

open Segment Nat

/-- The number of the block that `n` is in. -/
def block (s : Segment) (n : Nat) : Nat := s.index + (n - s.start) / s.length

/-- The first number of that block. -/
def first (s : Segment) (n : Nat) : Nat := s.start + (n - s.start) / s.length * s.length

/-- The segment that follows when the length changes at `n`. -/
def next (s : Segment) (n length : Nat) : Segment := ⟨n, s.block n, length⟩

/-- The segment that `n` is in. A change is a number and the length from there on. -/
def locate : Segment → List (Nat × Nat) → Nat → Segment
  | s, [], _ => s
  | s, (at', length) :: changes, n =>
    if n < at' then s else locate (s.next at' length) changes n

/-- The length changes only after whole blocks. -/
def Whole : Segment → List (Nat × Nat) → Prop
  | s, [] => 0 < s.length
  | s, (at', length) :: changes =>
    0 < s.length ∧ s.start < at' ∧ s.length ∣ at' - s.start ∧ Whole (s.next at' length) changes

variable {s : Segment} {changes : List (Nat × Nat)} {m n at' length : Nat}

/-- Within one segment, a block is what has its number. -/
theorem block_eq_iff (pos : 0 < s.length) (hm : s.start ≤ m) :
    s.block m = s.block n ↔ s.first n ≤ m ∧ m < s.first n + s.length := by
  have low := le_div_iff_mul_le pos (x := (n - s.start) / s.length) (y := m - s.start)
  have high := div_lt_iff_lt_mul pos (x := m - s.start) (y := (n - s.start) / s.length + 1)
  rw [succ_mul] at high
  unfold block first
  omega

/-- A block that starts before the end of the segment ends before it. -/
theorem first_add_le (pos : 0 < s.length) (whole : s.length ∣ at' - s.start) (hn : s.start ≤ n)
    (before : n < at') : s.first n + s.length ≤ at' := by
  obtain ⟨count, eq⟩ := whole
  have less : (n - s.start) / s.length < count := by
    rw [div_lt_iff_lt_mul pos, mul_comm, ← eq]
    omega
  have := mul_le_mul_right s.length (succ_le_of_lt less)
  rw [succ_mul, mul_comm count] at this
  unfold first
  omega

theorem block_lt (pos : 0 < s.length) (whole : s.length ∣ at' - s.start) (hn : s.start ≤ n)
    (before : n < at') : s.block n < s.block at' := by
  obtain ⟨count, eq⟩ := whole
  have : (n - s.start) / s.length < (at' - s.start) / s.length := by
    rw [eq, Nat.mul_div_cancel_left _ pos, Nat.div_lt_iff_lt_mul pos, mul_comm, ← eq]
    omega
  unfold block
  omega

theorem block_start (s : Segment) : s.block s.start = s.index := by simp [block]

/-- The block of the next number is the next one exactly if the block ends here. -/
theorem block_succ (hn : s.start ≤ n) :
    s.block (n + 1) = if (n - s.start + 1) % s.length = 0 then s.block n + 1 else s.block n := by
  have step : n + 1 - s.start = n - s.start + 1 := by omega
  unfold block
  rw [step, Nat.succ_div]
  simp only [Nat.dvd_iff_mod_eq_zero]
  split <;> omega

/-- A new block starts at the next number exactly if the block ends here. -/
theorem first_succ_iff (hn : s.start ≤ n) :
    s.first (n + 1) = n + 1 ↔ (n - s.start + 1) % s.length = 0 := by
  have step : n + 1 - s.start = n - s.start + 1 := by omega
  have split := div_add_mod' (n - s.start + 1) s.length
  unfold first
  rw [step]
  omega

/-! ## Over all segments -/

/-- What `locate` finds starts at or before the number, and its blocks come after those before. -/
theorem Whole.locate (h : s.Whole changes) (hn : s.start ≤ n) :
    0 < (s.locate changes n).length ∧ s.start ≤ (s.locate changes n).start ∧
      (s.locate changes n).start ≤ n ∧ s.index ≤ (s.locate changes n).index := by
  induction changes generalizing s with
  | nil => exact ⟨h, le_rfl, hn, le_rfl⟩
  | cons change changes ih =>
    obtain ⟨pos, after, whole, rest⟩ := h
    simp only [locate]
    split
    · exact ⟨pos, le_rfl, hn, le_rfl⟩
    · next reached =>
      obtain ⟨pos', start, le, index⟩ := ih rest (not_lt.mp reached)
      refine ⟨pos', after.le.trans start, le, le_trans ?_ index⟩
      exact le_add_right _ _

/-- What lies behind a change has higher numbers than what lies before it. -/
theorem Whole.le_locate (rest : (s.next at' length).Whole changes) (reached : at' ≤ n) :
    s.block at' ≤ ((s.next at' length).locate changes n).block n ∧
      at' ≤ ((s.next at' length).locate changes n).first n := by
  obtain ⟨-, start, -, index⟩ := rest.locate reached
  exact ⟨index.trans (le_add_right _ _), start.trans (le_add_right _ _)⟩

theorem Whole.block_lt_of_lt (h : s.Whole ((at', length) :: changes)) (hm : s.start ≤ m)
    (before : m < at') (reached : at' ≤ n) :
    s.block m < ((s.next at' length).locate changes n).block n := by
  obtain ⟨pos, -, whole, rest⟩ := h
  exact (block_lt pos whole hm before).trans_le (rest.le_locate reached).1

/-- Numbers of the same block are in the same segment. -/
theorem Whole.locate_eq (h : s.Whole changes) (hm : s.start ≤ m) (hn : s.start ≤ n)
    (same : (s.locate changes m).block m = (s.locate changes n).block n) :
    s.locate changes m = s.locate changes n := by
  induction changes generalizing s with
  | nil => rfl
  | cons change changes ih =>
    obtain ⟨at', length⟩ := change
    simp only [Segment.locate] at same ⊢
    by_cases here : m < at' <;> by_cases there : n < at'
    · rw [if_pos here, if_pos there]
    · rw [if_pos here, if_neg there] at same
      exact absurd same (h.block_lt_of_lt hm here (not_lt.mp there)).ne
    · rw [if_neg here, if_pos there] at same
      exact absurd same (h.block_lt_of_lt hn there (not_lt.mp here)).ne'
    · simp only [if_neg here, if_neg there] at same ⊢
      exact ih h.2.2.2 (not_lt.mp here) (not_lt.mp there) same

/-- The numbers with the same block number are the whole block. -/
theorem Whole.block_eq_iff (h : s.Whole changes) (hm : s.start ≤ m) (hn : s.start ≤ n) :
    (s.locate changes m).block m = (s.locate changes n).block n ↔
      (s.locate changes n).first n ≤ m ∧
        m < (s.locate changes n).first n + (s.locate changes n).length := by
  induction changes generalizing s with
  | nil => exact block_eq_iff h hm
  | cons change changes ih =>
    obtain ⟨at', length⟩ := change
    obtain ⟨pos, -, whole, rest⟩ := id h
    simp only [Segment.locate]
    by_cases here : m < at' <;> by_cases there : n < at'
    · simp only [if_pos here, if_pos there]
      exact block_eq_iff pos hm
    · simp only [if_pos here, if_neg there]
      have less := h.block_lt_of_lt hm here (not_lt.mp there)
      have := (rest.le_locate (not_lt.mp there)).2
      omega
    · simp only [if_neg here, if_pos there]
      have less := h.block_lt_of_lt hn there (not_lt.mp here)
      have ends := first_add_le pos whole hn there
      omega
    · simp only [if_neg here, if_neg there]
      exact ih rest (not_lt.mp here) (not_lt.mp there)

/-- Before the next change, the segment is the first one. -/
theorem locate_of_lt (before : ∀ change ∈ changes, n < change.1) : s.locate changes n = s := by
  cases changes with
  | nil => rfl
  | cons change changes => exact if_pos (before change (List.mem_cons_self ..))

/-- From one number to the next, the block stays or the next one starts. -/
theorem Whole.block_succ (h : s.Whole changes) (hn : s.start ≤ n) :
    (s.locate changes (n + 1)).block (n + 1) =
        (if (n - (s.locate changes n).start + 1) % (s.locate changes n).length = 0
          then (s.locate changes n).block n + 1 else (s.locate changes n).block n) ∧
      ((s.locate changes (n + 1)).first (n + 1) = n + 1 ↔
        (n - (s.locate changes n).start + 1) % (s.locate changes n).length = 0) := by
  induction changes generalizing s with
  | nil => exact ⟨block_succ hn, first_succ_iff hn⟩
  | cons change changes ih =>
    obtain ⟨at', length⟩ := change
    obtain ⟨pos, after, whole, rest⟩ := h
    simp only [Segment.locate]
    by_cases there : n < at'
    · simp only [if_pos there]
      by_cases here : n + 1 < at'
      · simp only [if_pos here]
        exact ⟨block_succ hn, first_succ_iff hn⟩
      · simp only [if_neg here]
        obtain rfl : at' = n + 1 := by omega
        have ends : (n - s.start + 1) % s.length = 0 := by
          rw [← dvd_iff_mod_eq_zero]
          rwa [show n - s.start + 1 = n + 1 - s.start by omega]
        have located : (s.next (n + 1) length).locate changes (n + 1) = s.next (n + 1) length := by
          cases changes with
          | nil => rfl
          | cons change changes =>
            obtain ⟨-, after', -, -⟩ := rest
            simp only [Segment.locate]
            exact if_pos after'
        simp only [located, ends, if_true, iff_true]
        have succ := block_succ hn
        rw [if_pos ends] at succ
        refine ⟨?_, ?_⟩
        · rw [← succ]
          exact block_start (s.next (n + 1) length)
        · simp [first, next]
    · simp only [if_neg there, if_neg (show ¬ n + 1 < at' by omega)]
      exact ih rest (not_lt.mp there)

end Segment
