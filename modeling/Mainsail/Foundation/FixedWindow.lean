import Mathlib.Order.Basic

/-!
# Counting in fixed windows

A limiter grants a number of points in a window of time. The window opens with the first point
consumed in it and ends a fixed time later; what is consumed at its end opens the next one.

Two limiters that count the same requests at a constant distance in time are in step: they agree
on how much is used and on when the window ends. What keeps them so, and how two limiters that
have lost step get it back, is said here once.
-/

namespace FixedWindow

structure Policy where
  points : Nat
  duration : Nat
  points_pos : 0 < points
  duration_pos : 0 < duration

/-- The record of a window. -/
structure Window where
  consumed : Nat
  expires : Nat
  consumed_pos : 0 < consumed
  deriving DecidableEq, Repr

variable (p : Policy) (now : Nat) (r : Option Window)

/-- The points that count at `now`. -/
def used : Nat :=
  match r with
  | none => 0
  | some w => if now < w.expires then w.consumed else 0

/-- The end of the window in which a point counts that is consumed at `now`. -/
def ends : Nat :=
  match r with
  | none => now + p.duration
  | some w => if now < w.expires then w.expires else now + p.duration

/-- One point more. -/
def count : Window := ⟨used now r + 1, ends p now r, Nat.succ_pos _⟩

/-- Whether a point is granted. It is counted in any case. -/
def granted : Bool := (count p now r).consumed ≤ p.points

/-- The time to wait for the next point. -/
def msBeforeNext : Nat :=
  match r with
  | none => 0
  | some w => if p.points ≤ w.consumed then w.expires - now else 0

variable {p now r}

theorem lt_ends : now < ends p now r := by
  have := p.duration_pos
  unfold ends
  split
  · omega
  · split <;> omega

@[simp] theorem used_count : used now (some (count p now r)) = used now r + 1 :=
  if_pos lt_ends

@[simp] theorem ends_count : ends p now (some (count p now r)) = ends p now r :=
  if_pos lt_ends

theorem granted_iff : granted p now r = true ↔ used now r + 1 ≤ p.points :=
  decide_eq_true_iff

/-- A limiter that need not wait has a point left. -/
theorem room_of_msBeforeNext (free : msBeforeNext p now r = 0) : used now r + 1 ≤ p.points := by
  have := p.points_pos
  unfold msBeforeNext at free
  unfold used
  split at free
  · omega
  · split at free
    · rw [if_neg (by omega)]
      omega
    · split <;> omega

/-- Points stop counting as time goes by. -/
theorem used_le_of_le {later : Nat} (le : now ≤ later) : used later r ≤ used now r := by
  unfold used
  split
  · exact Nat.le_refl _
  · split <;> split <;> omega

theorem used_eq_zero (expired : ∀ w ∈ r, w.expires ≤ now) : used now r = 0 := by
  cases r with
  | none => rfl
  | some w => exact if_neg (by have := expired w rfl; omega)

theorem ends_of_over (expired : ∀ w ∈ r, w.expires ≤ now) : ends p now r = now + p.duration := by
  cases r with
  | none => rfl
  | some w => exact if_neg (by have := expired w rfl; omega)

/-- A record without points that count is over. -/
theorem over_of_used_eq_zero (unused : used now r = 0) : ∀ w ∈ r, w.expires ≤ now := by
  rintro w rfl
  have := w.consumed_pos
  by_contra open_
  rw [used, if_pos (by omega)] at unused
  omega

/-- Windows end at most their duration after they were opened. -/
theorem count_expires_le {bound : Nat} (short : p.duration ≤ bound)
    (before : ∀ w ∈ r, w.expires ≤ now + bound) : (count p now r).expires ≤ now + bound := by
  show ends p now r ≤ now + bound
  unfold ends
  split
  · omega
  · next w =>
      have := before w rfl
      split <;> omega

/-- The second limiter counts what the first one has counted, `latency` later, and `n` points are
on the way to it. -/
structure InStep (p : Policy) (latency now : Nat) (first second : Option Window) (n : Nat) : Prop where
  used : used now first = used (now + latency) second + n
  ends : ends p now first + latency = ends p (now + latency) second

namespace InStep

variable {latency n : Nat} {first second : Option Window}

/-- Two limiters whose windows are over are in step. -/
theorem of_over (first_over : ∀ w ∈ first, w.expires ≤ now)
    (second_over : ∀ w ∈ second, w.expires ≤ now + latency) :
    InStep p latency now first second 0 where
  used := by rw [used_eq_zero first_over, used_eq_zero second_over]
  ends := by
    rw [ends_of_over first_over, ends_of_over second_over]
    omega

theorem sent (h : InStep p latency now first second n) :
    InStep p latency now (some (count p now first)) second (n + 1) where
  used := by
    rw [used_count, h.used]
    omega
  ends := by rw [ends_count, h.ends]

theorem received (h : InStep p latency now first second (n + 1)) :
    InStep p latency now first (some (count p (now + latency) second)) n where
  used := by
    rw [used_count, h.used]
    omega
  ends := by rw [ends_count, h.ends]

/-- With nothing on the way, time keeps them in step. -/
theorem later (h : InStep p latency now first second 0) (ms : Nat) :
    InStep p latency (now + ms) first second 0 := by
  have same := h.used
  have ends := h.ends
  by_cases unused : FixedWindow.used now first = 0
  · have first_over := over_of_used_eq_zero unused
    have second_over : ∀ w ∈ second, w.expires ≤ now + latency :=
      over_of_used_eq_zero (by omega)
    refine of_over (fun w member => ?_) fun w member => ?_
    · have := first_over w member
      omega
    · have := second_over w member
      omega
  · -- Both windows count and end together.
    cases first with
    | none => exact absurd rfl unused
    | some w =>
      cases second with
      | none => exact absurd same unused
      | some v =>
        have open_w : now < w.expires := by
          by_contra expired
          exact unused (if_neg expired)
        have open_v : now + latency < v.expires := by
          by_contra expired
          rw [same] at unused
          exact unused (if_neg expired)
        simp only [FixedWindow.used, if_pos open_w, if_pos open_v] at same
        simp only [FixedWindow.ends, if_pos open_w, if_pos open_v] at ends
        refine ⟨?_, ?_⟩
        · simp only [FixedWindow.used]
          split <;> split <;> omega
        · simp only [FixedWindow.ends]
          split <;> split <;> omega

end InStep

end FixedWindow
