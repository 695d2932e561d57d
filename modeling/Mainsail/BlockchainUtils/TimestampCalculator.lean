import Mainsail.Foundation.Double
import Mainsail.Consensus.Data
import Mathlib.Algebra.Order.BigOperators.Group.Finset

/-!
# Minimal timestamps

`TimestampCalculator.calculateMinimalTimestamp` gives the earliest time of a block of some round in
closed form. It stands for the timeouts that the scheduler has let pass in the rounds before. The
numbers are doubles, and the closed form multiplies before it halves.
-/

namespace Mainsail

open Double Finset Nat

/-- The keys of `timeouts` that the two components read. -/
structure Timeouts where
  blockTime : Nat
  stageTimeout : Nat
  stageTimeoutIncrease : Nat
  deriving DecidableEq, Repr

namespace Scheduler

/-- `#getTimeout`. -/
def getTimeout (timeouts : Timeouts) (round : Nat) : Double :=
  .ofInt timeouts.stageTimeout + .ofInt round * .ofInt timeouts.stageTimeoutIncrease

end Scheduler

namespace TimestampCalculator

/-- The part of the increases, for the number of rounds before the last one. -/
def increases (timeouts : Timeouts) (previousRounds : Nat) : Double :=
  let doubled := ofInt timeouts.stageTimeoutIncrease * .ofInt previousRounds *
    (.ofInt previousRounds + 1)
  doubled.floorHalf

/-- The timeouts are those of the milestone of the block after the previous one. -/
def calculateMinimalTimestamp (getMilestone : Nat → Timeouts) (previousBlock : BlockHeader)
    (round : Nat) : Except String Double :=
  -- Hard limit to prevent overflow
  if 100000 < round then .error s!"Round {round} is too high"
  else
    let timeouts := getMilestone (previousBlock.number + 1)
    .ok (.ofInt previousBlock.timestamp + .ofInt timeouts.blockTime +
      .ofInt round * .ofInt timeouts.stageTimeout + increases timeouts (max 0 (round - 1)))

/-- The timeout of a round, as a number. -/
def timeout (timeouts : Timeouts) (round : Nat) : Nat :=
  timeouts.stageTimeout + round * timeouts.stageTimeoutIncrease

/-- What the rounds before `round` add up to after the time of a block. -/
def minimalTimestamp (timeouts : Timeouts) (previousBlock : BlockHeader) (round : Nat) : Nat :=
  previousBlock.timestamp + timeouts.blockTime + ∑ k ∈ range round, timeout timeouts k

variable {timeouts : Timeouts} {round : Nat}

theorem sum_timeouts (timeouts : Timeouts) (round : Nat) :
    2 * ∑ k ∈ range round, timeout timeouts k = 2 * (round * timeouts.stageTimeout) +
        timeouts.stageTimeoutIncrease * (round - 1) * ((round - 1) + 1) := by
  induction round with
  | zero => simp
  | succ round ih =>
    rw [sum_range_succ, Nat.mul_add, ih, timeout, Nat.add_sub_cancel]
    cases round with
    | zero => simp
    | succ round =>
      rw [Nat.add_sub_cancel]
      ring

theorem minimalTimestamp_mono (timeouts : Timeouts) (previousBlock : BlockHeader) :
    Monotone (minimalTimestamp timeouts previousBlock) := by
  intro r r' le
  apply Nat.add_le_add_left
  exact sum_le_sum_of_subset (range_mono le)

/-- The timeouts of the rounds before are below a bound on their sum. -/
theorem timeout_le_sum {k : Nat} (earlier : k < round) :
    timeout timeouts k ≤ ∑ k ∈ range round, timeout timeouts k :=
  single_le_sum (fun _ _ => zero_le _) (mem_range.mpr earlier)

theorem getTimeout_eq {k : Nat} (few : k ≤ 2 ^ 53) (increase : timeouts.stageTimeoutIncrease ≤ 2 ^ 53)
    (small : timeout timeouts k ≤ 2 ^ 53) :
    Scheduler.getTimeout timeouts k = .finite (timeout timeouts k) := by
  unfold timeout at small ⊢
  rw [Scheduler.getTimeout, ofInt_natCast_of_le few, ofInt_natCast_of_le increase,
    ofInt_natCast_of_le (by omega), finite_mul, ← Int.natCast_mul,
    ofInt_natCast_of_le (by omega), finite_add, ← Int.natCast_add,
    ofInt_natCast_of_le small]

/-- The product of two consecutive numbers is even, and twice a value below `2 ^ 53` is exact. -/
theorem increases_eq {previousRounds half : Nat} (few : previousRounds < 2 ^ 53)
    (increase : timeouts.stageTimeoutIncrease ≤ 2 ^ 53)
    (even : timeouts.stageTimeoutIncrease * previousRounds * (previousRounds + 1) = 2 * half)
    (small : half ≤ 2 ^ 53) : increases timeouts previousRounds = .finite half := by
  have first : timeouts.stageTimeoutIncrease * previousRounds ≤ 2 ^ 53 := by
    cases previousRounds with
    | zero => simp
    | succ p => nlinarith
  have next : ofInt previousRounds + 1 = .finite (previousRounds + 1 : Nat) := by
    show ofInt previousRounds + ofInt (1 : Nat) = _
    rw [ofInt_natCast_of_le few.le, ofInt_natCast_of_le (by norm_num),
      finite_add, ← Int.natCast_add, ofInt_natCast_of_le few]
  simp only [increases]
  rw [next, ofInt_natCast_of_le few.le, ofInt_natCast_of_le increase,
    finite_mul, ← Int.natCast_mul, ofInt_natCast_of_le first, finite_mul,
    ← Int.natCast_mul, even, ofInt_two_mul small, floorHalf]
  congr 1
  omega

/-- The increases are what the sum of the timeouts has beside the fixed parts. -/
theorem exists_increases (timeouts : Timeouts) (round : Nat) :
    ∃ half, timeouts.stageTimeoutIncrease * (round - 1) * (round - 1 + 1) = 2 * half ∧
      ∑ k ∈ range round, timeout timeouts k = round * timeouts.stageTimeout + half := by
  obtain ⟨half, even⟩ := even_mul_succ_self (round - 1)
  have doubled : timeouts.stageTimeoutIncrease * (round - 1) * (round - 1 + 1) =
      2 * (timeouts.stageTimeoutIncrease * half) := by
    rw [mul_assoc, even]
    ring
  refine ⟨timeouts.stageTimeoutIncrease * half, doubled, ?_⟩
  have sum := sum_timeouts timeouts round
  rw [doubled] at sum
  omega

section Exact

variable {getMilestone : Nat → Timeouts} {previousBlock : BlockHeader}
  (timeouts_eq : getMilestone (previousBlock.number + 1) = timeouts)
  (stage : timeouts.stageTimeout < 2 ^ 53) (increase : timeouts.stageTimeoutIncrease < 2 ^ 53)

include timeouts_eq stage increase

theorem calculateMinimalTimestamp_eq (low : round ≤ 100000)
    (small : minimalTimestamp timeouts previousBlock round < 2 ^ 53) :
    calculateMinimalTimestamp getMilestone previousBlock round =
      .ok (.finite (minimalTimestamp timeouts previousBlock round)) := by
  obtain ⟨half, even, total⟩ := exists_increases timeouts round
  have sum : minimalTimestamp timeouts previousBlock round =
      previousBlock.timestamp + timeouts.blockTime + round * timeouts.stageTimeout + half := by
    rw [minimalTimestamp, total, add_assoc _ _ half]
  rw [calculateMinimalTimestamp, if_neg (not_lt.mpr low)]
  dsimp only
  rw [timeouts_eq, zero_max, increases_eq (by omega) increase.le even (by omega), sum]
  rw [sum] at small
  rw [ofInt_natCast_of_le (by omega : previousBlock.timestamp ≤ _),
    ofInt_natCast_of_le (by omega : timeouts.blockTime ≤ _),
    ofInt_natCast_of_le (by omega : round ≤ _), ofInt_natCast_of_le stage.le,
    finite_add, finite_mul, ← Int.natCast_add, ← Int.natCast_mul,
    ofInt_natCast_of_le (by omega), ofInt_natCast_of_le (by omega),
    finite_add, ← Int.natCast_add, ofInt_natCast_of_le (by omega),
    finite_add, ← Int.natCast_add, ofInt_natCast_of_le small.le]

/-- The minimal timestamp of a round is the time of the block after the previous one and the sum of
the scheduler's timeouts of the rounds before, each of them and the sum without a rounding. So it
does not decrease with the round, and the floor has nothing to round. -/
theorem calculateMinimalTimestamp_follows_timeouts (low : round ≤ 100000)
    (small : minimalTimestamp timeouts previousBlock round < 2 ^ 53) :
    calculateMinimalTimestamp getMilestone previousBlock round =
        .ok (.finite (minimalTimestamp timeouts previousBlock round)) ∧
      (∀ k < round, Scheduler.getTimeout timeouts k = .finite (timeout timeouts k)) ∧
      (∀ r ≤ round, ∃ v : Nat, calculateMinimalTimestamp getMilestone previousBlock r =
        .ok (.finite v) ∧ v ≤ minimalTimestamp timeouts previousBlock round) ∧
      ∃ half : Nat, increases timeouts (round - 1) = .finite half ∧
        2 * half = timeouts.stageTimeoutIncrease * (round - 1) * (round - 1 + 1) := by
  refine ⟨calculateMinimalTimestamp_eq timeouts_eq stage increase low small, ?_, ?_, ?_⟩
  · intro k earlier
    have part : timeout timeouts k ≤ ∑ k ∈ range round, timeout timeouts k :=
      timeout_le_sum earlier
    rw [minimalTimestamp] at small
    exact getTimeout_eq (by omega) increase.le (by omega)
  · intro r le
    have below := minimalTimestamp_mono timeouts previousBlock le
    exact ⟨_, calculateMinimalTimestamp_eq timeouts_eq stage increase (le.trans low)
      (below.trans_lt small), below⟩
  · obtain ⟨half, even, total⟩ := exists_increases timeouts round
    rw [minimalTimestamp, total] at small
    exact ⟨half, increases_eq (by omega) increase.le even (by omega), even.symm⟩

end Exact

theorem calculateMinimalTimestamp_follows_timeouts_five :
    calculateMinimalTimestamp (fun _ => ⟨8000, 2000, 3001⟩) ⟨7, [], 1700000000000⟩ 5 =
      .ok (.finite 1700000048010) := by
  have value : minimalTimestamp ⟨8000, 2000, 3001⟩ ⟨7, [], 1700000000000⟩ 5 = 1700000048010 := by
    decide
  have follows : calculateMinimalTimestamp (fun _ => ⟨8000, 2000, 3001⟩) ⟨7, [], 1700000000000⟩ 5 =
      .ok (.finite (minimalTimestamp ⟨8000, 2000, 3001⟩ ⟨7, [], 1700000000000⟩ 5)) :=
    (calculateMinimalTimestamp_follows_timeouts rfl (by decide) (by decide) (by decide)
      (by rw [value]; norm_num)).1
  rw [follows, value]
  rfl

end TimestampCalculator

end Mainsail
