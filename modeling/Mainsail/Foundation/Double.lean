import Mathlib.Tactic.Linarith

/-!
# Integers as doubles

The integral values of a 64-bit floating-point number, with the operations rounded to nearest,
ties to even. An integer up to `2 ^ 53` is exact. The infinities and NaN are one value
here: the operations below do not lead back from them.
-/

namespace Double

open Nat

/-- The nearest natural number of 53 significant bits. -/
def round (n : Nat) : Nat :=
  if n ≤ 2 ^ 53 then n
  else
    let e := n.log2 - 52
    let q := n / 2 ^ e
    let r := 2 * (n % 2 ^ e)
    if r > 2 ^ e ∨ r = 2 ^ e ∧ q % 2 = 1 then (q + 1) * 2 ^ e else q * 2 ^ e

variable {n : Nat}

theorem round_of_le (h : n ≤ 2 ^ 53) : round n = n := if_pos h

/-- Even numbers are exact twice as far. -/
theorem round_two_mul (h : n ≤ 2 ^ 53) : round (2 * n) = 2 * n := by
  unfold round
  split
  · rfl
  · next large =>
    have nonzero : 2 * n ≠ 0 := by omega
    have low : 53 ≤ (2 * n).log2 := (le_log2 nonzero).mpr (by omega)
    have high : (2 * n).log2 < 55 := (log2_lt nonzero).mpr (by omega)
    obtain exponent | exponent : (2 * n).log2 - 52 = 1 ∨ (2 * n).log2 - 52 = 2 := by omega
    · simp only [exponent]
      split <;> omega
    · have bound : 2 ^ 54 ≤ 2 * n := (le_log2 nonzero).mp (by omega)
      simp only [exponent]
      split <;> omega

/-- Rounding does not lead below the exact integers. -/
theorem le_round (h : 2 ^ 53 ≤ n) : 2 ^ 53 ≤ round n := by
  unfold round
  split
  · exact h
  · have nonzero : n ≠ 0 := by omega
    have bits : 53 ≤ n.log2 := (le_log2 nonzero).mpr h
    have exponent : 52 + (n.log2 - 52) = n.log2 := by omega
    have floor : 2 ^ 52 ≤ n / 2 ^ (n.log2 - 52) := by
      rw [Nat.le_div_iff_mul_le (Nat.two_pow_pos _), ← Nat.pow_add, exponent]
      exact Nat.log2_self_le nonzero
    have shifted : 2 ^ 53 ≤ n / 2 ^ (n.log2 - 52) * 2 ^ (n.log2 - 52) :=
      calc 2 ^ 53 ≤ 2 ^ n.log2 := Nat.pow_le_pow_right (by decide) bits
        _ = 2 ^ 52 * 2 ^ (n.log2 - 52) := by rw [← Nat.pow_add, exponent]
        _ ≤ _ := Nat.mul_le_mul_right _ floor
    dsimp only
    split
    · exact shifted.trans (mul_le_mul_right _ (le_succ _))
    · exact shifted

end Double

/-- An integral double, or one that is not finite. -/
inductive Double
  | finite (z : Int)
  | infinite
  deriving DecidableEq, Repr

namespace Double

def ofInt (z : Int) : Double :=
  if (round z.natAbs).log2 < 1024 then .finite (z.sign * round z.natAbs) else .infinite

/-- The operation on the exact values, rounded. -/
def lift (op : Int → Int → Int) : Double → Double → Double
  | .finite x, .finite y => ofInt (op x y)
  | _, _ => .infinite

instance : Add Double := ⟨lift (· + ·)⟩

instance : Sub Double := ⟨lift (· - ·)⟩

instance : Mul Double := ⟨lift (· * ·)⟩

instance (n : Nat) : OfNat Double n := ⟨ofInt n⟩

/-- `Math.floor(x / 2)`: halving is exact. -/
def floorHalf : Double → Double
  | .finite x => .finite (x / 2)
  | .infinite => .infinite

/-- The natural number that a double is, if it is one. -/
def toBigInt : Double → Option Nat
  | .finite (.ofNat n) => some n
  | _ => none

theorem finite_add (x y : Int) : finite x + finite y = ofInt (x + y) := rfl

theorem finite_sub (x y : Int) : finite x - finite y = ofInt (x - y) := rfl

variable {z m : Int} {x y : Double}

theorem ofInt_of_le (h : z.natAbs ≤ 2 ^ 53) : ofInt z = .finite z := by
  have small : z.natAbs.log2 < 1024 := by
    by_contra large
    have nonzero : z.natAbs ≠ 0 := by
      intro zero
      simp [zero] at large
    have := (Nat.le_log2 nonzero).mp (show 54 ≤ z.natAbs.log2 by omega)
    omega
  rw [ofInt, round_of_le h, if_pos small, Int.sign_mul_natAbs]

theorem finite_mul (x y : Int) : finite x * finite y = ofInt (x * y) := rfl

theorem ofInt_natCast_of_le {n : Nat} (h : n ≤ 2 ^ 53) : ofInt n = .finite n :=
  ofInt_of_le (by rwa [Int.natAbs_natCast])

/-- Even numbers are exact twice as far. -/
theorem ofInt_two_mul {n : Nat} (h : n ≤ 2 ^ 53) : ofInt (2 * n : Nat) = .finite (2 * n : Nat) := by
  have small : (2 * n).log2 < 1024 := by
    by_contra large
    have nonzero : 2 * n ≠ 0 := by
      intro zero
      simp [zero] at large
    have := (Nat.le_log2 nonzero).mp (show 55 ≤ (2 * n).log2 by omega)
    omega
  rw [ofInt, Int.natAbs_natCast, round_two_mul h, if_pos small]
  congr 1
  cases n with
  | zero => rfl
  | succ n => rw [Int.sign_natCast_of_ne_zero (by omega), Int.one_mul]

/-- A result below `2 ^ 53` was not rounded. -/
theorem eq_of_ofInt (h : ofInt z = .finite m) (small : m.natAbs < 2 ^ 53) : z = m := by
  by_cases exact' : z.natAbs ≤ 2 ^ 53
  · rw [ofInt_of_le exact'] at h
    exact Double.finite.inj h
  · have nonzero : z ≠ 0 := by
      rintro rfl
      simp at exact'
    have large := le_round (Nat.le_of_not_le exact')
    unfold ofInt at h
    split at h
    · rw [← Double.finite.inj h, Int.natAbs_mul, Int.natAbs_sign_of_ne_zero nonzero, Nat.one_mul,
        Int.natAbs_natCast] at small
      omega
    · cases h

theorem eq_of_add (h : x + y = .finite m) (small : m.natAbs < 2 ^ 53) :
    ∃ a b, x = .finite a ∧ y = .finite b ∧ a + b = m := by
  cases x <;> cases y
  case finite.finite a b =>
    rw [finite_add] at h
    exact ⟨a, b, rfl, rfl, eq_of_ofInt h small⟩
  all_goals cases h

theorem eq_of_sub (h : x - y = .finite m) (small : m.natAbs < 2 ^ 53) :
    ∃ a b, x = .finite a ∧ y = .finite b ∧ a - b = m := by
  cases x <;> cases y
  case finite.finite a b =>
    rw [finite_sub] at h
    exact ⟨a, b, rfl, rfl, eq_of_ofInt h small⟩
  all_goals cases h

end Double
