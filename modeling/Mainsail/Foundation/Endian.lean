import Mathlib.Data.Nat.Log
import Mathlib.Tactic.Ring

/-!
# Numbers as bytes

Fixed-width little-endian and big-endian bytes of a natural number, and its shortest
big-endian form, which has no leading zero byte and is empty for zero.
-/

namespace Endian

open List Nat

/-! ## Little-endian -/

/-- The `width` low bytes of `n`, the lowest first. -/
def little : Nat → Nat → List UInt8
  | 0, _ => []
  | width + 1, n => UInt8.ofNat n :: little width (n / 256)

def ofLittle : List UInt8 → Nat
  | [] => 0
  | b :: bs => b.toNat + 256 * ofLittle bs

@[simp] theorem length_little (width n : Nat) : (little width n).length = width := by
  induction width generalizing n with
  | zero => rfl
  | succ width ih => simp [little, ih]

theorem ofLittle_little {width n : Nat} (h : n < 256 ^ width) : ofLittle (little width n) = n := by
  induction width generalizing n with
  | zero =>
    have : n = 0 := by simpa using h
    simp [little, ofLittle, this]
  | succ width ih =>
    have high : n / 256 < 256 ^ width := by
      rw [Nat.pow_succ] at h
      exact Nat.div_lt_of_lt_mul (by rwa [Nat.mul_comm])
    simp only [little, ofLittle, ih high, UInt8.toNat_ofNat']
    omega

theorem ofLittle_lt (bs : List UInt8) : ofLittle bs < 256 ^ bs.length := by
  induction bs with
  | nil => simp [ofLittle]
  | cons b bs ih =>
    have := b.toNat_lt
    rw [ofLittle, length_cons, pow_succ]
    omega

theorem little_ofLittle (bs : List UInt8) : little bs.length (ofLittle bs) = bs := by
  induction bs with
  | nil => rfl
  | cons b bs ih =>
    have low := b.toNat_lt
    have quotient : (b.toNat + 256 * ofLittle bs) / 256 = ofLittle bs := by omega
    have byte : UInt8.ofNat (b.toNat + 256 * ofLittle bs) = b := by
      rw [← UInt8.toNat_inj, UInt8.toNat_ofNat']
      omega
    rw [length_cons, ofLittle, little, quotient, ih, byte]

theorem ofLittle_append (bs cs : List UInt8) :
    ofLittle (bs ++ cs) = ofLittle bs + 256 ^ bs.length * ofLittle cs := by
  induction bs with
  | nil => simp [ofLittle]
  | cons b bs ih =>
    rw [cons_append, ofLittle, ofLittle, ih, length_cons, pow_succ]
    ring

/-! ## Big-endian -/

/-- The `width` low bytes of `n`, the highest first. -/
def big (width n : Nat) : List UInt8 := (little width n).reverse

def ofBig (bs : List UInt8) : Nat := ofLittle bs.reverse

@[simp] theorem length_big (width n : Nat) : (big width n).length = width := by
  simp [big]

theorem ofBig_big {width n : Nat} (h : n < 256 ^ width) : ofBig (big width n) = n := by
  rw [ofBig, big, reverse_reverse, ofLittle_little h]

theorem ofBig_lt (bs : List UInt8) : ofBig bs < 256 ^ bs.length := by
  simpa [ofBig] using ofLittle_lt bs.reverse

theorem big_ofBig (bs : List UInt8) : big bs.length (ofBig bs) = bs := by
  have := little_ofLittle bs.reverse
  rw [length_reverse] at this
  rw [big, ofBig, this, reverse_reverse]

@[simp] theorem ofBig_nil : ofBig [] = 0 := rfl

theorem ofBig_cons (b : UInt8) (bs : List UInt8) :
    ofBig (b :: bs) = b.toNat * 256 ^ bs.length + ofBig bs := by
  simp only [ofBig, reverse_cons, ofLittle_append, ofLittle, length_reverse]
  ring

theorem ofBig_append (bs cs : List UInt8) :
    ofBig (bs ++ cs) = ofBig bs * 256 ^ cs.length + ofBig cs := by
  simp only [ofBig, reverse_append, ofLittle_append, length_reverse]
  ring

@[simp] theorem ofBig_replicate_zero (n : Nat) : ofBig (replicate n 0) = 0 := by
  induction n with
  | zero => rfl
  | succ n ih => simp [replicate_succ, ofBig_cons, ih]

/-! ## The shortest form -/

/-- How many bytes `n` needs. -/
def width (n : Nat) : Nat := if n = 0 then 0 else log 256 n + 1

/-- The big-endian bytes of `n` without leading zeros. -/
def minimal (n : Nat) : List UInt8 := big (width n) n

/-- No leading zero byte. -/
def Shortest (bs : List UInt8) : Prop := bs.head? ≠ some 0

instance (bs : List UInt8) : Decidable (Shortest bs) := inferInstanceAs (Decidable (_ ≠ _))

theorem lt_pow_width (n : Nat) : n < 256 ^ width n := by
  unfold width
  split
  · next zero => simp [zero]
  · exact lt_pow_succ_log_self (by omega) n

theorem pow_le_of_width_ne_zero {n : Nat} (h : n ≠ 0) : 256 ^ (width n - 1) ≤ n := by
  simp only [width, h, if_false, Nat.add_sub_cancel]
  exact pow_log_le_self 256 h

theorem width_le_iff {n w : Nat} : width n ≤ w ↔ n < 256 ^ w := by
  constructor
  · intro le
    exact (lt_pow_width n).trans_le (Nat.pow_le_pow_right (by omega) le)
  · intro lt
    by_cases zero : n = 0
    · simp [width, zero]
    · have := (Nat.pow_lt_pow_iff_right (by omega)).mp ((pow_le_of_width_ne_zero zero).trans_lt lt)
      omega

@[simp] theorem ofBig_minimal (n : Nat) : ofBig (minimal n) = n :=
  ofBig_big (lt_pow_width n)

@[simp] theorem length_minimal (n : Nat) : (minimal n).length = width n := length_big _ _

/-- A number with a leading byte that is not zero needs all its bytes. -/
theorem width_ofBig {bs : List UInt8} (h : Shortest bs) : width (ofBig bs) = bs.length := by
  cases bs with
  | nil => simp [width]
  | cons b bs =>
    have positive : 0 < b.toNat := by
      rcases Nat.eq_zero_or_pos b.toNat with zero | positive
      · exact absurd (congrArg some (UInt8.toNat_inj.mp zero)) h
      · exact positive
    have lower : 256 ^ bs.length ≤ ofBig (b :: bs) := by
      rw [ofBig_cons]
      exact Nat.le_add_right_of_le (Nat.le_mul_of_pos_left _ positive)
    have nonzero : ofBig (b :: bs) ≠ 0 := by
      have := Nat.pow_pos (n := bs.length) (show 0 < 256 by omega)
      omega
    have upper := ofBig_lt (b :: bs)
    simp only [width, nonzero, if_false, length_cons, add_right_cancel_iff]
    exact log_eq_of_pow_le_of_lt_pow lower upper

theorem minimal_ofBig {bs : List UInt8} (h : Shortest bs) : minimal (ofBig bs) = bs := by
  rw [minimal, width_ofBig h, big_ofBig]

theorem shortest_minimal (n : Nat) : Shortest (minimal n) := by
  intro leading
  obtain ⟨bs, split⟩ : ∃ bs, minimal n = 0 :: bs := by
    cases shape : minimal n with
    | nil => simp [shape] at leading
    | cons b bs =>
      rw [shape, head?_cons, Option.some.injEq] at leading
      exact ⟨bs, by rw [leading]⟩
  have nonzero : n ≠ 0 := by
    rintro rfl
    simp [minimal, width, big, little] at split
  have value : ofBig bs = n := by
    have := ofBig_minimal n
    rw [split, ofBig_cons] at this
    simpa using this
  have short : bs.length = width n - 1 := by
    have := congrArg length split
    simp only [length_minimal, length_cons] at this
    omega
  have := ofBig_lt bs
  have := pow_le_of_width_ne_zero nonzero
  rw [short, value] at *
  omega

end Endian
