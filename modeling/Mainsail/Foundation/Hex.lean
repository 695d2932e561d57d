/-!
# Hexadecimal texts

A byte is written as two lower-case digits. A reader takes digits of either case, and an odd
number of them as if a zero stood in front. So exactly the texts of an even number of
lower-case digits are written again as they were read.
-/

namespace Hex

open List

def digits : List Char := "0123456789abcdef".toList

def digit (n : Nat) : Char := digits.getD n '0'

/-- The value of a digit of either case. -/
def value (c : Char) : Option Nat :=
  let n := c.toNat
  if 48 ≤ n ∧ n ≤ 57 then some (n - 48)
  else if 97 ≤ n ∧ n ≤ 102 then some (n - 87)
  else if 65 ≤ n ∧ n ≤ 70 then some (n - 55)
  else none

def encode (bs : List UInt8) : List Char :=
  bs.flatMap fun b => [digit (b.toNat / 16), digit (b.toNat % 16)]

def decodePairs : List Char → Option (List UInt8)
  | [] => some []
  | [_] => none
  | high :: low :: rest => do
      let high ← value high
      let low ← value low
      let bs ← decodePairs rest
      return UInt8.ofNat (high * 16 + low) :: bs

def decode (text : List Char) : Option (List UInt8) :=
  if text.length % 2 = 0 then decodePairs text else decodePairs ('0' :: text)

/-- An even number of lower-case digits. -/
def Canonical (text : List Char) : Prop := text.length % 2 = 0 ∧ ∀ c ∈ text, c ∈ digits

instance (text : List Char) : Decidable (Canonical text) :=
  @instDecidableAnd _ _ inferInstance (decidableBAll _ text)

theorem encode_cons (b : UInt8) (bs : List UInt8) :
    encode (b :: bs) = digit (b.toNat / 16) :: digit (b.toNat % 16) :: encode bs := rfl

theorem length_encode (bs : List UInt8) : (encode bs).length = 2 * bs.length := by
  induction bs with
  | nil => rfl
  | cons b bs ih =>
    rw [encode_cons, length_cons, length_cons, ih, length_cons]
    omega

theorem digit_mem {n : Nat} (h : n < 16) : digit n ∈ digits := by
  have all : ∀ n < 16, digit n ∈ digits := by decide
  exact all n h

theorem value_digit {n : Nat} (h : n < 16) : value (digit n) = some n := by
  have all : ∀ n < 16, value (digit n) = some n := by decide
  exact all n h

theorem exists_digit {c : Char} (h : c ∈ digits) : ∃ n < 16, digit n = c := by
  obtain ⟨n, bound, rfl⟩ := mem_iff_getElem.mp h
  exact ⟨n, bound, by rw [digit, getD_eq_getElem?_getD, getElem?_eq_getElem bound, Option.getD_some]⟩

theorem canonical_encode (bs : List UInt8) : Canonical (encode bs) := by
  refine ⟨by rw [length_encode]; omega, ?_⟩
  intro c member
  obtain ⟨b, -, member⟩ := mem_flatMap.mp member
  have := b.toNat_lt
  obtain rfl | rfl : c = digit (b.toNat / 16) ∨ c = digit (b.toNat % 16) := by simpa using member
  · exact digit_mem (by omega)
  · exact digit_mem (by omega)

theorem decodePairs_encode (bs : List UInt8) : decodePairs (encode bs) = some bs := by
  induction bs with
  | nil => rfl
  | cons b bs ih =>
    have := b.toNat_lt
    have whole : b.toNat / 16 * 16 + b.toNat % 16 = b.toNat := by omega
    rw [encode_cons, decodePairs, value_digit (by omega), value_digit (by omega), ih]
    show some (UInt8.ofNat (b.toNat / 16 * 16 + b.toNat % 16) :: bs) = some (b :: bs)
    rw [whole, UInt8.ofNat_toNat]

theorem decode_encode (bs : List UInt8) : decode (encode bs) = some bs := by
  rw [decode, if_pos (canonical_encode bs).1, decodePairs_encode]

theorem exists_encode {text : List Char} (h : Canonical text) : ∃ bs, encode bs = text := by
  induction text using decodePairs.induct with
  | case1 => exact ⟨[], rfl⟩
  | case2 c => exact absurd h.1 (by simp)
  | case3 high low rest ih =>
    obtain ⟨even, lower⟩ := h
    simp only [forall_mem_cons] at lower
    obtain ⟨i, small, rfl⟩ := exists_digit lower.1
    obtain ⟨j, small', rfl⟩ := exists_digit lower.2.1
    have shorter : rest.length % 2 = 0 := by
      simp only [length_cons] at even
      omega
    obtain ⟨bs, rfl⟩ := ih ⟨shorter, lower.2.2⟩
    have byte : (UInt8.ofNat (i * 16 + j)).toNat = i * 16 + j := by
      rw [UInt8.toNat_ofNat']
      omega
    refine ⟨UInt8.ofNat (i * 16 + j) :: bs, ?_⟩
    rw [encode_cons, byte, show (i * 16 + j) / 16 = i by omega, show (i * 16 + j) % 16 = j by omega]

end Hex
