import Mainsail.Foundation.Endian

/-!
# Recursive length prefix

The encoding of byte strings, and of flat lists of byte strings. A length up to 55 is part of
the first byte; a longer one follows it in its shortest form. A single byte below `0x80` stands
for itself.
-/

namespace Rlp

open Endian List

/-- The bytes before a payload of length `n`. -/
def header (base n : Nat) : List UInt8 :=
  if n ≤ 55 then [UInt8.ofNat (base + n)]
  else UInt8.ofNat (base + 55 + width n) :: minimal n

/-- The byte strings that stand for themselves. -/
def Plain (bs : List UInt8) : Prop := bs.length = 1 ∧ bs.headD 0 < 0x80

instance (bs : List UInt8) : Decidable (Plain bs) := inferInstanceAs (Decidable (_ ∧ _))

def string (bs : List UInt8) : List UInt8 :=
  if Plain bs then bs else header 0x80 bs.length ++ bs

def list (items : List (List UInt8)) : List UInt8 :=
  header 0xc0 (items.flatMap string).length ++ items.flatMap string

variable {items : List (List UInt8)} {base n w : Nat} {bs : List UInt8}

theorem header_short (h : n ≤ 55) : header base n = [UInt8.ofNat (base + n)] :=
  if_pos h

theorem header_long (h : 55 < n) : header base n = UInt8.ofNat (base + 55 + width n) :: minimal n :=
  if_neg (Nat.not_le.mpr h)

theorem header_ne_nil (base n : Nat) : header base n ≠ [] := by
  unfold header
  split <;> simp

theorem string_ne_nil (bs : List UInt8) : string bs ≠ [] := by
  unfold string
  split
  · next plain =>
      rintro rfl
      simp [Plain] at plain
  · exact append_ne_nil_of_left_ne_nil (header_ne_nil _ _) _

theorem length_le_length_string (bs : List UInt8) : bs.length ≤ (string bs).length := by
  unfold string
  split
  · exact le_rfl
  · rw [length_append]
    omega

theorem length_string_le (h : bs.length < 256 ^ w) : (string bs).length ≤ bs.length + 1 + w := by
  have narrow : width bs.length ≤ w := width_le_iff.mpr h
  unfold string
  split
  · omega
  · unfold header
    split
    · rw [length_append, length_singleton]
      omega
    · rw [length_append, length_cons, length_minimal]
      omega

theorem length_flatMap_string_le (h : n < 256 ^ w) (bounded : ∀ bs ∈ items, bs.length ≤ n) :
    (items.flatMap string).length ≤ items.length * (n + 1 + w) := by
  induction items with
  | nil => simp
  | cons bs items ih =>
    obtain ⟨head, tail⟩ := forall_mem_cons.mp bounded
    have first := length_string_le (head.trans_lt h)
    have others := ih tail
    rw [flatMap_cons, length_append, length_cons, Nat.succ_mul]
    omega

/-- An item is no longer than the payload it is in. -/
theorem length_le_of_mem (h : bs ∈ items) : bs.length ≤ (items.flatMap string).length := by
  obtain ⟨before, after, rfl⟩ := append_of_mem h
  have := length_le_length_string bs
  simp only [flatMap_append, flatMap_cons, length_append]
  omega

end Rlp
