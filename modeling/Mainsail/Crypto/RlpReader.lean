import Mainsail.Foundation.Rlp
import Mainsail.Serializer.ByteBuffer

/-!
# The reader of transaction fields

The RLP reader of `crypto-transaction/source/deserializer.ts`. An offset into the buffer is
the bytes from there on. Lengths are read with JavaScript's `<<` and `|`, which work on 32-bit
signed integers: a length of more than four bytes keeps its last four only.
-/

namespace Mainsail

open Endian Rlp List
open UInt8 (le_iff_toNat_le ofNat toNat_ofNat')

inductive RlpError
  | emptyBuffer
  | truncatedShortList
  | truncatedLengthOfLength
  | leadingZero
  | nonMinimalLongList
  | truncatedLongList
  | notAList
  | outOfBounds
  | truncatedShortString
  | nonMinimalShortString
  | nonMinimalLongString
  | truncatedLongString
  | listInsideItem
  | invalidLengthOfLength
  | truncatedLength
  | trailingBytes
  | tooManyFields
  | tooFewFields
  deriving DecidableEq, Repr

namespace RlpReader

/-- `length = (length << 8) | v`. -/
def shiftIn (length : BitVec 32) (v : UInt8) : BitVec 32 :=
  (length <<< 8) ||| v.toBitVec.setWidth 32

/-- The loop over the bytes of a length. -/
def lengthOf (bytes : Bytes) : Int := (bytes.foldl shiftIn 0#32).toInt

/-- The length and what follows it. -/
def readLength (source : Bytes) (lengthOfLength : Nat) : Except RlpError (Int × Bytes) :=
  if lengthOfLength < 1 ∨ lengthOfLength > 8 then .error .invalidLengthOfLength
  else if lengthOfLength > source.length then .error .truncatedLength
  else if lengthOfLength > 1 ∧ source.headD 0 = 0 then .error .leadingZero
  else .ok (lengthOf (source.take lengthOfLength), source.drop lengthOfLength)

/-- The item at the offset and what follows it. -/
def decodeItem : Bytes → Except RlpError (Bytes × Bytes)
  | [] => .error .outOfBounds
  | p :: rest =>
    if p ≤ 0x7f then .ok ([p], rest)
    else if p ≤ 0xb7 then
      let length := p.toNat - 0x80
      if length > rest.length then .error .truncatedShortString
      else if length = 1 ∧ rest.headD 0 < 0x80 then .error .nonMinimalShortString
      else .ok (rest.take length, rest.drop length)
    else if p ≤ 0xbf then do
      let (length, next) ← readLength rest (p.toNat - 0xb7)
      if length < 56 then .error .nonMinimalLongString
      else if length > next.length then .error .truncatedLongString
      else return (next.take length.toNat, next.drop length.toNat)
    else .error .listInsideItem

/-- Where the payload of the list starts and ends. -/
def decodeListBounds (buffer : Bytes) : Except RlpError (Nat × Nat) :=
  match buffer with
  | [] => .error .emptyBuffer
  | p :: rest =>
    if 0xc0 ≤ p ∧ p ≤ 0xf7 then
      let length := p.toNat - 0xc0
      if 1 + length > buffer.length then .error .truncatedShortList else .ok (1, 1 + length)
    else if 0xf8 ≤ p then
      let lengthOfLength := p.toNat - 0xf7
      if 1 + lengthOfLength > buffer.length then .error .truncatedLengthOfLength
      else if lengthOfLength > 1 ∧ rest.headD 0 = 0 then .error .leadingZero
      else
        let length := lengthOf (rest.take lengthOfLength)
        let start := 1 + lengthOfLength
        if length < 56 then .error .nonMinimalLongList
        else if start + length.toNat > buffer.length then .error .truncatedLongList
        else .ok (start, start + length.toNat)
    else .error .notAList

/-- The loop over the fields, where `more` fields may still be read. It starts with 11: the
check `fields.length > 10` comes before each field. -/
def decodeFields : (more : Nat) → Bytes → Except RlpError (List Bytes)
  | _, [] => .ok []
  | 0, _ :: _ => .error .tooManyFields
  | more + 1, source => do
      let (field, rest) ← decodeItem source
      let fields ← decodeFields more rest
      return field :: fields

/-- The fields of a transaction. The loop ends where the list does, so the check that the
buffer is exhausted after it always holds. -/
def readFields (serialized : Bytes) : Except RlpError (List Bytes) := do
  let (start, stop) ← decodeListBounds serialized
  if stop ≠ serialized.length then .error .trailingBytes
  else
    let fields ← decodeFields 11 (serialized.drop start)
    if fields.length < 9 then .error .tooFewFields else return fields

/-! ## Lengths -/

theorem shiftIn_ofNat (n : Nat) (v : UInt8) :
    shiftIn (BitVec.ofNat 32 n) v = BitVec.ofNat 32 (n * 256 + v.toNat) := by
  have low : v.toNat < 2 ^ 8 := v.toNat_lt
  -- The shifted length ends in eight zero bits, which the byte fills.
  have shifted : (n % 2 ^ 32) <<< 8 % 2 ^ 32 = 2 ^ 8 * (n % 2 ^ 24) := by
    rw [Nat.shiftLeft_eq]
    omega
  apply BitVec.eq_of_toNat_eq
  simp only [shiftIn, BitVec.toNat_or, BitVec.toNat_shiftLeft, BitVec.toNat_ofNat,
    BitVec.toNat_setWidth, UInt8.toNat_toBitVec]
  rw [shifted, Nat.mod_eq_of_lt (show v.toNat < 2 ^ 32 by omega), ← Nat.two_pow_add_eq_or_of_lt low]
  omega

theorem foldl_shiftIn (bytes : Bytes) (n : Nat) : bytes.foldl shiftIn (BitVec.ofNat 32 n) =
      BitVec.ofNat 32 (n * 256 ^ bytes.length + ofBig bytes) := by
  induction bytes generalizing n with
  | nil => simp
  | cons v rest ih =>
    rw [foldl_cons, shiftIn_ofNat, ih, length_cons, ofBig_cons]
    congr 1
    ring

theorem lengthOf_eq (bytes : Bytes) : lengthOf bytes = (BitVec.ofNat 32 (ofBig bytes)).toInt := by
  have fold := foldl_shiftIn bytes 0
  rw [Nat.zero_mul, Nat.zero_add] at fold
  rw [lengthOf, fold]

variable {bytes : Bytes} {n start : Nat}

theorem lengthOf_of_lt (h : ofBig bytes < 2 ^ 31) : lengthOf bytes = ofBig bytes := by
  have value : (BitVec.ofNat 32 (ofBig bytes)).toNat = ofBig bytes := by
    rw [BitVec.toNat_ofNat]
    omega
  rw [lengthOf_eq, BitVec.toInt_eq_toNat_of_lt (by omega), value]

/-- The sign bit makes a length negative. -/
theorem lengthOf_neg (h : 2 ^ 31 ≤ ofBig bytes)
    (h' : ofBig bytes < 2 ^ 32) : lengthOf bytes < 0 := by
  rw [lengthOf_eq, BitVec.toInt_neg_iff, BitVec.toNat_ofNat]
  omega

theorem lengthOf_lt (bytes : Bytes) : lengthOf bytes < 2 ^ 31 := by
  have := BitVec.toInt_lt (x := bytes.foldl shiftIn 0#32)
  simpa [lengthOf] using this

/-! ## Reading what was encoded -/

theorem width_le_four (h : n < 2 ^ 31) : width n ≤ 4 :=
  width_le_iff.mpr (by omega)

theorem width_pos (h : n ≠ 0) : 0 < width n := by
  simp [width, h]

theorem headD_minimal_append (h : n ≠ 0) (rest : Bytes) : (minimal n ++ rest).headD 0 ≠ 0 := by
  have shortest := shortest_minimal n
  have length := length_minimal n
  have positive := width_pos h
  cases shape : minimal n with
  | nil =>
    rw [shape] at length
    simp only [length_nil] at length
    omega
  | cons b bs =>
    rw [Shortest, shape] at shortest
    simpa using shortest

theorem readLength_minimal (h : n ≠ 0) (h' : n < 2 ^ 31) (rest : Bytes) :
    readLength (minimal n ++ rest) (width n) = .ok ((n : Int), rest) := by
  have positive := width_pos h
  have narrow := width_le_four h'
  have length := length_minimal n
  unfold readLength
  rw [if_neg (by omega), if_neg (by rw [length_append]; omega),
    if_neg (fun zero => headD_minimal_append h rest zero.2), ← length, take_left,
    drop_left, lengthOf_of_lt (by rwa [ofBig_minimal]), ofBig_minimal]

theorem not_le_of_toNat {p q : UInt8} (h : q.toNat < p.toNat) : ¬p ≤ q := by
  rw [le_iff_toNat_le]
  omega

theorem decodeItem_string {bs : Bytes} (h : bs.length < 2 ^ 31) (rest : Bytes) :
    decodeItem (string bs ++ rest) = .ok (bs, rest) := by
  unfold string
  split
  · next plain =>
      obtain ⟨b, rfl⟩ := length_eq_one_iff.mp plain.1
      have small : b ≤ 0x7f := by
        have := plain.2
        simp only [headD_cons, UInt8.lt_iff_toNat_lt] at this
        rw [le_iff_toNat_le]
        exact Nat.le_of_lt_succ this
      simp [decodeItem, small]
  · next notPlain =>
      by_cases short : bs.length ≤ 55
      · have first : (ofNat (0x80 + bs.length)).toNat = 0x80 + bs.length := by
          rw [toNat_ofNat']
          omega
        have low : ¬ofNat (0x80 + bs.length) ≤ 0x7f :=
          not_le_of_toNat (by rw [first]; exact Nat.lt_add_right _ (by decide))
        have high : ofNat (0x80 + bs.length) ≤ 0xb7 := by
          rw [le_iff_toNat_le, first]
          exact Nat.add_le_add_left short 0x80
        have minimal : ¬(bs.length = 1 ∧ (bs ++ rest).headD 0 < 0x80) := by
          rintro ⟨one, plain⟩
          obtain ⟨b, rfl⟩ := length_eq_one_iff.mp one
          exact notPlain ⟨one, plain⟩
        rw [header_short short, append_assoc, singleton_append, decodeItem,
          if_neg low, if_pos high, first, Nat.add_sub_cancel_left]
        simp only [minimal, if_false, length_append, take_left, drop_left]
        rw [if_neg (by omega)]
      · have long : 55 < bs.length := by omega
        have narrow := width_le_four h
        have nonzero : bs.length ≠ 0 := by omega
        have positive := width_pos nonzero
        have first : (ofNat (0x80 + 55 + width bs.length)).toNat = 0xb7 + width bs.length := by
          rw [toNat_ofNat']
          omega
        have low : ¬ofNat (0x80 + 55 + width bs.length) ≤ 0x7f :=
          not_le_of_toNat (by rw [first]; exact Nat.lt_add_right _ (by decide))
        have middle : ¬ofNat (0x80 + 55 + width bs.length) ≤ 0xb7 :=
          not_le_of_toNat (by rw [first]; exact Nat.lt_add_of_pos_right positive)
        have high : ofNat (0x80 + 55 + width bs.length) ≤ 0xbf := by
          rw [le_iff_toNat_le, first]
          exact (Nat.add_le_add_left narrow 0xb7).trans (by decide)
        rw [header_long long, append_assoc, cons_append, decodeItem, if_neg low,
          if_neg middle, if_pos high, first, Nat.add_sub_cancel_left,
          readLength_minimal nonzero h]
        simp only [bind, Except.bind, pure, Except.pure, length_append, Int.toNat_natCast,
          take_left, drop_left]
        rw [if_neg (by omega), if_neg (by omega)]

variable {items : List Bytes}

/-- The loop reads back the items, if they are not too many. -/
theorem decodeFields_flatMap {more : Nat} (few : items.length ≤ more)
    (small : ∀ bs ∈ items, bs.length < 2 ^ 31) :
    decodeFields more (items.flatMap string) = .ok items := by
  induction items generalizing more with
  | nil => simp [decodeFields]
  | cons bs items ih =>
    obtain ⟨head, tail⟩ := forall_mem_cons.mp small
    cases more with
    | zero => simp at few
    | succ more =>
      have others := ih (Nat.le_of_succ_le_succ few) tail
      have item := decodeItem_string head (items.flatMap string)
      obtain ⟨b, rest, shape⟩ := exists_cons_of_ne_nil
        (append_ne_nil_of_left_ne_nil (string_ne_nil bs) (items.flatMap string))
      rw [flatMap_cons, shape, decodeFields, ← shape, item]
      · simp [bind, Except.bind, pure, Except.pure, others]
      · simp

/-- However long a list is, its end is read as a 32-bit length. -/
theorem stop_lt_of_decodeListBounds {buffer : Bytes} {stop : Nat}
    (h : decodeListBounds buffer = .ok (start, stop)) : stop < 2 ^ 31 + 9 := by
  cases buffer with
  | nil => simp [decodeListBounds] at h
  | cons p rest =>
    have byte := p.toNat_lt
    have bound := lengthOf_lt (rest.take (p.toNat - 0xf7))
    simp only [decodeListBounds] at h
    split at h
    · split at h
      · simp at h
      · simp only [Except.ok.injEq, Prod.mk.injEq] at h
        omega
    · split at h
      · repeat' split at h
        all_goals simp only [Except.ok.injEq, Prod.mk.injEq, reduceCtorEq] at h
        omega
      · simp at h

/-- The first byte of a long list. -/
theorem toNat_longList (h : n < 2 ^ 32) : (ofNat (0xc0 + 55 + width n)).toNat = 0xf7 + width n := by
  have narrow : width n ≤ 4 := width_le_iff.mpr (by omega)
  rw [toNat_ofNat']
  omega

/-- The bounds of a long list, up to the checks of the length that was read. -/
theorem decodeListBounds_long {payload : Bytes} (long : 55 < payload.length)
    (fits : payload.length < 2 ^ 32) :
    decodeListBounds (header 0xc0 payload.length ++ payload) =
      let length := lengthOf (minimal payload.length)
      let start := 1 + width payload.length
      if length < 56 then .error .nonMinimalLongList
      else if start + length.toNat > start + payload.length then .error .truncatedLongList
      else .ok (start, start + length.toNat) := by
  have positive : 0 < width payload.length := width_pos (by omega)
  have first := toNat_longList fits
  have low : 0xf8 ≤ ofNat (0xc0 + 55 + width payload.length) := by
    rw [le_iff_toNat_le, first]
    exact Nat.add_le_add_left positive 0xf7
  have high : ¬ofNat (0xc0 + 55 + width payload.length) ≤ 0xf7 :=
    not_le_of_toNat (by rw [first]; exact Nat.lt_add_of_pos_right positive)
  have taken : (minimal payload.length ++ payload).take (width payload.length) =
      minimal payload.length := by
    rw [← length_minimal, take_left]
  have size : (ofNat (0xc0 + 55 + width payload.length) ::
      (minimal payload.length ++ payload)).length = 1 + width payload.length + payload.length := by
    rw [length_cons, length_append, length_minimal]
    omega
  have leading : ¬(width payload.length > 1 ∧ (minimal payload.length ++ payload).headD 0 = 0) :=
    fun zero => headD_minimal_append (by omega) payload zero.2
  rw [header_long long, cons_append]
  simp only [decodeListBounds, low, high, and_false, if_false, if_true, first,
    Nat.add_sub_cancel_left, taken, size, leading]
  rw [if_neg (by omega)]

/-- The list that was encoded is found. -/
theorem decodeListBounds_list (h : (items.flatMap string).length < 2 ^ 31) :
    decodeListBounds (list items) =
      .ok ((header 0xc0 (items.flatMap string).length).length,
        (list items).length) := by
  unfold list
  generalize items.flatMap string = payload at h
  by_cases short : payload.length ≤ 55
  · have first : (ofNat (0xc0 + payload.length)).toNat = 0xc0 + payload.length := by
      rw [toNat_ofNat']
      omega
    have low : 0xc0 ≤ ofNat (0xc0 + payload.length) := by
      rw [le_iff_toNat_le, first]
      exact Nat.le_add_right 0xc0 _
    have high : ofNat (0xc0 + payload.length) ≤ 0xf7 := by
      rw [le_iff_toNat_le, first]
      exact Nat.add_le_add_left short 0xc0
    rw [header_short short, singleton_append]
    simp only [decodeListBounds, low, high, and_self, if_true, first, Nat.add_sub_cancel_left,
      length_cons, length_nil]
    rw [if_neg (by omega), Nat.add_comm 1, Nat.zero_add]
  · have long : 55 < payload.length := by omega
    have value : lengthOf (minimal payload.length) = payload.length := by
      rw [lengthOf_of_lt (by rwa [ofBig_minimal]), ofBig_minimal]
    have header : (header 0xc0 payload.length).length = 1 + width payload.length := by
      rw [header_long long, length_cons, length_minimal, Nat.add_comm]
    rw [decodeListBounds_long long (by omega), length_append, header]
    simp only [value, Int.toNat_natCast]
    rw [if_neg (by omega), if_neg (by omega)]

/-- A length with the sign bit set would be negative. -/
theorem payload_lt_of_decodeListBounds
    (h : decodeListBounds (list items) = .ok (start, (list items).length)) :
    (items.flatMap string).length < 2 ^ 31 := by
  have stop := stop_lt_of_decodeListBounds h
  unfold list at h stop
  generalize items.flatMap string = payload at h stop
  rw [length_append] at stop
  by_contra large
  have negative := @lengthOf_neg (minimal payload.length)
    (by rw [ofBig_minimal]; omega) (by rw [ofBig_minimal]; omega)
  rw [decodeListBounds_long (by omega) (by omega)] at h
  simp only at h
  rw [if_pos (by omega)] at h
  cases h

theorem drop_header (items : List Bytes) :
    (list items).drop (header 0xc0 (items.flatMap string).length).length = items.flatMap string :=
  drop_left

/-- Fields that were encoded are read back, if they are as many as a transaction has. -/
theorem readFields_list_of_lt (many : 9 ≤ items.length) (few : items.length ≤ 11)
    (h : (items.flatMap string).length < 2 ^ 31) : readFields (list items) = .ok items := by
  have small : ∀ bs ∈ items, bs.length < 2 ^ 31 :=
    fun bs member => (length_le_of_mem member).trans_lt h
  rw [readFields, decodeListBounds_list h]
  simp only [bind, Except.bind, pure, Except.pure, ne_eq, not_true_eq_false, if_false, drop_header,
    decodeFields_flatMap few small]
  rw [if_neg (by omega)]

/-- Fields that were encoded are read back from accepted bytes. -/
theorem readFields_list {items fields : List Bytes} (h : readFields (list items) = .ok fields)
    (few : items.length ≤ 11) : fields = items := by
  obtain ⟨⟨start, stop⟩, bounds, h⟩ := Except.bind_eq_ok.mp h
  simp only at h
  split at h
  · cases h
  · next whole =>
      rw [not_not] at whole
      rw [whole] at bounds
      have small := payload_lt_of_decodeListBounds bounds
      rw [decodeListBounds_list small] at bounds
      obtain ⟨rfl, -⟩ := Prod.mk.inj (Except.ok.inj bounds)
      rw [drop_header, decodeFields_flatMap few fun bs member =>
        (length_le_of_mem member).trans_lt small] at h
      simp only [bind, Except.bind, pure, Except.pure] at h
      split at h
      · cases h
      · exact (Except.ok.inj h).symm

end RlpReader

end Mainsail
