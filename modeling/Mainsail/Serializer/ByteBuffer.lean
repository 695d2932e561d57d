import Mainsail.Foundation.Codec
import Mathlib.Data.Nat.Bitwise

/-!
# Byte buffers

`byte-buffer.ts` and `validator-set-pack.ts`. A buffer that is written has a fixed size and
the bytes written so far; one that is read is the bytes that remain. `mark`, `reset`, `skip`
and `readHex` are left out: no serializer uses them.
-/

namespace Mainsail

open Endian Except Nat List

abbrev Bytes := List UInt8

instance instLawfulBEqBytes : LawfulBEq Bytes := inferInstance

/-- `Number.MAX_SAFE_INTEGER`. -/
def maxSafeInteger : Nat := 2 ^ 53 - 1

inductive BufferError
  | notSafeInteger
  | outOfRange (bounds : String) (value : Nat)
  | exceedsUint256
  | writeOver (length remaining : Nat)
  | readOver (length remaining : Nat)
  /-- Thrown by `Buffer` itself. -/
  | outOfBounds
  | invalidFlag (flag : UInt8)
  | bitsBeyond
  deriving DecidableEq, Repr

/-- The message of the thrown error. -/
def BufferError.message : BufferError → String
  | .notSafeInteger => "value must be a safe integer"
  | .outOfRange bounds value =>
    "The value of \"value\" is out of range. It must be " ++ bounds ++ ". Received " ++ toString value
  | .exceedsUint256 => "value must fit into uint256"
  | .writeOver length remaining =>
    "Write over buffer boundary. (length: " ++ toString length ++ ", remaining: " ++
      toString remaining ++ ", diff: " ++ toString (length - remaining) ++ ")"
  | .readOver length remaining =>
    "Read over buffer boundary. (length: " ++ toString length ++ ", remaining: " ++
      toString remaining ++ ", diff: " ++ toString (length - remaining) ++ ")"
  | .outOfBounds => "Attempt to access memory outside buffer bounds"
  | .invalidFlag flag =>
    "Invalid optional presence flag: expected 0 or 1, got " ++ toString flag
  | .bitsBeyond => "`packed` contains set bits beyond `numberOfValidators`"

/-! ## Writing -/

/-- A buffer under construction. -/
@[ext] structure ByteBuffer where
  size : Nat
  written : Bytes
  fits : written.length ≤ size

namespace ByteBuffer

def fromSize (size : Nat) : ByteBuffer := ⟨size, [], zero_le _⟩

def getRemainderLength (b : ByteBuffer) : Nat := b.size - b.written.length

/-- Copy bytes to the offset, if there is room for them. -/
def put (b : ByteBuffer) (bs : Bytes) (error : BufferError) : Except BufferError ByteBuffer :=
  if room : bs.length ≤ b.getRemainderLength then
    .ok {
      size := b.size
      written := b.written ++ bs
      fits := by
        have := b.fits
        rw [length_append]
        unfold getRemainderLength at room
        omega }
  else .error error

variable {bs : Bytes} {p q : Prop} {width value : Nat}

theorem put_eq_ok {b b' : ByteBuffer} {error : BufferError} :
    b.put bs error = .ok b' ↔ b'.size = b.size ∧ b'.written = b.written ++ bs := by
  unfold put getRemainderLength
  constructor
  · intro h
    split at h
    · obtain rfl := ok.inj h
      exact ⟨rfl, rfl⟩
    · contradiction
  · rintro ⟨size, written⟩
    have room : bs.length ≤ b.size - b.written.length := by
      have := b'.fits
      rw [size, written, length_append] at this
      omega
    rw [dif_pos room]
    exact congrArg ok (ByteBuffer.ext size.symm written.symm)

/-- Numbers of `width` bytes, little-endian. -/
def writeUint (width : Nat) (bounds : String) (value : Nat) (b : ByteBuffer) :
    Except BufferError ByteBuffer :=
  if value > maxSafeInteger then .error .notSafeInteger
  else if value > 256 ^ width - 1 then .error (.outOfRange bounds value)
  else b.put (little width value) .outOfBounds

def writeUint8 : Nat → ByteBuffer → Except BufferError ByteBuffer :=
  writeUint 1 ">= 0 and <= 255"

def writeUint16 : Nat → ByteBuffer → Except BufferError ByteBuffer :=
  writeUint 2 ">= 0 and < 2 ** 16"

def writeUint32 : Nat → ByteBuffer → Except BufferError ByteBuffer :=
  writeUint 4 ">= 0 and < 2 ** 32"

def writeUint48 : Nat → ByteBuffer → Except BufferError ByteBuffer :=
  writeUint 6 ">= 0 and < 2 ** 48"

/-- A bigint, which need not be a safe integer. -/
def writeUint64 (value : Nat) (b : ByteBuffer) : Except BufferError ByteBuffer :=
  if value > 2 ^ 64 - 1 then .error (.outOfRange ">= 0n and < 2n ** 64n" value)
  else b.put (little 8 value) .outOfBounds

def writeBytes (value : Bytes) (b : ByteBuffer) : Except BufferError ByteBuffer :=
  b.put value (.writeOver value.length b.getRemainderLength)

/-- Big-endian, unlike the others. -/
def writeUint256 (value : Nat) (b : ByteBuffer) : Except BufferError ByteBuffer :=
  if (minimal value).length > 32 then .error .exceedsUint256
  else b.writeBytes (big 32 value)

/-- The write succeeds exactly under `Accepts` and where there is room, and then appends
these bytes. -/
def Appends (write : ByteBuffer → Except BufferError ByteBuffer) (Accepts : Prop) (bs : Bytes) :
    Prop :=
  ∀ b b', write b = .ok b' ↔ Accepts ∧ b'.size = b.size ∧ b'.written = b.written ++ bs

/-- One write after another. -/
theorem Appends.andThen {first second : ByteBuffer → Except BufferError ByteBuffer}
    {cs : Bytes} (hfirst : Appends first p bs) (hsecond : Appends second q cs) :
    Appends (fun b => first b >>= second) (p ∧ q) (bs ++ cs) := by
  intro b b'
  rw [bind_eq_ok]
  constructor
  · rintro ⟨b₁, one, two⟩
    obtain ⟨hp, size, written⟩ := (hfirst b b₁).mp one
    obtain ⟨hq, size', written'⟩ := (hsecond b₁ b').mp two
    refine ⟨⟨hp, hq⟩, size'.trans size, ?_⟩
    rw [written', written, append_assoc]
  · rintro ⟨⟨hp, hq⟩, size, written⟩
    -- There is room for the first part, since there is for both.
    have room : (b.written ++ bs).length ≤ b.size := by
      have := b'.fits
      rw [size, written] at this
      simp only [length_append] at this ⊢
      omega
    refine ⟨⟨b.size, b.written ++ bs, room⟩, (hfirst b _).mpr ⟨hp, rfl, rfl⟩, ?_⟩
    exact (hsecond _ _).mpr ⟨hq, size, by rw [written, append_assoc]⟩

theorem Appends.congr {write : ByteBuffer → Except BufferError ByteBuffer}
    (h : Appends write p bs) (same : p ↔ q) : Appends write q bs := by
  intro b b'
  rw [h b b', same]

theorem appends_ok : Appends .ok True [] := by
  intro b b'
  simp only [ok.injEq, true_and, append_nil]
  constructor
  · rintro rfl
    exact ⟨rfl, rfl⟩
  · rintro ⟨size, written⟩
    exact ByteBuffer.ext size.symm written.symm

theorem appends_writeUint {bounds : String} (narrow : width ≤ 6) :
    Appends (writeUint width bounds value) (value < 256 ^ width) (little width value) := by
  intro b b'
  have positive : 0 < 256 ^ width := Nat.pow_pos (by omega)
  have small : 256 ^ width ≤ 256 ^ 6 := Nat.pow_le_pow_right (by omega) narrow
  unfold writeUint maxSafeInteger
  by_cases fits : value < 256 ^ width
  · rw [if_neg (by omega), if_neg (by omega), put_eq_ok]
    simp [fits]
  · simp only [fits, false_and, iff_false]
    split
    · simp
    · rw [if_pos (by omega)]
      simp

theorem appends_writeUint64 : Appends (writeUint64 value) (value < 256 ^ 8) (little 8 value) := by
  intro b b'
  unfold writeUint64
  by_cases fits : value < 256 ^ 8
  · rw [if_neg (by omega), put_eq_ok]
    exact (and_iff_right fits).symm
  · rw [if_pos (by omega)]
    exact iff_of_false (by simp) fun h => fits h.1

theorem appends_writeBytes {value : Bytes} : Appends (writeBytes value) True value := by
  intro b b'
  rw [writeBytes, put_eq_ok, true_and]

theorem appends_writeUint256 : Appends (writeUint256 value) (value < 256 ^ 32) (big 32 value) := by
  intro b b'
  have shortest : (minimal value).length ≤ 32 ↔ value < 256 ^ 32 := by
    rw [length_minimal, width_le_iff]
  unfold writeUint256
  by_cases fits : value < 256 ^ 32
  · rw [if_neg (by omega), writeBytes, put_eq_ok]
    exact (and_iff_right fits).symm
  · rw [if_pos (by omega)]
    exact iff_of_false (by simp) fun h => fits h.1

/-! ## Reading -/

/-- `readUint8` to `readUint64`: the number, and what remains. -/
def readUint (width : Nat) (source : Bytes) : Except BufferError (Nat × Bytes) :=
  if width ≤ source.length then .ok (ofLittle (source.take width), source.drop width)
  else .error .outOfBounds

def readBytes (length : Nat) (source : Bytes) : Except BufferError (Bytes × Bytes) :=
  if length ≤ source.length then .ok (source.take length, source.drop length)
  else .error (.readOver length source.length)

def readUint256 (source : Bytes) : Except BufferError (Nat × Bytes) := do
  let (bytes, rest) ← readBytes 32 source
  return (ofBig bytes, rest)

/-- The reader returns what the codec decodes, and throws where it does not. -/
def Reads {α : Type} (read : Bytes → Except BufferError (α × Bytes)) (c : Codec α) : Prop :=
  ∀ source result, read source = .ok result ↔ c.decode source = some result

theorem reads_readUint : Reads (readUint width) (Codec.little width) := by
  intro source result
  unfold readUint
  simp only [Codec.little, Codec.via, Codec.fixed]
  split <;> simp

theorem reads_readBytes {length : Nat} : Reads (readBytes length) (Codec.fixed length) := by
  intro source result
  unfold readBytes
  simp only [Codec.fixed]
  split <;> simp

theorem reads_readUint256 : Reads readUint256 (Codec.big 32) := by
  intro source result
  unfold readUint256 readBytes
  simp only [Codec.big, Codec.via, Codec.fixed]
  split <;> simp [bind, Except.bind, pure, Except.pure]

end ByteBuffer

/-! ## Validator sets -/

def validatorSetPack (validatorSet : List Bool) : Nat :=
  validatorSet.zipIdx.foldl (fun packed entry =>
    if entry.1 then packed + 2 ^ entry.2 else packed) 0

def validatorSetUnpack (packed numberOfValidators : Nat) : Except BufferError (List Bool) :=
  if packed >>> numberOfValidators ≠ 0 then .error .bitsBeyond
  else .ok ((range numberOfValidators).map fun index => (packed &&& 1 <<< index) != 0)

section

variable (validatorSet : List Bool)
include validatorSet

/-- The loop from index `start` on: each element is the next higher bit. -/
theorem foldl_zipIdx_pack (start packed : Nat) :
    (validatorSet.zipIdx start).foldl (fun packed entry =>
      if entry.1 then packed + 2 ^ entry.2 else packed) packed =
        packed + 2 ^ start * validatorSet.foldr bit 0 := by
  induction validatorSet generalizing start packed with
  | nil => simp
  | cons element rest ih =>
    rw [zipIdx_cons, foldl_cons, ih, foldr_cons, bit_val, pow_succ]
    cases element <;> simp <;> ring

theorem testBit_validatorSetPack (index : Nat) :
    (validatorSetPack validatorSet).testBit index = validatorSet.getD index false := by
  rw [validatorSetPack, foldl_zipIdx_pack, pow_zero, one_mul, zero_add]
  induction validatorSet generalizing index with
  | nil => simp
  | cons element rest ih =>
    cases index with
    | zero => simp
    | succ index => simp [testBit_bit_succ, ih]

theorem validatorSetPack_lt :
    validatorSetPack validatorSet < 2 ^ validatorSet.length := by
  apply lt_pow_two_of_testBit
  intro index beyond
  rw [testBit_validatorSetPack, getD_eq_default _ _ beyond]

end

variable {n : Nat} {validatorSet : List Bool}

theorem validatorSetUnpack_eq_ok {packed : Nat} :
    validatorSetUnpack packed n = .ok validatorSet ↔
      validatorSet.length = n ∧ validatorSetPack validatorSet = packed := by
  have bits : ∀ index, ((packed &&& 1 <<< index) != 0) = packed.testBit index := by
    intro index
    rw [one_shiftLeft, and_two_pow]
    cases packed.testBit index <;> simp
  unfold validatorSetUnpack
  simp only [bits]
  constructor
  · intro h
    split at h
    · contradiction
    · next within =>
        obtain rfl := ok.inj h
        have small : packed < 2 ^ n := by
          simpa [shiftRight_eq_div_pow, div_eq_zero_iff] using within
        refine ⟨by simp, eq_of_testBit_eq fun index => ?_⟩
        rw [testBit_validatorSetPack, getD_eq_getElem?_getD]
        by_cases inside : index < n
        · simp [inside]
        · have := Nat.testBit_lt_two_pow (small.trans_le (Nat.pow_le_pow_right (by omega)
            (not_lt.mp inside)))
          simp [inside, this]
  · rintro ⟨rfl, rfl⟩
    have within : ¬validatorSetPack validatorSet >>> validatorSet.length ≠ 0 := by
      simpa [shiftRight_eq_div_pow, div_eq_zero_iff] using validatorSetPack_lt validatorSet
    rw [if_neg within]
    congr 1
    apply ext_getElem (by simp)
    intro index _ inside
    simp [testBit_validatorSetPack, inside]

/-- `validatorSetUnpack` of any integers. What a buffer holds passes the first two checks. -/
def validatorSetUnpackBigint (packed numberOfValidators : Int) : Except String (List Bool) :=
  if numberOfValidators < 0 then .error "`numberOfValidators` must be a non-negative integer"
  else if packed < 0 then .error "`packed` must be non-negative"
  else (validatorSetUnpack packed.toNat numberOfValidators.toNat).mapError BufferError.message

theorem validatorSetUnpackBigint_eq_ok {packed : Int} :
    validatorSetUnpackBigint packed n = .ok validatorSet ↔
      validatorSet.length = n ∧ validatorSetPack validatorSet = packed := by
  rw [validatorSetUnpackBigint, if_neg (by omega)]
  by_cases negative : packed < 0
  · simp only [if_pos negative, reduceCtorEq, false_iff]
    omega
  · rw [if_neg negative, mapError_eq_ok, validatorSetUnpack_eq_ok]
    omega

/-- Packing and unpacking are inverse to each other, and what no set packs to is refused. -/
theorem validatorSet_bijection (n : Nat) :
    (∀ validatorSet : List Bool, validatorSet.length = n →
      validatorSetUnpackBigint (validatorSetPack validatorSet) n = .ok validatorSet) ∧
    (∀ packed : Int, 0 ≤ packed → packed < 2 ^ n → ∃ validatorSet,
      validatorSetUnpackBigint packed n = .ok validatorSet ∧
        validatorSetPack validatorSet = packed) ∧
    ∀ packed : Int, packed < 0 ∨ 2 ^ n ≤ packed →
      ∃ error, validatorSetUnpackBigint packed n = .error error := by
  refine ⟨fun validatorSet length => validatorSetUnpackBigint_eq_ok.mpr ⟨length, rfl⟩, ?_, ?_⟩
  · intro packed nonnegative below
    lift packed to Nat using nonnegative
    have within : packed >>> n = 0 := by
      rw [Nat.shiftRight_eq_div_pow, Nat.div_eq_zero_iff]
      exact .inr (by exact_mod_cast below)
    obtain ⟨validatorSet, unpacked⟩ : ∃ l, validatorSetUnpack packed n = .ok l :=
      ⟨_, if_neg (not_not.mpr within)⟩
    obtain ⟨length, packs⟩ := validatorSetUnpack_eq_ok.mp unpacked
    have packs' : (validatorSetPack validatorSet : Int) = packed := congrArg _ packs
    exact ⟨validatorSet, validatorSetUnpackBigint_eq_ok.mpr ⟨length, packs'⟩, packs'⟩
  · intro packed outside
    cases unpacked : validatorSetUnpackBigint packed n with
    | error error => exact ⟨error, rfl⟩
    | ok validatorSet =>
      obtain ⟨rfl, rfl⟩ := validatorSetUnpackBigint_eq_ok.mp unpacked
      have below : (validatorSetPack validatorSet : Int) < 2 ^ validatorSet.length := by
        exact_mod_cast validatorSetPack_lt validatorSet
      omega

theorem validatorSet_bijection_three : validatorSetUnpackBigint 5 3 = .ok [true, false, true] ∧
      ∃ error, validatorSetUnpackBigint 8 3 = .error error :=
  ⟨(validatorSet_bijection 3).1 [true, false, true] rfl,
    (validatorSet_bijection 3).2.2 8 (by decide)⟩

end Mainsail
