import Mainsail.Serializer.ByteBuffer

/-!
# The serializer

`serializer.ts`: a schema names the properties of a record in order, each with its type, and
the serializer writes them one after another into a buffer of the length its caller
computed. Here a record is the tuple of its values. Each type has a codec, which is what the
branch of the serializer for that type is for; serializing and deserializing a record are the
codec of its schema, but for the buffer length and the lengths of hashes, keys, addresses and
signatures, which are not checked when they are written.

Every caller passes `skip: 0`. The branch that throws `NotImplemented` is for types outside
of the enumeration.
-/

namespace Mainsail

open Codec Option

/-- `MandatoryPropertyType` and `OptionalPropertyType`. -/
inductive FieldType
  | uint8
  | uint16
  | uint32
  | uint48
  | uint64
  | uint256
  | bigint
  /-- The size that `deserialize` reads is that of a hash, unless the schema has its own. -/
  | hash (size : Option Nat)
  | blockHash
  | address
  | publicKey
  | consensusSignature
  | validatorSet
  | hex
  | transactions
  deriving DecidableEq, Repr

/-- `Hash.Size.HASH256` and `Hash.Size.SHA256`. -/
def hashSize : Nat := 32

/-- The bytes of an address. -/
def addressSize : Nat := 20

/-- The bytes of a public key of a wallet. -/
def publicKeySize : Nat := 33

/-- The bytes of a consensus signature. -/
def signatureSize : Nat := 96

namespace FieldType

/-- The values of a property of this type. Hashes, addresses, keys and signatures are the
bytes of their hex strings, transactions their serialized bytes. -/
@[reducible] def Value : FieldType → Type
  | uint8 | uint16 | uint32 | uint48 | uint64 | uint256 | bigint => Nat
  | hash _ | blockHash | address | publicKey | consensusSignature | hex => Bytes
  | validatorSet => List Bool
  | transactions => List Bytes

open ByteBuffer

/-- A serialized transaction, or a `hex` property. -/
def writeSized (serialized : Bytes) (b : ByteBuffer) : Except BufferError ByteBuffer :=
  b.writeUint32 serialized.length >>= writeBytes serialized

def writeTransactions : List Bytes → ByteBuffer → Except BufferError ByteBuffer
  | [], b => .ok b
  | serialized :: rest, b => writeSized serialized b >>= writeTransactions rest

/-- The branches of `serialize`. -/
def write : (type : FieldType) → type.Value → ByteBuffer → Except BufferError ByteBuffer
  | uint8, value => writeUint8 value
  | uint16, value => writeUint16 value
  | uint32, value => writeUint32 value
  | uint48, value => writeUint48 value
  | uint64, value | bigint, value => writeUint64 value
  | uint256, value => writeUint256 value
  | hash _, value | blockHash, value | address, value | publicKey, value
  | consensusSignature, value => writeBytes value
  | validatorSet, value => fun b =>
    b.writeUint8 value.length >>= writeUint64 (validatorSetPack value)
  | hex, value => writeSized value
  | transactions, value => writeTransactions value

def readSized (source : Bytes) : Except BufferError (Bytes × Bytes) := do
  let (length, rest) ← readUint 4 source
  readBytes length rest

def readTransactions : Nat → Bytes → Except BufferError (List Bytes × Bytes)
  | 0, source => .ok ([], source)
  | index + 1, source => do
      let (serialized, rest) ← readSized source
      let (others, rest') ← readTransactions index rest
      return (serialized :: others, rest')

/-- The branches of `deserialize`, with the `transactionsCount` of its target. -/
def read (transactionsCount : Nat) :
    (type : FieldType) → Bytes → Except BufferError (type.Value × Bytes)
  | uint8 => readUint 1
  | uint16 => readUint 2
  | uint32 => readUint 4
  | uint48 => readUint 6
  | uint64 | bigint => readUint 8
  | uint256 => readUint256
  | hash size => readBytes (size.getD hashSize)
  | blockHash => readBytes hashSize
  | address => readBytes addressSize
  | publicKey => readBytes publicKeySize
  | consensusSignature => readBytes signatureSize
  | validatorSet => fun source => do
      let (length, rest) ← readUint 1 source
      let (packed, rest') ← readUint 8 rest
      let validatorSet ← validatorSetUnpack packed length
      return (validatorSet, rest')
  | hex => readSized
  | transactions => readTransactions transactionsCount

/-! ## The codecs of the types -/

/-- A bitmap after the number of its flags. -/
def validatorSetCodec : Codec (List Bool) :=
  ((little 1).pair (little 8)).via
    (fun value => value.length < 256 ^ 1 ∧ validatorSetPack value < 256 ^ 8)
    (fun value => (value.length, validatorSetPack value))
    (fun read => (validatorSetUnpack read.2 read.1).toOption)
    (by
      intro value fits
      exact ⟨fits, Except.toOption_eq_some.mpr (validatorSetUnpack_eq_ok.mpr ⟨rfl, rfl⟩)⟩)
    (by
      rintro ⟨length, packed⟩ value fits unpacked
      obtain ⟨rfl, rfl⟩ := validatorSetUnpack_eq_ok.mp (Except.toOption_eq_some.mp unpacked)
      exact ⟨fits, rfl⟩)

def codec (transactionsCount : Nat) : (type : FieldType) → Codec type.Value
  | uint8 => little 1
  | uint16 => little 2
  | uint32 => little 4
  | uint48 => little 6
  | uint64 | bigint => little 8
  | uint256 => big 32
  | hash size => fixed (size.getD hashSize)
  | blockHash => fixed hashSize
  | address => fixed addressSize
  | publicKey => fixed publicKeySize
  | consensusSignature => fixed signatureSize
  | validatorSet => validatorSetCodec
  | hex => sized 4
  | transactions => (sized 4).count transactionsCount

/-- What the serializer checks of a value: that its numbers are in range. -/
def Accepts : (type : FieldType) → type.Value → Prop
  | uint8, value => value < 256 ^ 1
  | uint16, value => value < 256 ^ 2
  | uint32, value => value < 256 ^ 4
  | uint48, value => value < 256 ^ 6
  | uint64, value | bigint, value => value < 256 ^ 8
  | uint256, value => value < 256 ^ 32
  | hash _, _ | blockHash, _ | address, _ | publicKey, _ | consensusSignature, _ => True
  | validatorSet, value => value.length < 256 ^ 1 ∧ validatorSetPack value < 256 ^ 8
  | hex, value => value.length < 256 ^ 4
  | transactions, value => ∀ serialized ∈ value, serialized.length < 256 ^ 4

/-- The bytes a value takes. -/
def size : (type : FieldType) → type.Value → Nat
  | uint8, _ => 1
  | uint16, _ => 2
  | uint32, _ => 4
  | uint48, _ => 6
  | uint64, _ | bigint, _ => 8
  | uint256, _ => 32
  | hash size, _ => size.getD hashSize
  | blockHash, _ => hashSize
  | address, _ => addressSize
  | publicKey, _ => publicKeySize
  | consensusSignature, _ => signatureSize
  | validatorSet, _ => 1 + 8
  | hex, value => 4 + value.length
  | transactions, value => (value.map fun serialized => 4 + serialized.length).sum

theorem length_encode_sized (serialized : Bytes) :
    ((sized 4).encode serialized).length = 4 + serialized.length := by
  simp [sized, little, via, fixed]

variable {type : FieldType} {value : type.Value} {n : Nat}

theorem length_encode (fits : (type.codec n).Fits value) :
    ((type.codec n).encode value).length = type.size value := by
  cases type with
  | uint8 | uint16 | uint32 | uint48 | uint64 | bigint => exact Endian.length_little _ _
  | uint256 => exact Endian.length_big _ _
  | hash | blockHash | address | publicKey | consensusSignature => exact fits
  | validatorSet =>
    simp [codec, validatorSetCodec, size, pair, little, via, fixed]
  | hex => exact length_encode_sized value
  | transactions =>
    simp only [codec, count, size, List.length_flatMap, length_encode_sized]

theorem appends_writeSized {serialized : Bytes} :
    Appends (writeSized serialized) (serialized.length < 256 ^ 4)
      ((sized 4).encode serialized) := by
  intro b b'
  rw [← and_true (_ < _)]
  exact (appends_writeUint (by omega)).andThen appends_writeBytes b b'

theorem appends_writeTransactions {value : List Bytes} :
    Appends (writeTransactions value) (∀ serialized ∈ value, serialized.length < 256 ^ 4)
      (value.flatMap (sized 4).encode) := by
  induction value with
  | nil =>
    intro b b'
    simpa [writeTransactions] using appends_ok b b'
  | cons serialized rest ih =>
    intro b b'
    rw [List.forall_mem_cons, List.flatMap_cons]
    exact appends_writeSized.andThen ih b b'

/-- Each branch of `serialize` writes what the codec of its type encodes. -/
theorem appends_write :
    Appends (type.write value) (type.Accepts value) ((type.codec n).encode value) := by
  cases type with
  | uint8 | uint16 | uint32 | uint48 => exact appends_writeUint (by omega)
  | uint64 | bigint => exact appends_writeUint64
  | uint256 => exact appends_writeUint256
  | hash | blockHash | address | publicKey | consensusSignature => exact appends_writeBytes
  | validatorSet => exact (appends_writeUint (by omega)).andThen appends_writeUint64
  | hex => exact appends_writeSized
  | transactions => exact appends_writeTransactions

theorem reads_readSized : Reads readSized (sized 4) := by
  intro source result
  simp only [readSized, sized, Except.bind_eq_ok, bind_eq_some_iff,
    reads_readUint source, reads_readBytes _ result]

theorem reads_readTransactions : Reads (readTransactions n) ((sized 4).count n) := by
  induction n with
  | zero =>
    intro source result
    simp [readTransactions, count, decodeCount]
  | succ n ih =>
    intro source result
    have others : ∀ rest result, readTransactions n rest = .ok result ↔
        (sized 4).decodeCount n rest = some result := ih
    simp only [readTransactions, count, decodeCount, Except.bind_eq_ok,
      bind_eq_some_iff, map_eq_some_iff, reads_readSized source, others,
      pure, Except.pure, Except.ok.injEq]

/-- Each branch of `deserialize` reads what the codec of its type decodes. -/
theorem reads_read : Reads (type.read n) (type.codec n) := by
  cases type with
  | uint8 | uint16 | uint32 | uint48 | uint64 | bigint => exact reads_readUint
  | uint256 => exact reads_readUint256
  | hash | blockHash | address | publicKey | consensusSignature => exact reads_readBytes
  | validatorSet =>
    intro source result
    simp only [read, codec, validatorSetCodec, via, pair, Except.bind_eq_ok,
      bind_eq_some_iff, map_eq_some_iff, reads_readUint _ _,
      Except.toOption_eq_some, pure, Except.pure, Except.ok.injEq]
    constructor
    · rintro ⟨length, first, packed, second, value, unpacked, same⟩
      exact ⟨_, ⟨length, first, packed, second, rfl⟩, value, unpacked, same⟩
    · rintro ⟨_, ⟨length, first, packed, second, rfl⟩, value, unpacked, same⟩
      exact ⟨length, first, packed, second, value, unpacked, same⟩
  | hex => exact reads_readSized
  | transactions => exact reads_readTransactions

/-- A value that fits is one the serializer accepts. -/
theorem accepts_of_fits (fits : (type.codec n).Fits value) : type.Accepts value := by
  cases type with
  | hash | blockHash | address | publicKey | consensusSignature => trivial
  | transactions => exact fits.2
  | _ => exact fits

end FieldType

/-! ## Properties -/

/-- `optional: true` puts a presence flag before the value. The branches of the numbers and of
`blockHash` read it. -/
inductive Field
  | mandatory (type : FieldType)
  | optional (type : FieldType)
  deriving DecidableEq, Repr

namespace Field

open ByteBuffer

@[reducible] def Value : Field → Type
  | mandatory type => type.Value
  | optional type => Option type.Value

/-- With `#writeOptional`. -/
def write : (field : Field) → field.Value → ByteBuffer → Except BufferError ByteBuffer
  | mandatory type, value => type.write value
  | optional _, none => writeUint8 0
  | optional type, some value => fun b => b.writeUint8 1 >>= type.write value

/-- With `#readOptional`. -/
def read (transactionsCount : Nat) :
    (field : Field) → Bytes → Except BufferError (field.Value × Bytes)
  | mandatory type, source => type.read transactionsCount source
  | optional type, source => do
      let (isPresent, rest) ← readUint 1 source
      if isPresent = 0 then return (none, rest)
      else if isPresent ≠ 1 then .error (.invalidFlag (UInt8.ofNat isPresent))
      else
        let (value, rest') ← type.read transactionsCount rest
        return (some value, rest')

def codec (transactionsCount : Nat) : (field : Field) → Codec field.Value
  | mandatory type => type.codec transactionsCount
  | optional type => (type.codec transactionsCount).option

def Accepts : (field : Field) → field.Value → Prop
  | mandatory type, value => type.Accepts value
  | optional type, value => ∀ v ∈ value, type.Accepts v

variable {field : Field}

theorem appends_write {value : field.Value} {n : Nat} :
    Appends (field.write value) (field.Accepts value) ((field.codec n).encode value) := by
  cases field with
  | mandatory type => exact FieldType.appends_write
  | optional type =>
    cases value with
    | none =>
      have flag : Appends (writeUint8 0) (0 < 256 ^ 1) [0] := appends_writeUint (by omega)
      exact flag.congr (by simp [Accepts])
    | some value =>
      have flag : Appends (writeUint8 1) (1 < 256 ^ 1) [1] := appends_writeUint (by omega)
      exact (flag.andThen FieldType.appends_write).congr (by simp [Accepts])

def size : (field : Field) → field.Value → Nat
  | mandatory type, value => type.size value
  | optional _, none => 1
  | optional type, some value => 1 + type.size value

theorem length_encode {value : field.Value} {n : Nat} (fits : (field.codec n).Fits value) :
    ((field.codec n).encode value).length = field.size value := by
  cases field with
  | mandatory type => exact FieldType.length_encode fits
  | optional type =>
    cases value with
    | none => rfl
    | some value =>
      have inner := FieldType.length_encode (fits value rfl)
      simp only [codec, option, size, List.length_cons, inner, Nat.add_comm]

theorem reads_read {n : Nat} : Reads (field.read n) (field.codec n) := by
  cases field with
  | mandatory type => exact FieldType.reads_read
  | optional type =>
    intro source result
    cases source with
    | nil => simp [read, codec, option, readUint, bind, Except.bind]
    | cons flag source =>
      have first : readUint 1 (flag :: source) = .ok (flag.toNat, source) := by
        simp [readUint, Endian.ofLittle]
      have absent : flag.toNat = 0 ↔ flag = 0 := UInt8.toNat_inj (b := 0)
      have present : flag.toNat = 1 ↔ flag = 1 := UInt8.toNat_inj (b := 1)
      simp only [read, codec, option, first, bind, Except.bind, absent, present, ne_eq]
      split
      · simp [pure, Except.pure]
      · split
        · simp
        · next one =>
            rw [if_pos (not_not.mp one)]
            exact (Except.bind_eq_ok (x := type.read n source)).trans (by
              simp only [FieldType.reads_read source, pure, Except.pure, Except.ok.injEq,
                map_eq_some_iff])

theorem accepts_of_fits {value : field.Value} {n : Nat}
    (fits : (field.codec n).Fits value) : field.Accepts value := by
  cases field with
  | mandatory type => exact FieldType.accepts_of_fits fits
  | optional type => exact fun v present => FieldType.accepts_of_fits (fits v present)

end Field

/-! ## Records -/

/-- The properties of a record in the order in which they are written. -/
abbrev Schema := List (String × Field)

namespace Schema

open ByteBuffer

@[reducible] def Data : Schema → Type
  | [] => Unit
  | property :: rest => property.2.Value × Data rest

def write : (schema : Schema) → schema.Data → ByteBuffer → Except BufferError ByteBuffer
  | [], _ => .ok
  | property :: rest, data => fun b => property.2.write data.1 b >>= write rest data.2

def read (transactionsCount : Nat) :
    (schema : Schema) → Bytes → Except BufferError (schema.Data × Bytes)
  | [], source => .ok ((), source)
  | property :: rest, source => do
      let (value, remainder) ← property.2.read transactionsCount source
      let (others, remainder') ← read transactionsCount rest remainder
      return ((value, others), remainder')

def codec (transactionsCount : Nat) : (schema : Schema) → Codec schema.Data
  | [] => unit
  | property :: rest => (property.2.codec transactionsCount).pair (codec transactionsCount rest)

def Accepts : (schema : Schema) → schema.Data → Prop
  | [], _ => True
  | property :: rest, data => property.2.Accepts data.1 ∧ Accepts rest data.2

theorem appends_write {schema : Schema} {data : schema.Data} {n : Nat} :
    Appends (schema.write data) (schema.Accepts data) ((schema.codec n).encode data) := by
  induction schema with
  | nil => exact appends_ok
  | cons property rest ih => exact Field.appends_write.andThen ih

def size : (schema : Schema) → schema.Data → Nat
  | [], _ => 0
  | property :: rest, data => property.2.size data.1 + size rest data.2

theorem length_encode {schema : Schema} {data : schema.Data} {n : Nat}
    (fits : (schema.codec n).Fits data) :
    ((schema.codec n).encode data).length = schema.size data := by
  induction schema with
  | nil => rfl
  | cons property rest ih =>
    simp only [codec, pair, size, List.length_append, Field.length_encode fits.1, ih fits.2]

theorem reads_read {schema : Schema} {n : Nat} : Reads (schema.read n) (schema.codec n) := by
  induction schema with
  | nil =>
    intro source result
    simp [read, codec, unit]
  | cons property rest ih =>
    intro source result
    simp only [read, codec, pair, Except.bind_eq_ok, bind_eq_some_iff,
      map_eq_some_iff, Field.reads_read source, ih _ _, pure, Except.pure,
      Except.ok.injEq]

theorem accepts_of_fits {schema : Schema} {data : schema.Data} {n : Nat}
    (fits : (schema.codec n).Fits data) : schema.Accepts data := by
  induction schema with
  | nil => trivial
  | cons property rest ih => exact ⟨Field.accepts_of_fits fits.1, ih fits.2⟩

/-- A record of two schemas, one after the other. -/
def appendData : {schema schema' : Schema} → schema.Data → schema'.Data → Data (schema ++ schema')
  | [], _, _, data' => data'
  | _ :: _, _, data, data' => (data.1, appendData data.2 data')

theorem encode_appendData {schema schema' : Schema} {n : Nat} (data : schema.Data)
    (data' : schema'.Data) : (codec n (schema ++ schema')).encode (appendData data data') =
      (schema.codec n).encode data ++ (schema'.codec n).encode data' := by
  induction schema with
  | nil => rfl
  | cons property rest ih =>
    simp only [List.cons_append, codec, pair, appendData, ih data.2, List.append_assoc]

theorem accepts_appendData {schema schema' : Schema} {data : schema.Data}
    {data' : schema'.Data} : Accepts (schema ++ schema') (appendData data data') ↔
      schema.Accepts data ∧ schema'.Accepts data' := by
  induction schema with
  | nil => simp [Accepts, appendData]
  | cons property rest ih =>
    change _ ∧ _ ↔ (_ ∧ _) ∧ _
    rw [and_assoc]
    exact and_congr_right fun _ => ih

end Schema

namespace Serializer

/-- `serialize`, into a buffer of the given length. -/
def serialize (schema : Schema) (data : schema.Data) (length : Nat) : Except BufferError Bytes := do
  let result ← schema.write data (ByteBuffer.fromSize length)
  return result.written

/-- `deserialize`: the record and what remains of the source. -/
def deserialize (schema : Schema) (transactionsCount : Nat) (source : Bytes) :
    Except BufferError (schema.Data × Bytes) :=
  schema.read transactionsCount source

variable {schema : Schema}

variable {length : Nat} {bs source : Bytes}

/-- What `serialize` returns is what the codec encodes. -/
theorem serialize_eq_ok {data : schema.Data} {length n : Nat} {bs : Bytes} :
    serialize schema data length = .ok bs ↔
      schema.Accepts data ∧ bs = (schema.codec n).encode data ∧ bs.length ≤ length := by
  simp only [serialize, Except.bind_eq_ok, Schema.appends_write (n := n) _ _, pure, Except.pure,
    Except.ok.injEq]
  constructor
  · rintro ⟨b, ⟨accepts, size, written⟩, rfl⟩
    refine ⟨accepts, written, ?_⟩
    have := b.fits
    rwa [size] at this
  · rintro ⟨accepts, rfl, room⟩
    exact ⟨⟨length, _, room⟩, ⟨accepts, rfl, rfl⟩, rfl⟩

/-- A record that fits is serialized into any buffer that has room for it. -/
theorem serialize_of_fits {data : schema.Data} {length n : Nat}
    (fits : (schema.codec n).Fits data) (room : schema.size data ≤ length) :
    serialize schema data length = .ok ((schema.codec n).encode data) :=
  serialize_eq_ok.mpr ⟨Schema.accepts_of_fits fits, rfl, (Schema.length_encode fits).trans_le room⟩

/-- What `deserialize` returns is what the codec decodes. -/
theorem deserialize_eq_ok {n : Nat} {result : schema.Data × Bytes} :
    deserialize schema n source = .ok result ↔ (schema.codec n).decode source = some result :=
  Schema.reads_read source result

/-- The whole source is one record exactly if the record fits and encodes to it. -/
theorem deserialize_eq_ok_nil {n : Nat} {data : schema.Data} :
    deserialize schema n source = .ok (data, []) ↔
      (schema.codec n).Fits data ∧ source = (schema.codec n).encode data := by
  rw [deserialize_eq_ok]
  constructor
  · intro decoded
    simpa using (schema.codec n).encode_decode decoded
  · rintro ⟨fits, rfl⟩
    exact (schema.codec n).decode_encode_nil fits

/-- Two records that fit are equal if they serialize to the same bytes. -/
theorem serialize_inj {data data' : schema.Data} {length' n : Nat}
    (fits : (schema.codec n).Fits data) (fits' : (schema.codec n).Fits data')
    (h : serialize schema data length = .ok bs) (h' : serialize schema data' length' = .ok bs) :
    data = data' := by
  obtain ⟨-, written, -⟩ := (serialize_eq_ok (n := n)).mp h
  obtain ⟨-, written', -⟩ := (serialize_eq_ok (n := n)).mp h'
  exact (schema.codec n).encode_inj fits fits' (written.symm.trans written')

end Serializer

end Mainsail
