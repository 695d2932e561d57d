import Mainsail.Crypto.RlpReader
import Mainsail.Foundation.Double
import Mainsail.Foundation.Hex
import Mainsail.Serializer.Serializer

/-!
# Transactions as bytes

`crypto-transaction`: the deserializer, the serializer, the strict schema and the factory. A
text of hexadecimal digits is its bytes, a `bigint` a natural number and a `number` a double.
-/

namespace Mainsail

open Endian Rlp Double List Except
open Except (bind_eq_ok ok)

/-- `Contracts.Crypto.TransactionSerializable`. -/
structure TransactionSerializable where
  network : Double
  /-- The field `to`. -/
  recipient : Option Bytes
  value : Nat
  gasPrice : Double
  gasLimit : Double
  nonce : Nat
  data : Bytes
  v : Double
  r : Bytes
  s : Bytes
  legacySecondSignature : Option Bytes
  deriving DecidableEq, Repr

inductive TransactionField
  | nonce | gasPrice | gasLimit | value | v | r | s
  deriving DecidableEq, Repr

inductive TransactionError
  | rlp (error : RlpError)
  | leadingZeroes (field : TransactionField)
  | exceeds32Bytes (field : TransactionField)
  | outOfRange (field : TransactionField)
  | nonCanonicalSignature
  /-- Thrown by `getAddress`. -/
  | invalidAddress
  /-- Thrown by `toBytes`. -/
  | integerOutOfRange
  /-- Thrown by `secp256k1.recover`. -/
  | notRecoverable
  deriving DecidableEq, Repr

/-! ## The deserializer -/

namespace TransactionDeserializer

def secp256k1Order : Nat :=
  0xfffffffffffffffffffffffffffffffebaaedce6af48a03bbfd25e8cd0364141

def assertCanonicalInteger (value : Bytes) (field : TransactionField) :
    Except TransactionError Unit :=
  if Shortest value then .ok () else .error (.leadingZeroes field)

def parseBigInt (value : Bytes) (field : TransactionField) : Except TransactionError Nat := do
  assertCanonicalInteger value field
  return ofBig value

def parseNumber (value : Bytes) (field : TransactionField) : Except TransactionError Double := do
  assertCanonicalInteger value field
  return ofInt (ofBig value)

/-- The part of a signature is padded to 32 bytes. -/
def parseSignaturePart (value : Bytes) (field : TransactionField) :
    Except TransactionError Bytes :=
  if value.length > 32 then .error (.exceeds32Bytes field)
  else do
    assertCanonicalInteger value field
    if ofBig value = 0 ∨ ofBig value ≥ secp256k1Order then
      .error (.outOfRange field)
    else return replicate (32 - value.length) 0 ++ value

/-- `#parseAddress` and `getAddress`, which throws unless there are 20 bytes. -/
def parseAddress (value : Bytes) : Except TransactionError (Option Bytes) :=
  if value = [] then .ok none
  else if value.length = addressSize then .ok (some value)
  else .error .invalidAddress

/-- Only a tenth field that is also the last counts, and an empty text is falsy. -/
def legacySecondSignature : List Bytes → Option Bytes
  | [signature] => if signature = [] then none else some signature
  | _ => none

def ofFields : List Bytes → Except TransactionError TransactionSerializable
  | nonce :: gasPrice :: gasLimit :: recipient :: value :: data :: v :: r :: s :: more => do
      let nonce ← parseBigInt nonce .nonce
      let gasPrice ← parseNumber gasPrice .gasPrice
      let gasLimit ← parseNumber gasLimit .gasLimit
      let recipient ← parseAddress recipient
      let value ← parseBigInt value .value
      let v ← parseNumber v .v
      let chainId := (v - 35).floorHalf
      let r ← parseSignaturePart r .r
      let s ← parseSignaturePart s .s
      return { network := chainId, recipient, value, gasPrice, gasLimit, nonce, data
               v := v - (chainId * 2 + 35), r, s
               legacySecondSignature := legacySecondSignature more }
  | _ => .error (.rlp .tooFewFields)

def deserialize (serialized : Bytes) : Except TransactionError TransactionSerializable := do
  let fields ← (RlpReader.readFields serialized).mapError .rlp
  ofFields fields

end TransactionDeserializer

/-! ## The serializer -/

/-- What the package takes from `viem`. A text is given as what follows its `0x`. -/
structure Viem where
  /-- The bytes of the text. -/
  toRlp : List Bytes → Bytes
  toBytes : List Char → Bytes
  /-- `toBytes` of a `number`. -/
  numberToBytes : Double → Except TransactionError Bytes
  /-- `toBytes` of a `bigint`. -/
  bigintToBytes : Nat → Bytes
  bytesToHex : Bytes → List Char
  toRlp_eq : ∀ items, toRlp items = list items
  numberToBytes_eq_ok : ∀ x ≠ .finite 0, ∀ bytes, numberToBytes x = .ok bytes ↔
    ∃ n : Nat, x = .finite n ∧ n ≤ maxSafeInteger ∧ bytes = minimal n
  bigintToBytes_eq : ∀ n ≠ 0, bigintToBytes n = minimal n
  canonical_bytesToHex : ∀ bytes, Hex.Canonical (bytesToHex bytes)
  length_bytesToHex : ∀ bytes, (bytesToHex bytes).length = 2 * bytes.length
  bytesToHex_toBytes : ∀ text, Hex.Canonical text → bytesToHex (toBytes text) = text

/-- The encodings written out. A text that is not hexadecimal is taken as UTF-8. -/
def Viem.reference : Viem where
  toRlp := list
  toBytes text := (Hex.decode text).getD (("0x".toList ++ text).flatMap String.utf8EncodeChar)
  numberToBytes
    | .finite (.ofNat n) =>
      if n ≤ maxSafeInteger then .ok (minimal n) else .error .integerOutOfRange
    | _ => .error .integerOutOfRange
  bigintToBytes := minimal
  bytesToHex := Hex.encode
  toRlp_eq _ := rfl
  numberToBytes_eq_ok := by
    intro x _ bytes
    constructor
    · intro h
      split at h
      · next n _ =>
          split at h
          · next small => exact ⟨n, rfl, small, (ok.inj h).symm⟩
          · cases h
      · cases h
    · rintro ⟨n, rfl, small, rfl⟩
      exact if_pos small
  bigintToBytes_eq _ _ := rfl
  canonical_bytesToHex := Hex.canonical_encode
  length_bytesToHex := Hex.length_encode
  bytesToHex_toBytes := by
    intro text canonical
    obtain ⟨bs, rfl⟩ := Hex.exists_encode canonical
    rw [Hex.decode_encode, Option.getD_some]

namespace TransactionSerializer

variable (viem : Viem)

/-- `toBytesCompat` of a `number`. -/
def toBytesCompat (value : Double) : Except TransactionError Bytes :=
  if value = .finite 0 then .ok [] else viem.numberToBytes value

/-- `toBytesCompat` of a `bigint`. -/
def bigintCompat (value : Nat) : Bytes :=
  if value = 0 then [] else viem.bigintToBytes value

/-- The nine fields that every transaction has. -/
def fieldsOf (transaction : TransactionSerializable) : Except TransactionError (List Bytes) := do
  let gasPrice ← toBytesCompat viem transaction.gasPrice
  let gasLimit ← toBytesCompat viem transaction.gasLimit
  let v ← toBytesCompat viem (transaction.network * 2 + 35 + transaction.v)
  return [bigintCompat viem transaction.nonce, gasPrice, gasLimit, transaction.recipient.getD [],
    bigintCompat viem transaction.value, transaction.data, v,
    bigintCompat viem (ofBig transaction.r), bigintCompat viem (ofBig transaction.s)]

/-- The tenth field. -/
def secondSignature (transaction : TransactionSerializable) : List Bytes :=
  (transaction.legacySecondSignature.filter (· ≠ [])).toList

def serialize (transaction : TransactionSerializable) : Except TransactionError Bytes := do
  let fields ← fieldsOf viem transaction
  return viem.toRlp (fields ++ secondSignature transaction)

def serializeUnsigned (transaction : TransactionSerializable) : Except TransactionError Bytes := do
  let gasPrice ← toBytesCompat viem transaction.gasPrice
  let gasLimit ← toBytesCompat viem transaction.gasLimit
  let network ← toBytesCompat viem transaction.network
  return viem.toRlp [bigintCompat viem transaction.nonce, gasPrice, gasLimit,
    transaction.recipient.getD [], bigintCompat viem transaction.value, transaction.data, network,
    [], []]

end TransactionSerializer

/-! ## The strict schema -/

/-- `Contracts.Crypto.TransactionData`. -/
structure TransactionData extends TransactionSerializable where
  hash : Bytes
  sender : Bytes
  senderPublicKey : Bytes
  senderLegacyAddress : Bytes
  deriving DecidableEq, Repr

/-- What the checks read from the configuration. -/
structure TransactionConfiguration where
  chainId : Int
  minimumGasPrice : Nat
  maximumGasPrice : Nat
  minimumGasLimit : Nat
  maximumGasLimit : Nat
  height : Nat
  genesisHeight : Nat
  /-- The hashes of the genesis block's transactions. -/
  genesisTransactions : List Bytes

namespace TransactionConfiguration

variable (configuration : TransactionConfiguration)

/-- The keyword `network`. -/
def network (value : Double) : Bool := value = .finite configuration.chainId

/-- The keyword `transactionGasPrice`: zero passes in the genesis block only. -/
def transactionGasPrice (hash : Bytes) : Double → Bool
  | .finite value =>
    if value < configuration.minimumGasPrice then
      value = 0 ∧ (configuration.height = configuration.genesisHeight ∨
        hash ∈ configuration.genesisTransactions)
    else value ≤ configuration.maximumGasPrice
  | .infinite => false

/-- The keyword `transactionGasLimit`. -/
def transactionGasLimit : Double → Bool
  | .finite value =>
    (configuration.minimumGasLimit : Int) ≤ value ∧ value ≤ configuration.maximumGasLimit
  | .infinite => false

/-- The keyword `bytecode`: a bound that is not an integer makes a pattern without matches. -/
def bytecode (data : Bytes) : Bool :=
  configuration.maximumGasLimit % 16 = 0 ∧ 2 * data.length ≤ configuration.maximumGasLimit / 16

/-- The keyword `bigInt` without a maximum. -/
def bigInt (value : Nat) : Bool := value < 2 ^ 256

/-- `transactionStrict`. -/
def transactionStrict (transaction : TransactionData) : Bool :=
  transaction.hash.length = hashSize ∧ configuration.network transaction.network ∧
    (∀ recipient ∈ transaction.recipient, recipient.length = addressSize) ∧
    bigInt transaction.value ∧ configuration.transactionGasLimit transaction.gasLimit ∧
    configuration.transactionGasPrice transaction.hash transaction.gasPrice ∧
    bigInt transaction.nonce ∧ configuration.bytecode transaction.data ∧
    transaction.sender.length = addressSize ∧
    transaction.senderPublicKey.length = publicKeySize ∧
    (transaction.v = .finite 0 ∨ transaction.v = .finite 1) ∧
    transaction.r.length = 32 ∧ transaction.s.length = 32 ∧
    (∀ signature ∈ transaction.legacySecondSignature, signature.length = 65)

end TransactionConfiguration

/-! ## The factory -/

/-- The encodings, the hash and the curve, and the addresses of a public key. -/
structure Wallets extends Viem where
  keccak256 : Bytes → Bytes
  isLowS : (r s : Bytes) → Bool
  recoverPublicKey : (message r s : Bytes) → (v : Double) → Option Bytes
  address : Bytes → Bytes
  legacyAddress : Bytes → Bytes

inductive TransactionFactoryError
  /-- `InvalidTransactionBytesError`. -/
  | invalidBytes (cause : TransactionError)
  /-- `TransactionSchemaError`. -/
  | schema
  deriving DecidableEq, Repr

structure Transaction where
  data : TransactionData
  serialized : Bytes
  deriving DecidableEq, Repr

namespace TransactionFactory

variable (wallets : Wallets) (configuration : TransactionConfiguration)

open TransactionSerializer

def toHash (transaction : TransactionSerializable) : Except TransactionError Bytes := do
  let serialized ← serialize wallets.toViem
    { transaction with legacySecondSignature := none }
  return wallets.keccak256 serialized

def toHashUnsigned (transaction : TransactionSerializable) : Except TransactionError Bytes := do
  let serialized ← serializeUnsigned wallets.toViem transaction
  return wallets.keccak256 serialized

def computeCryptoData (transaction : TransactionSerializable) :
    Except TransactionError TransactionData :=
  if wallets.isLowS transaction.r transaction.s then do
    let unsignedHash ← toHashUnsigned wallets transaction
    let hash ← toHash wallets transaction
    match wallets.recoverPublicKey unsignedHash transaction.r transaction.s transaction.v with
    | none => .error .notRecoverable
    | some senderPublicKey =>
      return { transaction with
        hash, senderPublicKey
        sender := wallets.address senderPublicKey
        senderLegacyAddress := wallets.legacyAddress senderPublicKey }
  else .error .nonCanonicalSignature

def fromBytes (serialized : Bytes) : Except TransactionFactoryError Transaction := do
  let transaction ← (TransactionDeserializer.deserialize serialized).mapError .invalidBytes
  let data ← (computeCryptoData wallets transaction).mapError .invalidBytes
  if configuration.transactionStrict data then return { data, serialized } else .error .schema

/-- A transaction of the pool is not checked again. -/
def fromPoolData (data : TransactionData) : Except TransactionError Transaction := do
  let serialized ← serialize wallets.toViem data.toTransactionSerializable
  return { data, serialized }

end TransactionFactory

/-! ## What the deserializer leaves -/

namespace TransactionDeserializer

variable {field : TransactionField}

variable {value bytes : Bytes} {n : Nat} {x : Double} {nine : List Bytes}

theorem assertCanonicalInteger_eq_ok {u : Unit} :
    assertCanonicalInteger value field = .ok u ↔ Shortest value := by
  unfold assertCanonicalInteger
  split <;> simp [*]

theorem parseBigInt_eq_ok (h : parseBigInt value field = .ok n) : minimal n = value := by
  obtain ⟨_, shortest, parsed⟩ := bind_eq_ok.mp h
  rw [← ok.inj parsed, minimal_ofBig (assertCanonicalInteger_eq_ok.mp shortest)]

theorem parseSignaturePart_eq_ok {part : Bytes} (h : parseSignaturePart value field = .ok part) :
    minimal (ofBig part) = value := by
  unfold parseSignaturePart at h
  split at h
  · cases h
  · obtain ⟨_, shortest, h⟩ := bind_eq_ok.mp h
    split at h
    · cases h
    · rw [← ok.inj h, ofBig_append, ofBig_replicate_zero, Nat.zero_mul,
        Nat.zero_add, minimal_ofBig (assertCanonicalInteger_eq_ok.mp shortest)]

theorem parseAddress_eq_ok {recipient : Option Bytes}
    (h : parseAddress value = .ok recipient) : recipient.getD [] = value := by
  unfold parseAddress at h
  split at h
  · next empty => rw [← ok.inj h, empty]; rfl
  · split at h
    · rw [← ok.inj h]
      rfl
    · cases h

open TransactionSerializer (fieldsOf secondSignature toBytesCompat bigintCompat)

variable {viem : Viem}

theorem bigintCompat_eq : bigintCompat viem n = minimal n := by
  unfold bigintCompat
  split
  · next zero =>
      rw [zero]
      rfl
  · next nonzero => exact viem.bigintToBytes_eq n nonzero

/-- A number that can be written again was read exactly. -/
theorem toBytesCompat_eq_ok : toBytesCompat viem x = .ok bytes ↔
    ∃ n : Nat, x = .finite n ∧ n ≤ maxSafeInteger ∧ bytes = minimal n := by
  unfold toBytesCompat
  split
  · next zero =>
      rw [zero]
      constructor
      · intro h
        exact ⟨0, rfl, Nat.zero_le _, (ok.inj h).symm⟩
      · rintro ⟨n, same, -, rfl⟩
        rw [← Int.ofNat.inj (finite.inj same)]
        rfl
  · next nonzero => exact viem.numberToBytes_eq_ok x nonzero bytes

theorem natAbs_lt_of_safe (h : n ≤ maxSafeInteger) : (n : Int).natAbs < 2 ^ 53 := by
  unfold maxSafeInteger at h
  omega

theorem parseNumber_eq_ok (h : parseNumber value field = .ok x)
    (written : toBytesCompat viem x = .ok bytes) : bytes = value := by
  obtain ⟨_, shortest, parsed⟩ := bind_eq_ok.mp h
  obtain ⟨n, rfl, small, rfl⟩ := toBytesCompat_eq_ok.mp written
  have exact' := eq_of_ofInt (ok.inj parsed) (natAbs_lt_of_safe small)
  rw [← Int.ofNat.inj exact', minimal_ofBig (assertCanonicalInteger_eq_ok.mp shortest)]

/-- The same for `v`, which is taken apart and put together again. -/
theorem parseNumber_v_eq_ok (h : parseNumber value .v = .ok x)
    (bit : x - ((x - 35).floorHalf * 2 + 35) = .finite 0 ∨
      x - ((x - 35).floorHalf * 2 + 35) = .finite 1) (written : toBytesCompat viem
      ((x - 35).floorHalf * 2 + 35 + (x - ((x - 35).floorHalf * 2 + 35))) = .ok bytes) :
    bytes = value := by
  refine parseNumber_eq_ok h (?_ : toBytesCompat viem x = _)
  generalize (x - 35).floorHalf * 2 + 35 = base at bit written
  obtain ⟨n, sum, small, rfl⟩ := toBytesCompat_eq_ok.mp written
  obtain ⟨a, b, rfl, difference, total⟩ := eq_of_add sum (natAbs_lt_of_safe small)
  have narrow : b.natAbs < 2 ^ 53 := by
    rw [difference] at bit
    obtain zero | one := bit
    · rw [finite.inj zero]
      decide
    · rw [finite.inj one]
      decide
  obtain ⟨c, d, rfl, same, apart⟩ := eq_of_sub difference narrow
  have : c = n := by
    have := finite.inj same
    omega
  rw [this]
  exact toBytesCompat_eq_ok.mpr ⟨n, rfl, small, rfl⟩

theorem secondSignature_eq {transaction : TransactionSerializable} {more : List Bytes}
    (h : transaction.legacySecondSignature = legacySecondSignature more) :
    secondSignature transaction =
      if more.length = 1 ∧ more ≠ [[]] then more else [] := by
  rw [secondSignature, h]
  match more with
  | [] => rfl
  | [signature] => by_cases empty : signature = [] <;> simp [legacySecondSignature, empty]
  | _ :: _ :: _ => simp [legacySecondSignature]

/-- The fields are recovered from the transaction, but for those after the tenth. -/
theorem ofFields_eq_ok {fields : List Bytes} {transaction : TransactionSerializable}
    (h : ofFields fields = .ok transaction)
    (bit : transaction.v = .finite 0 ∨ transaction.v = .finite 1)
    (written : fieldsOf viem transaction = .ok nine) :
    ∃ more, fields = nine ++ more ∧ nine.length = 9 ∧
      transaction.legacySecondSignature = legacySecondSignature more := by
  unfold ofFields at h
  split at h
  · next nonce gasPrice gasLimit recipient value data v r s more =>
      obtain ⟨_, readNonce, h⟩ := bind_eq_ok.mp h
      obtain ⟨_, readGasPrice, h⟩ := bind_eq_ok.mp h
      obtain ⟨_, readGasLimit, h⟩ := bind_eq_ok.mp h
      obtain ⟨_, readRecipient, h⟩ := bind_eq_ok.mp h
      obtain ⟨_, readValue, h⟩ := bind_eq_ok.mp h
      obtain ⟨_, readV, h⟩ := bind_eq_ok.mp h
      obtain ⟨_, readR, h⟩ := bind_eq_ok.mp h
      obtain ⟨_, readS, h⟩ := bind_eq_ok.mp h
      obtain rfl := ok.inj h
      obtain ⟨_, writtenGasPrice, written⟩ := bind_eq_ok.mp written
      obtain ⟨_, writtenGasLimit, written⟩ := bind_eq_ok.mp written
      obtain ⟨_, writtenV, written⟩ := bind_eq_ok.mp written
      obtain rfl := ok.inj written
      refine ⟨more, ?_, rfl, rfl⟩
      simp only [bigintCompat_eq]
      rw [parseBigInt_eq_ok readNonce, parseNumber_eq_ok readGasPrice writtenGasPrice,
        parseNumber_eq_ok readGasLimit writtenGasLimit, parseAddress_eq_ok readRecipient,
        parseBigInt_eq_ok readValue, parseNumber_v_eq_ok readV bit writtenV,
        parseSignaturePart_eq_ok readR, parseSignaturePart_eq_ok readS]
      rfl
  · cases h

/-- The bytes are the encoding of nine fields, or of ten of which the last is not empty. -/
def Canonical (serialized : Bytes) : Prop :=
  ∃ items, serialized = list items ∧
    (items.length = 9 ∨ items.length = 10 ∧ items.drop 9 ≠ [[]])

end TransactionDeserializer

namespace TransactionFactory

open TransactionDeserializer TransactionSerializer

variable {wallets : Wallets} {configuration : TransactionConfiguration}

theorem computeCryptoData_eq_ok {transaction : TransactionSerializable} {data : TransactionData}
    (h : computeCryptoData wallets transaction = .ok data) :
    data.toTransactionSerializable = transaction ∧
      data.senderLegacyAddress = wallets.legacyAddress data.senderPublicKey ∧
      ∃ nine, fieldsOf wallets.toViem transaction = .ok nine ∧
        data.hash = wallets.keccak256 (list nine) := by
  unfold computeCryptoData at h
  split at h
  · obtain ⟨_, _, h⟩ := bind_eq_ok.mp h
    obtain ⟨hash, hashed, h⟩ := bind_eq_ok.mp h
    split at h
    · cases h
    · obtain rfl := ok.inj h
      obtain ⟨bytes, written, hashed⟩ := bind_eq_ok.mp hashed
      obtain ⟨nine, writtenNine, written⟩ := bind_eq_ok.mp written
      refine ⟨rfl, rfl, nine, writtenNine, ?_⟩
      rw [← ok.inj hashed, ← ok.inj written]
      simp [secondSignature, wallets.toRlp_eq]
  · cases h

variable {transaction : Transaction}

variable {serialized : Bytes}

/-- The steps of the factory. -/
theorem fromBytes_eq_ok :
    fromBytes wallets configuration serialized = .ok transaction ↔
      transaction.serialized = serialized ∧
      (∃ decoded, deserialize serialized = .ok decoded ∧
        computeCryptoData wallets decoded = .ok transaction.data) ∧
      configuration.transactionStrict transaction.data := by
  simp only [fromBytes, bind_eq_ok, mapError_eq_ok]
  constructor
  · rintro ⟨decoded, read, data, computed, h⟩
    split at h
    · next strict =>
        obtain rfl := ok.inj h
        exact ⟨rfl, ⟨decoded, read, computed⟩, strict⟩
    · cases h
  · rintro ⟨rfl, ⟨decoded, read, computed⟩, strict⟩
    exact ⟨decoded, read, transaction.data, computed, if_pos strict⟩

section

variable (h : fromBytes wallets configuration serialized = .ok transaction)
include h

theorem serialized_of_fromBytes : transaction.serialized = serialized :=
  (fromBytes_eq_ok.mp h).1

/-- An accepted transaction, with the fields that were read and those that are written. -/
theorem fields_of_fromBytes :
    ∃ nine more, RlpReader.readFields serialized = .ok (nine ++ more) ∧ nine.length = 9 ∧
      transaction.data.legacySecondSignature = legacySecondSignature more ∧
      fieldsOf wallets.toViem transaction.data.toTransactionSerializable =
        .ok nine ∧
      transaction.data.hash = wallets.keccak256 (list nine) := by
  obtain ⟨-, ⟨decoded, read, computed⟩, strict⟩ := fromBytes_eq_ok.mp h
  obtain ⟨fields, readFields, parsed⟩ := bind_eq_ok.mp read
  rw [mapError_eq_ok] at readFields
  obtain ⟨rfl, -, nine, written, hash⟩ := computeCryptoData_eq_ok computed
  have bit : transaction.data.v = .finite 0 ∨ transaction.data.v = .finite 1 := by
    simp only [TransactionConfiguration.transactionStrict, decide_eq_true_eq] at strict
    exact strict.2.2.2.2.2.2.2.2.2.2.1
  obtain ⟨more, rfl, length, second⟩ := ofFields_eq_ok parsed bit written
  exact ⟨nine, more, readFields, length, second, written, hash⟩

end

theorem serialize_of_fieldsOf {viem : Viem} {transaction : TransactionSerializable}
    {nine : List Bytes} (h : fieldsOf viem transaction = .ok nine) :
    serialize viem transaction =
      .ok (list (nine ++ secondSignature transaction)) := by
  rw [serialize, h, ← viem.toRlp_eq]
  rfl

/-- Exactly the canonical bytes are written again. -/
theorem serialize_eq_iff (h : fromBytes wallets configuration serialized = .ok transaction) :
    serialize wallets.toViem transaction.data.toTransactionSerializable = .ok serialized ↔
      Canonical serialized := by
  obtain ⟨nine, more, read, length, second, written, -⟩ := fields_of_fromBytes h
  rw [serialize_of_fieldsOf written, secondSignature_eq second]
  constructor
  · intro same
    refine ⟨_, (ok.inj same).symm, ?_⟩
    split
    · next last =>
        refine .inr ⟨by rw [length_append, length, last.1], ?_⟩
        rw [← length, drop_left]
        exact last.2
    · left
      rw [append_nil, length]
  · rintro ⟨items, rfl, count⟩
    have fields := RlpReader.readFields_list read (by omega)
    subst fields
    rw [length_append, length, ← length, drop_left] at count
    obtain none | ⟨one, last⟩ := count
    · have : more = [] := eq_nil_of_length_eq_zero (by omega)
      simp [this]
    · rw [if_pos ⟨by omega, last⟩]

/-- Among the accepted byte strings exactly the canonical ones are written back, they are
determined by the transaction, and their hash is the transaction's where there is no second
signature. -/
theorem canonical_wire_encoding {serialized : Bytes} {transaction : Transaction}
    (h : fromBytes wallets configuration serialized = .ok transaction) :
    (serialize wallets.toViem transaction.data.toTransactionSerializable =
        .ok serialized ↔ Canonical serialized) ∧
      (∀ serialized' transaction', fromBytes wallets configuration serialized' = .ok transaction' →
        Canonical serialized → Canonical serialized' →
        transaction'.data.toTransactionSerializable =
          transaction.data.toTransactionSerializable → serialized' = serialized) ∧
      (Canonical serialized → transaction.data.legacySecondSignature = none →
        wallets.keccak256 serialized = transaction.data.hash) := by
  refine ⟨serialize_eq_iff h, ?_, ?_⟩
  · intro serialized' transaction' h' canonical canonical' same
    have written := (serialize_eq_iff h).mpr canonical
    have written' := (serialize_eq_iff h').mpr canonical'
    rw [same, written] at written'
    exact (ok.inj written').symm
  · intro canonical unsigned
    have written := (serialize_eq_iff h).mpr canonical
    obtain ⟨nine, more, -, -, -, fields, hash⟩ := fields_of_fromBytes h
    rw [serialize_of_fieldsOf fields, secondSignature, unsigned] at written
    rw [hash, ← ok.inj written]
    simp

/-- The gas limits and prices of the development network. -/
def devnet : TransactionConfiguration where
  chainId := 10000
  minimumGasPrice := 5000000000
  maximumGasPrice := 10000000000000
  minimumGasLimit := 21000
  maximumGasLimit := 5000000
  height := 1
  genesisHeight := 0
  genesisTransactions := []

def sampleWallets : Wallets where
  toViem := .reference
  keccak256 _ := replicate 32 0
  isLowS _ _ := true
  recoverPublicKey _ _ _ _ := some (replicate 33 2)
  address _ := replicate 20 1
  legacyAddress _ := replicate 21 1

/-- A transfer, as its nine fields. -/
def sampleFields : List Bytes :=
  [[1], [0x01, 0x2a, 0x05, 0xf2, 0x00], [0x52, 0x08], replicate 20 0x11, [1], [],
    [0x4e, 0x43], [1], [1]]

theorem canonical_wire_encoding_sampleFields :
    ∃ transaction, fromBytes sampleWallets devnet (list sampleFields) = .ok transaction ∧
      serialize sampleWallets.toViem transaction.data.toTransactionSerializable =
        .ok (list sampleFields) := by
  have accepted : (fromBytes sampleWallets devnet (list sampleFields)).toOption.isSome := by
    decide +kernel
  obtain ⟨transaction, accepted⟩ := Option.isSome_iff_exists.mp accepted
  rw [toOption_eq_some] at accepted
  exact ⟨transaction, accepted,
    (canonical_wire_encoding accepted).1.mpr ⟨sampleFields, rfl, .inl rfl⟩⟩

/-- Two more fields are accepted and forgotten. -/
theorem exists_accepted_not_written_back :
    ¬∀ (wallets : Wallets) (configuration : TransactionConfiguration) (serialized : Bytes)
      (transaction : Transaction), fromBytes wallets configuration serialized = .ok transaction →
      serialize wallets.toViem transaction.data.toTransactionSerializable =
        .ok serialized := by
  intro claim
  have accepted :
      (fromBytes sampleWallets devnet (list (sampleFields ++ [[], []]))).toOption.isSome := by
    decide +kernel
  obtain ⟨transaction, accepted⟩ := Option.isSome_iff_exists.mp accepted
  rw [toOption_eq_some] at accepted
  have written := claim _ _ _ _ accepted
  have evaluated :
      (fromBytes sampleWallets devnet (list (sampleFields ++ [[], []]))).toOption.map
        (fun transaction => serialize sampleWallets.toViem
          transaction.data.toTransactionSerializable) ≠
      some (.ok (list (sampleFields ++ [[], []]))) := by
    decide +kernel
  rw [accepted] at evaluated
  exact evaluated (congrArg some written)

/-- A transaction of which only the size matters. -/
def blank (length : Nat) : Transaction where
  data :=
    { network := .finite 1, recipient := none, value := 0, gasPrice := .finite 5, gasLimit := .finite 21000
      nonce := 0, data := [], v := .finite 37, r := [], s := [], legacySecondSignature := none, hash := []
      sender := [], senderPublicKey := [], senderLegacyAddress := [] }
  serialized := replicate length 0

end TransactionFactory

end Mainsail
