import Mainsail.Consensus.Data
import Mainsail.Serializer.Serializer

/-!
# Votes as bytes

`crypto-messages`: the wire form of a prevote or precommit, and the bytes a validator signs
for it. The two differ: the signed bytes name the chain and the previous block, and leave out
the index and the signature.
-/

namespace Mainsail

open Serializer MessageType

/-- The numeric value of `Enums.Crypto.MessageType`. -/
def MessageType.toNat : MessageType → Nat
  | .prevote => 1
  | .precommit => 2

def MessageType.parse : Nat → Option MessageType
  | 1 => some .prevote
  | 2 => some .precommit
  | _ => none

theorem MessageType.parse_eq_some {n : Nat} {type : MessageType} :
    parse n = some type ↔ type.toNat = n := by
  constructor
  · intro h
    unfold parse at h
    split at h
    · rw [← Option.some.inj h]; rfl
    · rw [← Option.some.inj h]; rfl
    · contradiction
  · rintro rfl
    cases type <;> rfl

theorem MessageType.toNat_inj {type type' : MessageType} (h : type.toNat = type'.toNat) :
    type = type' := by
  cases type <;> cases type' <;> simp_all [toNat]

/-- What a vote is for. -/
structure SignatureMessageData where
  type : MessageType
  blockNumber : Nat
  round : Nat
  blockHash : Option Bytes
  deriving DecidableEq, Repr

/-- The chain and the position in it that a vote is cast on. -/
structure SignatureMessageContext where
  genesisBlockHash : Bytes
  previousBlockHash : Bytes
  deriving DecidableEq, Repr

def Message.signatureData (m : Message) : SignatureMessageData :=
  ⟨m.type, m.blockNumber, m.round, m.blockHash⟩

namespace MessageSerializer

@[reducible] def messageFields : Schema := [ ("type", .mandatory .uint8),
  ("blockNumber", .mandatory .uint32),
  ("round", .mandatory .uint32),
  ("blockHash", .optional .blockHash)]

@[reducible] def schemaForSignature : Schema :=
  [("genesisBlockHash", .mandatory (.hash none)), ("previousBlockHash", .mandatory (.hash none))]
    ++ messageFields

@[reducible] def schema : Schema :=
  messageFields ++
    [("validatorIndex", .mandatory .uint8), ("signature", .mandatory .consensusSignature)]

/-- `blockHash ? hashSize : 0`, where an empty string counts as missing. -/
def blockHashLength (blockHash : Option Bytes) : Nat :=
  if (blockHash.getD []).isEmpty then 0 else hashSize

@[reducible] def signatureRecord (message : SignatureMessageData)
    (context : SignatureMessageContext) : schemaForSignature.Data :=
  (context.genesisBlockHash, context.previousBlockHash, message.type.toNat, message.blockNumber,
    message.round, message.blockHash, ())

def serializeMessageForSignature (message : SignatureMessageData)
    (context : SignatureMessageContext) : Except BufferError Bytes :=
  serialize schemaForSignature (signatureRecord message context)
    (hashSize + hashSize + 1 + 4 + 4 + 1 + blockHashLength message.blockHash)

@[reducible] def record (m : Message) : schema.Data :=
  (m.type.toNat, m.blockNumber, m.round, m.blockHash, m.validatorIndex, m.signature, ())

def serializeMessage (m : Message) : Except BufferError Bytes :=
  serialize schema (record m)
    (1 + 4 + 4 + 1 + 1 + blockHashLength m.blockHash + signatureSize)

end MessageSerializer

namespace MessageSerializer

theorem blockHashLength_some {hash : Bytes} (h : hash.length = hashSize) :
    blockHashLength (some hash) = hashSize := by
  have nonempty : hash ≠ [] := List.ne_nil_of_length_pos (by rw [h]; decide)
  simp [blockHashLength, nonempty]

theorem size_record {m : Message} (h : ∀ hash ∈ m.blockHash, hash.length = hashSize) :
    schema.size (record m) = 1 + 4 + 4 + 1 + 1 + blockHashLength m.blockHash + signatureSize := by
  cases blockHash : m.blockHash with
  | none => rw [record, blockHash]; rfl
  | some hash => rw [record, blockHash, blockHashLength_some (h hash blockHash)]; rfl

end MessageSerializer

/-! ## The signed bytes -/

/-- The hashes have the size of hashes. -/
structure SignatureMessageData.WellFormed (message : SignatureMessageData)
    (context : SignatureMessageContext) : Prop where
  genesisBlockHash : context.genesisBlockHash.length = hashSize
  previousBlockHash : context.previousBlockHash.length = hashSize
  blockHash : ∀ hash ∈ message.blockHash, hash.length = hashSize

namespace MessageSerializer

variable {message message' : SignatureMessageData} {context context' : SignatureMessageContext}
variable {bs : Bytes}

theorem round_lt_of_serializeMessageForSignature
    (h : serializeMessageForSignature message context = .ok bs) : message.round < 256 ^ 4 := by
  obtain ⟨⟨-, -, -, -, round, -⟩, -⟩ := (serialize_eq_ok (n := 0)).mp h
  exact round

variable (wf : message.WellFormed context)
include wf

theorem fits_signatureRecord (h : serializeMessageForSignature message context = .ok bs) :
    (schemaForSignature.codec 0).Fits (signatureRecord message context) := by
  obtain ⟨accepts, -, -⟩ := (serialize_eq_ok (n := 0)).mp h
  obtain ⟨-, -, type, blockNumber, round, -, -⟩ := accepts
  exact ⟨wf.genesisBlockHash, wf.previousBlockHash, type, blockNumber, round, wf.blockHash, trivial⟩

/-- The signed bytes determine the vote and its context. -/
theorem serializeMessageForSignature_inj (wf' : message'.WellFormed context')
    (h : serializeMessageForSignature message context = .ok bs)
    (h' : serializeMessageForSignature message' context' = .ok bs) :
    message = message' ∧ context = context' := by
  have same :=
    serialize_inj (fits_signatureRecord wf h) (fits_signatureRecord wf' h') h h'
  obtain ⟨type, blockNumber, round, blockHash⟩ := message
  obtain ⟨type', blockNumber', round', blockHash'⟩ := message'
  obtain ⟨genesis, previous⟩ := context
  obtain ⟨genesis', previous'⟩ := context'
  change ((genesis, previous, type.toNat, blockNumber, round, blockHash, ()) :
    Bytes × Bytes × Nat × Nat × Nat × Option Bytes × Unit) = _ at same
  simp only [signatureRecord, Prod.mk.injEq] at same
  obtain ⟨rfl, rfl, types, rfl, rfl, rfl, -⟩ := same
  obtain rfl := toNat_inj types
  exact ⟨rfl, rfl⟩

theorem length_serializeMessageForSignature
    (h : serializeMessageForSignature message context = .ok bs) :
    bs.length = 74 ∨ bs.length = 106 := by
  have fits := fits_signatureRecord wf h
  obtain ⟨-, rfl, -⟩ := (serialize_eq_ok (n := 0)).mp h
  rw [Schema.length_encode fits]
  cases blockHash : message.blockHash with
  | none => exact .inl (by rw [signatureRecord, blockHash]; rfl)
  | some hash => exact .inr (by rw [signatureRecord, blockHash]; rfl)

end MessageSerializer

/-! ## Votes from bytes -/

inductive MessageError
  /-- `MessageDeserializationError`. -/
  | deserialization (message : String)
  /-- `MessageSchemaError`. -/
  | schema
  deriving DecidableEq, Repr

/-- What the `message` schema asks for. The index is one of the validators of the block number. -/
structure Message.Admitted (roundValidators : Nat → Nat) (m : Message) : Prop where
  blockNumber : 1 ≤ m.blockNumber
  blockHash : ∀ hash ∈ m.blockHash, hash.length = hashSize
  validatorIndex : m.validatorIndex < roundValidators m.blockNumber
  signature : m.signature.length = signatureSize

instance (roundValidators : Nat → Nat) (m : Message) : Decidable (m.Admitted roundValidators) :=
  decidable_of_iff (1 ≤ m.blockNumber ∧ (∀ hash ∈ m.blockHash, hash.length = hashSize) ∧
      m.validatorIndex < roundValidators m.blockNumber ∧ m.signature.length = signatureSize)
    ⟨fun ⟨a, b, c, d⟩ => ⟨a, b, c, d⟩, fun ⟨a, b, c, d⟩ => ⟨a, b, c, d⟩⟩

namespace MessageFactory

open MessageSerializer

def deserializeMessage (serialized : Bytes) : Except MessageError schema.Data :=
  match deserialize schema 0 serialized with
  | .error error => .error (.deserialization error.message)
  | .ok (data, []) => .ok data
  | .ok (_, rest) => .error (.deserialization (toString rest.length ++ " bytes remaining"))

def makeMessageFromBytes (roundValidators : Nat → Nat) (bytes : Bytes) :
    Except MessageError Message := do
  let (type, blockNumber, round, blockHash, validatorIndex, signature, _) ← deserializeMessage bytes
  match parse type with
  | none => .error .schema
  | some type =>
    let m : Message := ⟨type, blockNumber, round, blockHash, validatorIndex, signature⟩
    if m.Admitted roundValidators then .ok m else .error .schema

theorem deserializeMessage_eq_ok {serialized : Bytes} {data : schema.Data} :
    deserializeMessage serialized = .ok data ↔
      (schema.codec 0).Fits data ∧ serialized = (schema.codec 0).encode data := by
  rw [← deserialize_eq_ok_nil]
  unfold deserializeMessage
  split
  · next failed =>
      rw [failed]
      simp
  · next read =>
      rw [read]
      simp
  · next more read =>
      rw [read]
      simpa using fun _ => more

/-- The factory accepts the bytes of a vote that the schema admits, and those only. -/
theorem makeMessageFromBytes_eq_ok {roundValidators : Nat → Nat} {bytes : Bytes} {m : Message} :
    makeMessageFromBytes roundValidators bytes = .ok m ↔
      m.Admitted roundValidators ∧ serializeMessage m = .ok bytes := by
  simp only [makeMessageFromBytes, Except.bind_eq_ok, deserializeMessage_eq_ok]
  constructor
  · rintro ⟨⟨n, blockNumber, round, blockHash, validatorIndex, signature, _⟩, ⟨fits, rfl⟩, made⟩
    simp only at made
    split at made
    · contradiction
    · next type parsed =>
        obtain rfl := parse_eq_some.mp parsed
        split at made
        · next admitted =>
            obtain rfl := Except.ok.inj made
            exact ⟨admitted, serialize_of_fits fits (size_record admitted.blockHash).le⟩
        · contradiction
  · rintro ⟨admitted, written⟩
    have fits : (schema.codec 0).Fits (record m) := by
      obtain ⟨⟨type, blockNumber, round, -, validatorIndex, -, -⟩, -, -⟩ :=
        (serialize_eq_ok (n := 0)).mp written
      exact ⟨type, blockNumber, round, admitted.blockHash, validatorIndex, admitted.signature,
        trivial⟩
    obtain ⟨-, rfl, -⟩ := (serialize_eq_ok (n := 0)).mp written
    refine ⟨record m, ⟨fits, rfl⟩, ?_⟩
    simp only [parse_eq_some.mpr rfl, if_pos admitted]

end MessageFactory

end Mainsail
