import Mainsail.Crypto.BlockFactory
import Mainsail.Crypto.Proposals

/-!
# Proposals from bytes

The deserializer and the factory of `crypto-proposal`. The length before the lock proof is read
from the payload, and what the lock proof leaves of its bytes is not looked at.
-/

namespace Mainsail

open Serializer UInt8 BlockFactory Except List

/-- `Contracts.Crypto.ProposalDataSerializable`. -/
structure ProposalDataSerializable extends ProposalDataUnsigned where
  signature : Bytes
  deriving DecidableEq, Repr

/-- The block header and the lock proof are read from the payload. -/
structure SerializedProposal extends ProposalDataSerializable where
  blockHeader : BlockHeaderRaw
  hash : Bytes
  lockProof : Option AggregatedSignature
  serialized : Bytes
  deriving DecidableEq, Repr

/-- `Contracts.Crypto.ProposedPayload`. -/
structure ProposedPayload where
  block : Block
  lockProof : Option AggregatedSignature
  serialized : Bytes
  deriving DecidableEq, Repr

inductive ProposalError
  | deserialization (error : BufferError)
  /-- `InvalidProposalBytesError`. -/
  | trailing (length : Nat)
  | block (error : BlockError)
  /-- `MessageSchemaError`: the schema, and the message where it is not that of the validator. -/
  | schema (name : String) (message : Option String)
  deriving DecidableEq, Repr

namespace ProposalSerializer

@[reducible] def schema : Schema :=
  schemaUnsigned ++ [("signature", .mandatory .consensusSignature)]

@[reducible] def proposalRecord (proposal : ProposalDataSerializable) : schema.Data :=
  (proposal.round, proposal.validRound, proposal.validatorIndex, proposal.payloadSerialized,
    proposal.signature, ())

def serializeProposal (proposal : ProposalDataSerializable) : Except BufferError Bytes :=
  serialize schema (proposalRecord proposal)
    (unsignedProposalSize proposal.toProposalDataUnsigned + signatureSize)

def ofProposalRecord (record : schema.Data) : ProposalDataSerializable :=
  let (round, validRound, validatorIndex, payloadSerialized, signature, _) := record
  { round, validRound, validatorIndex, payloadSerialized, signature }

def deserializeProposal (serialized : Bytes) : Except ProposalError ProposalDataSerializable := do
  let (record, rest) ← (deserialize schema 0 serialized).mapError .deserialization
  if rest.length ≠ 0 then .error (.trailing rest.length) else return ofProposalRecord record

/-- The bytes after the lock proof are dropped. -/
def deserializeLockProof (serialized : Bytes) : Except ProposalError AggregatedSignature := do
  let (record, _) ← (deserialize lockProofSchema 0 serialized).mapError .deserialization
  return { signature := record.1, validators := record.2.1 }

end ProposalSerializer

namespace ProposalFactory

open ProposalSerializer

variable (sha256 : Bytes → Bytes) (wallets : Wallets) (configuration : TransactionConfiguration)
variable (roundValidators : Nat → Nat)

/-- `parseSerializedPayload`: the block number at its place after the lock proof. -/
def parseSerializedPayload (serialized : Bytes) : Option Nat :=
  let offset := 1 + (serialized.headD 0).toNat + 1 + 6
  if serialized.length < 15 then none
  else if offset + 4 > serialized.length then none
  else some (Endian.ofLittle ((serialized.drop offset).take 4))

/-- The schema `proposal`. Without a block number the milestone is that of the height. -/
def proposalSchema (proposal : ProposalDataSerializable) : Bool :=
  proposal.payloadSerialized ≠ [] ∧ proposal.signature.length = signatureSize ∧
    proposal.validatorIndex < roundValidators
      ((parseSerializedPayload proposal.payloadSerialized).getD configuration.height)

/-- The schema `lockProof`, with the number of the block. -/
def lockProofSchema (number : Nat) (lockProof : AggregatedSignature) : Bool :=
  lockProof.signature.length = signatureSize ∧ lockProof.validators.length = roundValidators number

def verifyLockProof (number : Nat) (lockProof : Option AggregatedSignature) :
    Except ProposalError Unit :=
  if lockProof.all (lockProofSchema roundValidators number) then .ok ()
  else .error (.schema "lockProof" none)

/-- The lock proof and what follows it. -/
def getLockProof (buffer : Bytes) :
    Except ProposalError (Option AggregatedSignature × Bytes) := do
  let (lockProofLength, rest) ← (ByteBuffer.readUint 1 buffer).mapError .deserialization
  if lockProofLength > 0 then
    let (lockProofBuffer, rest) ←
      (ByteBuffer.readBytes lockProofLength rest).mapError .deserialization
    let lockProof ← deserializeLockProof lockProofBuffer
    return (some lockProof, rest)
  else return (none, rest)

def getLockProofAndBlockHeader (bytes : Bytes) :
    Except ProposalError ((BlockHeaderRaw × Bytes) × Option AggregatedSignature) := do
  let (lockProof, rest) ← getLockProof bytes
  let (header, hash) ← (headerFromBytes sha256 rest).mapError .block
  verifyLockProof roundValidators header.number lockProof
  return ((header, hash), lockProof)

/-- The checks on `validRound`. -/
def verifyValidRound (proposal : ProposalDataSerializable)
    (lockProof : Option AggregatedSignature) : Except ProposalError Unit :=
  match proposal.validRound, lockProof with
  | some _, none => .error (.schema "proposal" (some "validRound requires a lockProof"))
  | none, some _ => .error (.schema "proposal" (some "lockProof requires a validRound"))
  | none, none => .ok ()
  | some validRound, some _ =>
    if validRound ≥ proposal.round then
      .error (.schema "proposal" (some "validRound must be lower than round"))
    else .ok ()

def makeProposalFromBytes (serialized : Bytes) : Except ProposalError SerializedProposal := do
  let proposal ← deserializeProposal serialized
  if proposalSchema configuration roundValidators proposal then
    let ((blockHeader, hash), lockProof) ←
      getLockProofAndBlockHeader sha256 roundValidators proposal.payloadSerialized
    verifyValidRound proposal lockProof
    return { proposal with blockHeader, hash, lockProof, serialized }
  else .error (.schema "proposal" none)

def makePayloadFromBytes (bytes : Bytes) : Except ProposalError ProposedPayload := do
  let (lockProof, rest) ← getLockProof bytes
  let block ← (fromBytes sha256 wallets configuration rest).mapError .block
  verifyLockProof roundValidators block.header.number lockProof
  return { block, lockProof, serialized := bytes }

variable {sha256 : Bytes → Bytes} {wallets : Wallets} {configuration : TransactionConfiguration}
variable {roundValidators : Nat → Nat}

/-! ## Proposals -/

theorem size_proposalRecord (proposal : ProposalDataSerializable) :
    schema.size (proposalRecord proposal) =
      unsignedProposalSize proposal.toProposalDataUnsigned + signatureSize := by
  have fields : schema.size (proposalRecord proposal) =
      4 + ((Field.optional .uint32).size proposal.validRound +
        (1 + ((4 + proposal.payloadSerialized.length) + (signatureSize + 0)))) := rfl
  rw [fields, unsignedProposalSize]
  cases proposal.validRound <;> simp only [Field.size, FieldType.size] <;> omega

variable {serialized buffer rest : Bytes}

theorem deserializeProposal_eq_ok {proposal : ProposalDataSerializable}
    (h : deserializeProposal serialized = .ok proposal) :
    serializeProposal proposal = .ok serialized := by
  obtain ⟨⟨record, rest⟩, read, h⟩ := bind_eq_ok.mp h
  simp only at h
  split at h
  · cases h
  · next exhausted =>
      obtain rfl := ok.inj h
      obtain rfl := eq_nil_of_length_eq_zero (not_not.mp exhausted)
      obtain ⟨fits, rfl⟩ :=
        deserialize_eq_ok_nil.mp (mapError_eq_ok.mp read)
      exact serialize_of_fits fits (size_proposalRecord _).le

theorem serializeProposal_of_makeProposalFromBytes {proposal : SerializedProposal}
    (h : makeProposalFromBytes sha256 configuration roundValidators serialized = .ok proposal) :
    serializeProposal proposal.toProposalDataSerializable = .ok serialized := by
  obtain ⟨data, read, h⟩ := bind_eq_ok.mp h
  split at h
  · obtain ⟨_, _, h⟩ := bind_eq_ok.mp h
    obtain ⟨_, _, h⟩ := bind_eq_ok.mp h
    obtain rfl := ok.inj h
    exact deserializeProposal_eq_ok read
  · cases h

/-! ## Payloads -/

/-- The bytes of the lock proof. -/
def encodeLockProof (lockProof : AggregatedSignature) : Bytes :=
  (ProposalSerializer.lockProofSchema.codec 0).encode
    (lockProof.signature, lockProof.validators, ())

/-- The size of a signature and the width of a bitmap. -/
def LockProofFits (lockProof : AggregatedSignature) : Prop :=
  (ProposalSerializer.lockProofSchema.codec 0).Fits (lockProof.signature, lockProof.validators, ())

theorem size_lockProof (lockProof : AggregatedSignature) :
    ProposalSerializer.lockProofSchema.size (lockProof.signature, lockProof.validators, ()) =
      lockProofSize := by
  simp only [Schema.size, Field.size, FieldType.size]
  decide

variable {lockProof : AggregatedSignature}

theorem length_encodeLockProof (fits : LockProofFits lockProof) :
    (encodeLockProof lockProof).length = lockProofSize := by
  rw [encodeLockProof, Schema.length_encode (n := 0) fits, size_lockProof]

theorem serializeLockProof_of_fits (fits : LockProofFits lockProof) :
    serializeLockProof lockProof = .ok (encodeLockProof lockProof) :=
  serialize_of_fits (n := 0) fits (size_lockProof lockProof).le

theorem deserializeLockProof_eq_ok (h : deserializeLockProof serialized = .ok lockProof) :
    LockProofFits lockProof ∧ ∃ padding, serialized = encodeLockProof lockProof ++ padding := by
  obtain ⟨⟨⟨signature, validators, _⟩, padding⟩, read, h⟩ := bind_eq_ok.mp h
  obtain rfl := ok.inj h
  obtain ⟨fits, split⟩ := (ProposalSerializer.lockProofSchema.codec 0).encode_decode
    (deserialize_eq_ok.mp (mapError_eq_ok.mp read))
  exact ⟨fits, padding, split⟩

/-- The first byte is the length of the lock proof and of what follows it up to the block. -/
inductive ReadsLockProof : Bytes → Option AggregatedSignature → Bytes → Prop
  | absent (rest : Bytes) : ReadsLockProof (0 :: rest) none rest
  | present (lockProof : AggregatedSignature) (padding rest : Bytes)
      (fits : LockProofFits lockProof)
      (short : lockProofSize + padding.length < 256) :
      ReadsLockProof (ofNat (lockProofSize + padding.length) ::
        (encodeLockProof lockProof ++ padding ++ rest)) (some lockProof) rest

theorem getLockProof_eq_ok {lockProof : Option AggregatedSignature}
    (h : getLockProof buffer = .ok (lockProof, rest)) : ReadsLockProof buffer lockProof rest := by
  obtain ⟨⟨length, remaining⟩, readLength, afterLength⟩ := bind_eq_ok.mp h
  rw [mapError_eq_ok, ByteBuffer.reads_readUint] at readLength
  obtain ⟨small, rfl⟩ := (Codec.little 1).encode_decode readLength
  simp only at afterLength
  split at afterLength
  · obtain ⟨⟨buffer, remaining'⟩, readBuffer, afterBuffer⟩ := bind_eq_ok.mp afterLength
    obtain ⟨proof, readProof, made⟩ := bind_eq_ok.mp afterBuffer
    rw [mapError_eq_ok, ByteBuffer.reads_readBytes] at readBuffer
    obtain ⟨rfl, rfl⟩ := (Codec.fixed length).encode_decode readBuffer
    obtain ⟨fits, padding, rfl⟩ := deserializeLockProof_eq_ok readProof
    obtain ⟨rfl, rfl⟩ := Prod.mk.inj (ok.inj made)
    have total : (encodeLockProof proof ++ padding).length = lockProofSize + padding.length := by
      rw [length_append, length_encodeLockProof fits]
    rw [total] at small ⊢
    exact .present proof padding remaining' fits small
  · next zero =>
      obtain ⟨rfl, rfl⟩ := Prod.mk.inj (ok.inj afterLength)
      obtain rfl : length = 0 := by omega
      exact .absent _

/-- The payload starts with no lock proof, or with the size of one. -/
def Unpadded (bytes : Bytes) : Prop :=
  bytes.head? = some 0 ∨ bytes.head? = some (ofNat lockProofSize)

/-- Exactly the payloads without padding are written back. -/
theorem ReadsLockProof.serializePayload_eq_iff
    {lockProof : Option AggregatedSignature} (h : ReadsLockProof buffer lockProof rest) :
    serializePayload rest lockProof = .ok buffer ↔ Unpadded buffer := by
  cases h with
  | absent => simp [serializePayload, Unpadded]
  | present lockProof padding _ fits short =>
    have written : serializePayload rest (some lockProof) =
        .ok (ofNat lockProofSize :: (encodeLockProof lockProof ++ rest)) := by
      simp [serializePayload, serializeLockProof_of_fits fits, bind, Except.bind, pure,
        Except.pure, length_encodeLockProof fits]
    have value : (ofNat (lockProofSize + padding.length)).toNat =
        lockProofSize + padding.length := by
      rw [toNat_ofNat', Nat.mod_eq_of_lt short]
    rw [written, Except.ok.injEq]
    constructor
    · intro same
      exact .inr (congrArg head? same).symm
    · rintro (zero | size)
      · have := congrArg toNat (Option.some.inj zero)
        rw [value] at this
        exact absurd this (Nat.ne_of_gt (Nat.add_pos_left (by decide) _))
      · have same : lockProofSize + padding.length = lockProofSize :=
          value.symm.trans (congrArg toNat (Option.some.inj size))
        have empty : padding = [] := eq_nil_of_length_eq_zero (by omega)
        simp [empty]

theorem makePayloadFromBytes_eq_ok {bytes : Bytes} {payload : ProposedPayload}
    (h : makePayloadFromBytes sha256 wallets configuration roundValidators bytes = .ok payload) :
    ReadsLockProof bytes payload.lockProof payload.block.serialized := by
  obtain ⟨⟨lockProof, rest⟩, readProof, h⟩ := bind_eq_ok.mp h
  obtain ⟨block, readBlock, h⟩ := bind_eq_ok.mp h
  obtain ⟨_, _, h⟩ := bind_eq_ok.mp h
  obtain rfl := ok.inj h
  have accepted := fromBytes_eq_ok (mapError_eq_ok.mp readBlock)
  rw [accepted.serialized_eq]
  exact getLockProof_eq_ok readProof

/-- Every accepted proposal is written back to its bytes, and exactly the accepted payloads
without padding are; so neither has a second encoding. -/
theorem canonical_proposals (sha256 : Bytes → Bytes) (wallets : Wallets)
    (configuration : TransactionConfiguration) (roundValidators : Nat → Nat) :
    (∀ bytes proposal,
        makeProposalFromBytes sha256 configuration roundValidators bytes = .ok proposal →
        serializeProposal proposal.toProposalDataSerializable = .ok bytes ∧
        ∀ bytes' proposal',
          makeProposalFromBytes sha256 configuration roundValidators bytes' = .ok proposal' →
          proposal'.toProposalDataSerializable = proposal.toProposalDataSerializable →
          bytes' = bytes) ∧
      (∀ bytes payload,
        makePayloadFromBytes sha256 wallets configuration roundValidators bytes = .ok payload →
        (serializePayload payload.block.serialized payload.lockProof = .ok bytes ↔ Unpadded bytes) ∧
        ∀ bytes' payload',
          makePayloadFromBytes sha256 wallets configuration roundValidators bytes' = .ok payload' →
          Unpadded bytes → Unpadded bytes' → payload'.block = payload.block →
          payload'.lockProof = payload.lockProof → bytes' = bytes) := by
  refine ⟨?_, ?_⟩
  · intro bytes proposal made
    have written := serializeProposal_of_makeProposalFromBytes made
    refine ⟨written, ?_⟩
    intro bytes' proposal' made' same
    have written' := serializeProposal_of_makeProposalFromBytes made'
    rw [same, written] at written'
    exact (ok.inj written').symm
  · intro bytes payload made
    have iff := (makePayloadFromBytes_eq_ok made).serializePayload_eq_iff
    refine ⟨iff, ?_⟩
    intro bytes' payload' made' unpadded unpadded' block lockProof
    have written := iff.mpr unpadded
    have written' := (makePayloadFromBytes_eq_ok made').serializePayload_eq_iff.mpr unpadded'
    rw [block, lockProof, written] at written'
    exact (ok.inj written').symm

/-- A payload with a lock proof and `padding` zero bytes after it. -/
def payloadOver (padding : Nat) : Bytes :=
  ofNat (lockProofSize + padding) ::
    (encodeLockProof { signature := replicate 96 0, validators := [true] } ++
      replicate padding 0 ++ blockOver [])

/-- A proposal of round 1 with that payload. -/
def proposalOver (padding : Nat) : Bytes :=
  (schema.codec 0).encode (1, some 0, 0, payloadOver padding, replicate 96 0, ())

open TransactionFactory

/-- A chain with one validator reads the payload. -/
def readPayload (padding : Nat) : Except ProposalError ProposedPayload :=
  makePayloadFromBytes (fun _ => replicate 32 0) sampleWallets devnet (fun _ => 1) (payloadOver padding)

/-- It reads the proposal. -/
def readProposal (padding : Nat) : Except ProposalError SerializedProposal :=
  makeProposalFromBytes (fun _ => replicate 32 0) devnet (fun _ => 1) (proposalOver padding)

/-- A proposal and its payload without padding, both accepted and written back. -/
theorem canonical_proposals_payloadOver :
    (∃ proposal, readProposal 0 = .ok proposal ∧
      serializeProposal proposal.toProposalDataSerializable = .ok (proposalOver 0)) ∧
    ∃ payload, readPayload 0 = .ok payload ∧ payload.lockProof.isSome = true ∧
      serializePayload payload.block.serialized payload.lockProof = .ok (payloadOver 0) := by
  have proposed : (readProposal 0).toOption.isSome = true := by decide +kernel
  have accepted : (readPayload 0).toOption.any (·.lockProof.isSome) = true := by decide +kernel
  obtain ⟨proposal, proposed⟩ := Option.isSome_iff_exists.mp proposed
  obtain ⟨payload, accepted, locked⟩ := (Option.any_eq_true _ _).mp accepted
  rw [toOption_eq_some] at proposed accepted
  obtain ⟨proposals, payloads⟩ := canonical_proposals (fun _ => replicate 32 0) sampleWallets devnet
    fun _ => 1
  exact ⟨⟨proposal, proposed, (proposals _ _ proposed).1⟩,
    payload, accepted, locked, (payloads _ _ accepted).1.mpr (.inr rfl)⟩

/-- A byte after the lock proof is accepted and forgotten. -/
theorem exists_payload_not_written_back :
    ¬∀ (sha256 : Bytes → Bytes) (wallets : Wallets) (configuration : TransactionConfiguration)
      (roundValidators : Nat → Nat) (bytes : Bytes) (payload : ProposedPayload),
      makePayloadFromBytes sha256 wallets configuration roundValidators bytes = .ok payload →
      serializePayload payload.block.serialized payload.lockProof = .ok bytes := by
  intro claim
  have accepted : ((readPayload 1).toOption.any fun payload =>
      serializePayload payload.block.serialized payload.lockProof ≠ .ok (payloadOver 1)) = true := by
    decide +kernel
  obtain ⟨payload, accepted, changed⟩ := (Option.any_eq_true _ _).mp accepted
  rw [toOption_eq_some] at accepted
  exact of_decide_eq_true changed (claim _ _ _ _ _ _ accepted)

end ProposalFactory

end Mainsail
