import Mainsail.Consensus.Data
import Mainsail.Crypto.Blocks

/-!
# Proposals as bytes

`crypto-proposal`: the bytes a proposer signs, and the payload in them. The payload starts with
the length of the lock proof, which is 0 where there is none, and ends with the block.
-/

namespace Mainsail

/-- `Contracts.Crypto.ProposalDataSerializableUnsigned`. -/
structure ProposalDataUnsigned where
  round : Nat
  validRound : Option Nat
  validatorIndex : Nat
  payloadSerialized : Bytes
  deriving DecidableEq, Repr

namespace ProposalSerializer

@[reducible] def schemaUnsigned : Schema := [ ("round", .mandatory .uint32),
  ("validRound", .optional .uint32),
  ("validatorIndex", .mandatory .uint8),
  ("payloadSerialized", .mandatory .hex)]

@[reducible] def lockProofSchema : Schema := [ ("signature", .mandatory .consensusSignature),
  ("validators", .mandatory .validatorSet)]

def lockProofSize : Nat := signatureSize + 1 + 8

def unsignedProposalSize (proposal : ProposalDataUnsigned) : Nat :=
  4 + (match proposal.validRound with
    | none => 1
    | some _ => 5) + 4 + proposal.payloadSerialized.length + 1

@[reducible] def unsignedRecord (proposal : ProposalDataUnsigned) : schemaUnsigned.Data :=
  (proposal.round, proposal.validRound, proposal.validatorIndex, proposal.payloadSerialized, ())

def serializeProposalUnsigned (proposal : ProposalDataUnsigned) : Except BufferError Bytes :=
  Serializer.serialize schemaUnsigned (unsignedRecord proposal) (unsignedProposalSize proposal)

def serializeLockProof (lockProof : AggregatedSignature) : Except BufferError Bytes :=
  Serializer.serialize lockProofSchema (lockProof.signature, lockProof.validators, ()) lockProofSize

/-- The block is its serialized bytes. -/
def serializePayload (block : Bytes) (lockProof : Option AggregatedSignature) :
    Except BufferError Bytes :=
  match lockProof with
  | some lockProof => do
      let serializedLockProof ← serializeLockProof lockProof
      return UInt8.ofNat serializedLockProof.length :: serializedLockProof ++ block
  | none => .ok (0 :: block)

/-- A payload is longer than its block. -/
theorem lt_length_serializePayload {block bs : Bytes} {lockProof : Option AggregatedSignature}
    (h : serializePayload block lockProof = .ok bs) : block.length < bs.length := by
  cases lockProof with
  | none =>
    obtain rfl := Except.ok.inj h
    simp
  | some lockProof =>
    obtain ⟨serialized, -, written⟩ := Except.bind_eq_ok.mp h
    obtain rfl := Except.ok.inj written
    simp only [List.cons_append, List.length_cons, List.length_append]
    omega

/-- The signed bytes hold the payload. -/
theorem le_length_serializeProposalUnsigned {proposal : ProposalDataUnsigned} {bs : Bytes}
    (h : serializeProposalUnsigned proposal = .ok bs) :
    proposal.payloadSerialized.length + 10 ≤ bs.length := by
  obtain ⟨accepts, rfl, -⟩ := (Serializer.serialize_eq_ok (n := 0)).mp h
  -- No hashes here: what the serializer accepts fits.
  have fits : (schemaUnsigned.codec 0).Fits (unsignedRecord proposal) := accepts
  rw [Schema.length_encode fits]
  cases validRound : proposal.validRound <;>
    simp only [Schema.size, Field.size, FieldType.size, validRound] <;> omega

end ProposalSerializer

end Mainsail
