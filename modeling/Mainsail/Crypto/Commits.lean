import Mainsail.Consensus.Data
import Mainsail.Serializer.Serializer

/-!
# Commits as bytes

`crypto-commit`: the proof of a commit, and the commit as its proof and then its block.
-/

namespace Mainsail

open Serializer

namespace CommitSerializer

@[reducible] def proofSchema : Schema := [ ("round", .mandatory .uint32),
  ("signature", .mandatory .consensusSignature),
  ("validators", .mandatory .validatorSet)]

def proofSize : Nat := 4 + signatureSize + 1 + 8

@[reducible] def proofRecord (proof : CommitProof) : proofSchema.Data :=
  (proof.round, proof.signature, proof.validators, ())

def serializeCommitProof (proof : CommitProof) : Except BufferError Bytes :=
  serialize proofSchema (proofRecord proof) proofSize

/-- The block is its serialized bytes. -/
def serializeCommit (proof : CommitProof) (block : Bytes) : Except BufferError Bytes := do
  let serializedProof ← serializeCommitProof proof
  return serializedProof ++ block

end CommitSerializer

/-- The round has its width, the signature its size, and the bitmap fits in 64 bits. -/
def CommitProof.Fits (proof : CommitProof) : Prop :=
  (CommitSerializer.proofSchema.codec 0).Fits (CommitSerializer.proofRecord proof)

variable {proof : CommitProof}

theorem CommitProof.fits_iff :
    proof.Fits ↔ proof.round < 256 ^ 4 ∧ proof.signature.length = signatureSize ∧
      (proof.validators.length < 256 ^ 1 ∧ validatorSetPack proof.validators < 256 ^ 8) ∧ True :=
  Iff.rfl

namespace CommitSerializer

/-- The bytes of the proof. -/
def encodeProof (proof : CommitProof) : Bytes :=
  (proofSchema.codec 0).encode (proofRecord proof)

theorem size_proofRecord (proof : CommitProof) :
    proofSchema.size (proofRecord proof) = proofSize := by
  simp only [Schema.size, Field.size, FieldType.size]
  decide

variable (fits : proof.Fits)
include fits

theorem length_encodeProof : (encodeProof proof).length = proofSize := by
  rw [encodeProof, Schema.length_encode (n := 0) fits, size_proofRecord]

theorem serializeCommitProof_of_fits :
    serializeCommitProof proof = .ok (encodeProof proof) :=
  serialize_of_fits (n := 0) fits (size_proofRecord proof).le

theorem serializeCommit_of_fits (block : Bytes) :
    serializeCommit proof block = .ok (encodeProof proof ++ block) := by
  rw [serializeCommit, serializeCommitProof_of_fits fits]
  rfl

end CommitSerializer

/-! ## Proofs from bytes -/

inductive CommitProofError
  | deserialization (error : BufferError)
  /-- `InvalidCommitProofBytesError`. -/
  | trailing (length : Nat)
  deriving DecidableEq, Repr

namespace CommitSerializer

def deserializeCommitProof (serialized : Bytes) : Except CommitProofError CommitProof :=
  match deserialize proofSchema 0 serialized with
  | .error error => .error (.deserialization error)
  | .ok ((round, signature, validators, _), []) => .ok { round, signature, validators }
  | .ok (_, rest) => .error (.trailing rest.length)

/-- The bytes of a proof that fits are accepted, and no others. -/
theorem deserializeCommitProof_eq_ok {serialized : Bytes} :
    deserializeCommitProof serialized = .ok proof ↔
      proof.Fits ∧ serialized = encodeProof proof := by
  unfold deserializeCommitProof
  constructor
  · intro h
    split at h
    · contradiction
    · next read =>
        obtain rfl := Except.ok.inj h
        exact deserialize_eq_ok_nil.mp read
    · contradiction
  · rintro ⟨fits, rfl⟩
    have read : deserialize proofSchema 0 (encodeProof proof) =
        .ok (proofRecord proof, []) := deserialize_eq_ok_nil.mpr ⟨fits, rfl⟩
    rw [read]

end CommitSerializer

end Mainsail
