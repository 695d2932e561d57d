import Mainsail.Crypto.BlockFactory
import Mainsail.Crypto.Commits
import Mainsail.Crypto.Messages

/-!
# Commits from bytes

The factory of `crypto-commit`: the proof has a fixed size, and the block is what follows.
-/

namespace Mainsail

open MessageSerializer CommitSerializer MessageFactory

/-- `Contracts.Crypto.Commit`. -/
structure SerializedCommit where
  block : Block
  proof : CommitProof
  serialized : Bytes
  deriving DecidableEq, Repr

inductive CommitError
  | deserialization (error : BufferError)
  | proof (error : CommitProofError)
  | block (error : BlockError)
  /-- `MessageSchemaError`. -/
  | schema
  deriving DecidableEq, Repr

namespace CommitFactory

open CommitSerializer

variable (sha256 : Bytes → Bytes) (wallets : Wallets) (configuration : TransactionConfiguration)
variable (roundValidators : Nat → Nat)

/-- The schema `commit`, with the round validators of the milestone of the block. -/
def commitSchema (block : Block) (proof : CommitProof) : Bool :=
  BlockFactory.blockSchema configuration block.header block.hash block.transactions ∧
    proof.signature.length = signatureSize ∧
    proof.validators.length = roundValidators block.header.number

def fromBytes (serialized : Bytes) : Except CommitError SerializedCommit := do
  let (proofBuffer, remainder) ←
    (ByteBuffer.readBytes proofSize serialized).mapError .deserialization
  let proof ← (deserializeCommitProof proofBuffer).mapError .proof
  let block ← (BlockFactory.fromBytes sha256 wallets configuration remainder).mapError .block
  if commitSchema configuration roundValidators block proof then
    return { block, proof, serialized }
  else .error .schema

variable {sha256 : Bytes → Bytes} {wallets : Wallets} {configuration : TransactionConfiguration}
variable {roundValidators : Nat → Nat}

/-- What holds of a commit that was read from bytes. -/
structure Accepted (sha256 : Bytes → Bytes) (wallets : Wallets)
    (configuration : TransactionConfiguration) (roundValidators : Nat → Nat) (serialized : Bytes)
    (commit : SerializedCommit) : Prop where
  fits : commit.proof.Fits
  bytes : serialized = encodeProof commit.proof ++ commit.block.serialized
  block : BlockFactory.Accepted sha256 wallets configuration commit.block.serialized commit.block
  validators : commit.proof.validators.length = roundValidators commit.block.header.number
  serialized_eq : commit.serialized = serialized

variable {serialized : Bytes} {commit : SerializedCommit}

theorem fromBytes_eq_ok
    (h : fromBytes sha256 wallets configuration roundValidators serialized = .ok commit) :
    Accepted sha256 wallets configuration roundValidators serialized commit := by
  obtain ⟨⟨proofBuffer, remainder⟩, readBytes, h⟩ := Except.bind_eq_ok.mp h
  obtain ⟨proof, readProof, h⟩ := Except.bind_eq_ok.mp h
  obtain ⟨block, readBlock, h⟩ := Except.bind_eq_ok.mp h
  rw [Except.mapError_eq_ok] at readBytes readProof readBlock
  obtain ⟨-, rfl⟩ := (Codec.fixed proofSize).encode_decode
    ((ByteBuffer.reads_readBytes _ _).mp readBytes)
  obtain ⟨fits, rfl⟩ := deserializeCommitProof_eq_ok.mp readProof
  have accepted := BlockFactory.fromBytes_eq_ok readBlock
  obtain rfl := accepted.serialized_eq
  split at h
  · next schema =>
      obtain rfl := Except.ok.inj h
      simp only [commitSchema, decide_eq_true_eq] at schema
      exact ⟨fits, rfl, accepted, schema.2.2, rfl⟩
  · cases h

theorem serializeCommit_of_fromBytes
    (h : fromBytes sha256 wallets configuration roundValidators serialized = .ok commit) :
    serializeCommit commit.proof commit.block.serialized = .ok serialized := by
  have accepted := fromBytes_eq_ok h
  rw [serializeCommit_of_fits accepted.fits, ← accepted.bytes]

end CommitFactory

/-- The schema admits the message and its numbers have their widths. -/
structure Message.WellFormed (roundValidators : Nat → Nat) (m : Message) : Prop
    extends m.Admitted roundValidators where
  blockNumber_lt : m.blockNumber < 2 ^ 32
  round_lt : m.round < 2 ^ 32
  validatorIndex_lt : m.validatorIndex < 2 ^ 8

theorem Message.WellFormed.exists_serializeMessage {roundValidators : Nat → Nat} {m : Message}
    (h : m.WellFormed roundValidators) : ∃ bytes, serializeMessage m = .ok bytes := by
  have type : m.type.toNat < 256 ^ 1 := by cases m.type <;> decide
  have fits : (schema.codec 0).Fits (record m) :=
    ⟨type, h.blockNumber_lt, h.round_lt, h.blockHash, h.validatorIndex_lt, h.signature, trivial⟩
  exact ⟨_, Serializer.serialize_of_fits fits (size_record h.blockHash).le⟩

/-- A proof fits if its round and signature do and the bitmap has at most 64 bits. -/
theorem CommitProof.fits_of_length_le {proof : CommitProof} (round : proof.round < 2 ^ 32)
    (signature : proof.signature.length = signatureSize) (bits : proof.validators.length ≤ 64) :
    proof.Fits := by
  refine CommitProof.fits_iff.mpr ⟨round, signature, ⟨by omega, ?_⟩, trivial⟩
  exact (validatorSetPack_lt proof.validators).trans_le (Nat.pow_le_pow_right (by decide) bits)

/-- Votes and commits have one encoding: what is read is written back, and what is well formed
is read back. -/
theorem canonical_votes_and_commits (sha256 : Bytes → Bytes) (wallets : Wallets)
    (configuration : TransactionConfiguration) (roundValidators : Nat → Nat) :
    (∀ bytes m, makeMessageFromBytes roundValidators bytes = .ok m →
        serializeMessage m = .ok bytes) ∧
      (∀ m : Message, m.WellFormed roundValidators →
        ∃ bytes, serializeMessage m = .ok bytes ∧
          makeMessageFromBytes roundValidators bytes = .ok m) ∧
      (∀ bytes commit,
        CommitFactory.fromBytes sha256 wallets configuration roundValidators bytes = .ok commit →
        serializeCommit commit.proof commit.block.serialized = .ok bytes) ∧
      (∀ proof : CommitProof, proof.round < 2 ^ 32 → proof.signature.length = signatureSize →
        proof.validators.length ≤ 64 →
        ∃ bytes, serializeCommitProof proof = .ok bytes ∧
          deserializeCommitProof bytes = .ok proof) := by
  refine ⟨?_, ?_, ?_, ?_⟩
  · intro bytes m made
    exact (makeMessageFromBytes_eq_ok.mp made).2
  · intro m wellFormed
    obtain ⟨bytes, written⟩ := wellFormed.exists_serializeMessage
    exact ⟨bytes, written,
      makeMessageFromBytes_eq_ok.mpr ⟨wellFormed.toAdmitted, written⟩⟩
  · intro bytes commit made
    exact CommitFactory.serializeCommit_of_fromBytes made
  · intro proof round signature bits
    have fits := CommitProof.fits_of_length_le round signature bits
    exact ⟨_, serializeCommitProof_of_fits fits,
      deserializeCommitProof_eq_ok.mpr ⟨fits, rfl⟩⟩

end Mainsail
