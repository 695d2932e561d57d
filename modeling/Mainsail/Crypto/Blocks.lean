import Mainsail.Serializer.Serializer

/-!
# Blocks as bytes

The header of a block and its transactions, as `crypto-block` serializes them. A transaction
is its serialized bytes here. The hash of a block is the SHA-256 hash of its serialized header.
-/

namespace Mainsail

open Serializer Schema

/-- `Contracts.Crypto.BlockHeaderRaw`. -/
structure BlockHeaderRaw where
  version : Nat
  timestamp : Nat
  number : Nat
  round : Nat
  parentHash : Bytes
  stateRoot : Bytes
  logsBloom : Bytes
  transactionsCount : Nat
  gasUsed : Nat
  fee : Nat
  reward : Nat
  payloadSize : Nat
  transactionsRoot : Bytes
  proposer : Bytes
  randaoReveal : Bytes
  deriving DecidableEq, Repr

namespace BlockSerializer

@[reducible] def blockHeaderSchema : Schema := [ ("version", .mandatory .uint8),
  ("timestamp", .mandatory .uint48),
  ("number", .mandatory .uint32),
  ("round", .mandatory .uint32),
  ("parentHash", .mandatory (.hash none)),
  ("stateRoot", .mandatory (.hash none)),
  ("logsBloom", .mandatory (.hash (some 256))),
  ("transactionsCount", .mandatory .uint16),
  ("gasUsed", .mandatory .uint32),
  ("fee", .mandatory .uint256),
  ("reward", .mandatory .uint256),
  ("payloadSize", .mandatory .uint32),
  ("transactionsRoot", .mandatory (.hash none)),
  ("proposer", .mandatory .address),
  ("randaoReveal", .mandatory .consensusSignature)]

@[reducible] def transactionsSchema : Schema := [("transactions", .mandatory .transactions)]

@[reducible] def blockSchema : Schema := blockHeaderSchema ++ transactionsSchema

def headerSize : Nat :=
  1 + 6 + 4 + 4 + hashSize + hashSize + 256 + 2 + 4 + 32 + 32 + 4 + hashSize + addressSize + 96

@[reducible] def headerRecord (header : BlockHeaderRaw) : blockHeaderSchema.Data :=
  (header.version, header.timestamp, header.number, header.round, header.parentHash,
    header.stateRoot, header.logsBloom, header.transactionsCount, header.gasUsed, header.fee,
    header.reward, header.payloadSize, header.transactionsRoot, header.proposer,
    header.randaoReveal, ())

def blockRecord (header : BlockHeaderRaw) (transactions : List Bytes) : blockSchema.Data :=
  appendData (headerRecord header) (transactions, ())

def ofRecord (record : blockHeaderSchema.Data) : BlockHeaderRaw :=
  let (version, timestamp, number, round, parentHash, stateRoot, logsBloom, transactionsCount,
    gasUsed, fee, reward, payloadSize, transactionsRoot, proposer, randaoReveal, _) := record
  { version, timestamp, number, round, parentHash, stateRoot, logsBloom, transactionsCount,
    gasUsed, fee, reward, payloadSize, transactionsRoot, proposer, randaoReveal }

def totalSize (header : BlockHeaderRaw) : Nat := headerSize + header.payloadSize

def serializeHeader (header : BlockHeaderRaw) : Except BufferError Bytes :=
  serialize blockHeaderSchema (headerRecord header) headerSize

def serializeWithTransactions (header : BlockHeaderRaw) (transactions : List Bytes) :
    Except BufferError Bytes :=
  serialize blockSchema (blockRecord header transactions) (totalSize header)

end BlockSerializer

/-- Every number has its width and every hash, address and signature its size. -/
def BlockHeaderRaw.Fits (header : BlockHeaderRaw) : Prop :=
  (BlockSerializer.blockHeaderSchema.codec 0).Fits (BlockSerializer.headerRecord header)

theorem BlockHeaderRaw.fits_iff {header : BlockHeaderRaw} :
    header.Fits ↔ header.version < 256 ^ 1 ∧ header.timestamp < 256 ^ 6 ∧
      header.number < 256 ^ 4 ∧ header.round < 256 ^ 4 ∧ header.parentHash.length = hashSize ∧
      header.stateRoot.length = hashSize ∧ header.logsBloom.length = 256 ∧
      header.transactionsCount < 256 ^ 2 ∧ header.gasUsed < 256 ^ 4 ∧ header.fee < 256 ^ 32 ∧
      header.reward < 256 ^ 32 ∧ header.payloadSize < 256 ^ 4 ∧
      header.transactionsRoot.length = hashSize ∧ header.proposer.length = addressSize ∧
      header.randaoReveal.length = signatureSize ∧ True :=
  Iff.rfl

instance (header : BlockHeaderRaw) : Decidable header.Fits :=
  decidable_of_iff _ BlockHeaderRaw.fits_iff.symm

namespace BlockSerializer

/-- The bytes of a header. -/
def encodeHeader (header : BlockHeaderRaw) : Bytes :=
  (blockHeaderSchema.codec 0).encode (headerRecord header)

/-- The bytes of the transactions. -/
def encodeTransactions (transactions : List Bytes) : Bytes :=
  transactions.flatMap (Codec.sized 4).encode

theorem size_headerRecord (header : BlockHeaderRaw) :
    blockHeaderSchema.size (headerRecord header) = headerSize := by
  simp only [size, Field.size, FieldType.size]
  decide

variable {header : BlockHeaderRaw}

theorem length_encodeHeader (fits : header.Fits) : (encodeHeader header).length = headerSize := by
  rw [encodeHeader, length_encode (n := 0) fits, size_headerRecord]

/-- A header that fits is serialized. -/
theorem serializeHeader_of_fits (fits : header.Fits) :
    serializeHeader header = .ok (encodeHeader header) :=
  serialize_of_fits (n := 0) fits (size_headerRecord header).le

theorem encode_blockRecord (header : BlockHeaderRaw) (transactions : List Bytes) (n : Nat) :
    (blockSchema.codec n).encode (blockRecord header transactions) =
      encodeHeader header ++ encodeTransactions transactions := by
  have same : (transactionsSchema.codec n).encode (transactions, ()) =
      encodeTransactions transactions := List.append_nil _
  rw [blockRecord, encode_appendData, same]
  rfl

variable {transactions : List Bytes} {bs : Bytes}

/-- The block is its header and then its transactions. -/
theorem serializeWithTransactions_eq_ok
    (h : serializeWithTransactions header transactions = .ok bs) :
    bs = encodeHeader header ++ encodeTransactions transactions := by
  obtain ⟨-, rfl, -⟩ := (serialize_eq_ok (n := transactions.length)).mp h
  exact encode_blockRecord header transactions _

/-- The buffer has room for transactions of the payload size. -/
theorem serializeWithTransactions_eq_ok_iff (fits : header.Fits) :
    serializeWithTransactions header transactions = .ok bs ↔
      (∀ transaction ∈ transactions, transaction.length < 256 ^ 4) ∧
      bs = encodeHeader header ++ encodeTransactions transactions ∧
      (encodeTransactions transactions).length ≤ header.payloadSize := by
  have accepts : blockSchema.Accepts (blockRecord header transactions) ↔
      ∀ transaction ∈ transactions, transaction.length < 256 ^ 4 := by
    rw [blockRecord, accepts_appendData]
    have : blockHeaderSchema.Accepts (headerRecord header) := accepts_of_fits fits
    simp only [this, true_and]
    exact iff_of_eq (and_true _)
  rw [serializeWithTransactions, serialize_eq_ok (n := transactions.length), accepts,
    encode_blockRecord]
  refine and_congr_right fun _ => and_congr_right ?_
  rintro rfl
  rw [List.length_append, length_encodeHeader fits, totalSize, Nat.add_le_add_iff_left]

/-- The bytes of the transactions determine the transactions. -/
theorem encodeTransactions_inj {transactions' : List Bytes}
    (fits : ∀ transaction ∈ transactions, transaction.length < 256 ^ 4)
    (fits' : ∀ transaction ∈ transactions', transaction.length < 256 ^ 4)
    (same : encodeTransactions transactions = encodeTransactions transactions') :
    transactions = transactions' := by
  refine (Codec.sized 4).flatMap_inj ?_ fits fits' same
  intro transaction empty
  have := congrArg List.length empty
  rw [FieldType.length_encode_sized, List.length_nil] at this
  omega

end BlockSerializer

end Mainsail
