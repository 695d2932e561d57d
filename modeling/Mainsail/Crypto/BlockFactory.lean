import Mainsail.Crypto.Blocks
import Mainsail.Crypto.Transactions

/-!
# Blocks from bytes

The deserializer and the factory of `crypto-block`. The transactions of a block are read in
order, so the index of a transaction is its place in the list.
-/

namespace Mainsail

open Serializer List Except TransactionFactory

structure Block where
  header : BlockHeaderRaw
  hash : Bytes
  transactions : List Transaction
  serialized : Bytes
  deriving DecidableEq, Repr

inductive BlockError
  | deserialization (error : BufferError)
  | serialization (error : BufferError)
  /-- `InvalidBlockBytesError`: the payload size is not the actual one. -/
  | payloadSize (payloadSize actual : Nat)
  /-- `InvalidBlockBytesError`: there are trailing bytes. -/
  | trailing (length : Nat)
  | transaction (error : TransactionFactoryError)
  /-- `BlockSchemaError`. -/
  | schema (number : Nat)
  deriving DecidableEq, Repr

namespace BlockFactory

open BlockSerializer

variable (sha256 : Bytes → Bytes) (wallets : Wallets) (configuration : TransactionConfiguration)

/-- `HashFactory.make`. -/
def makeHash (header : BlockHeaderRaw) : Except BlockError Bytes := do
  let serialized ← (serializeHeader header).mapError .serialization
  return sha256 serialized

/-- The header and what follows it. -/
def deserializeBufferHeader (buffer : Bytes) : Except BlockError (BlockHeaderRaw × Bytes) := do
  let (record, rest) ← (deserialize blockHeaderSchema 0 buffer).mapError .deserialization
  if rest.length ≠ (ofRecord record).payloadSize then
    .error (.payloadSize (ofRecord record).payloadSize rest.length)
  else return (ofRecord record, rest)

def deserializeTransactions (header : BlockHeaderRaw) (buffer : Bytes) :
    Except BlockError (List Transaction × Bytes) := do
  let (record, rest) ← (deserialize transactionsSchema header.transactionsCount
    buffer).mapError .deserialization
  let transactions ← (record.1.mapM
    (TransactionFactory.fromBytes wallets configuration)).mapError .transaction
  return (transactions, rest)

/-- The transactions are read only if bytes remain. -/
def deserializePayload (header : BlockHeaderRaw) (buffer : Bytes) :
    Except BlockError (List Transaction × Bytes) :=
  if buffer.length > 0 then deserializeTransactions wallets configuration header buffer
  else .ok ([], buffer)

def deserializeWithTransactions (serialized : Bytes) :
    Except BlockError (BlockHeaderRaw × Bytes × List Transaction) := do
  let (header, buffer) ← deserializeBufferHeader serialized
  let (transactions, rest) ← deserializePayload wallets configuration header buffer
  if rest.length ≠ 0 then .error (.trailing rest.length)
  else
    let hash ← makeHash sha256 header
    return (header, hash, transactions)

/-- The schema `blockHeader`. -/
def headerSchema (header : BlockHeaderRaw) (hash : Bytes) : Bool :=
  hash.length = hashSize ∧ header.version = 1 ∧ header.timestamp ≤ 2 ^ 48 - 1 ∧
    header.parentHash.length = hashSize ∧ header.stateRoot.length = hashSize ∧
    header.logsBloom.length = 256 ∧ header.fee < 2 ^ 256 ∧ header.reward < 2 ^ 256 ∧
    header.transactionsRoot.length = hashSize ∧ header.proposer.length = addressSize ∧
    header.randaoReveal.length = 96

/-- The schema `block`. What it asks of a transaction is what `transactionStrict` asks. -/
def blockSchema (header : BlockHeaderRaw) (hash : Bytes) (transactions : List Transaction) :
    Bool :=
  headerSchema header hash ∧ transactions.length = header.transactionsCount ∧
    transactions.all fun transaction => configuration.transactionStrict transaction.data

/-- The transactions are not read. -/
def headerFromBytes (serialized : Bytes) : Except BlockError (BlockHeaderRaw × Bytes) := do
  let (header, _) ← deserializeBufferHeader serialized
  let hash ← makeHash sha256 header
  if headerSchema header hash then return (header, hash) else .error (.schema header.number)

def fromBytes (serialized : Bytes) : Except BlockError Block := do
  let (header, hash, transactions) ←
    deserializeWithTransactions sha256 wallets configuration serialized
  if blockSchema configuration header hash transactions then
    return { header, hash, transactions, serialized }
  else .error (.schema header.number)

/-- The block of a header and of its transactions. -/
def make (header : BlockHeaderRaw) (transactions : List Transaction) : Except BlockError Block := do
  let hash ← makeHash sha256 header
  if blockSchema configuration header hash transactions then
    let serialized ← (serializeWithTransactions header
      (transactions.map (·.serialized))).mapError .serialization
    return { header, hash, transactions, serialized }
  else .error (.schema header.number)

variable {sha256 : Bytes → Bytes} {wallets : Wallets} {configuration : TransactionConfiguration}

variable {header : BlockHeaderRaw}

variable {hash buffer rest : Bytes} {block : Block}

theorem makeHash_eq_ok (fits : header.Fits) :
    makeHash sha256 header = .ok hash ↔ hash = sha256 (encodeHeader header) := by
  rw [makeHash, serializeHeader_of_fits fits]
  simp [Except.mapError, bind, Except.bind, pure, Except.pure, eq_comm]

/-- A header that was hashed and passes the schema has the widths of its fields. -/
theorem fits_of_makeHash (made : makeHash sha256 header = .ok hash)
    (schema : headerSchema header hash) : header.Fits := by
  obtain ⟨bytes, serialized, -⟩ := bind_eq_ok.mp made
  obtain ⟨⟨version, timestamp, number, round, -, -, -, count, gasUsed, fee, reward, payloadSize,
      -⟩, -⟩ := (serialize_eq_ok (n := 0)).mp (mapError_eq_ok.mp serialized)
  simp only [headerSchema, decide_eq_true_eq] at schema
  obtain ⟨-, -, -, parentHash, stateRoot, logsBloom, -, -, transactionsRoot, proposer,
    randaoReveal⟩ := schema
  exact BlockHeaderRaw.fits_iff.mpr ⟨version, timestamp, number, round, parentHash, stateRoot,
    logsBloom, count, gasUsed, fee, reward, payloadSize, transactionsRoot, proposer, randaoReveal,
    trivial⟩

variable {transactions : List Transaction}

/-- A block is made of every header that fits, passes the schema and has room for the
transactions. -/
theorem make_eq_ok :
    make sha256 configuration header transactions = .ok block ↔
      header.Fits ∧
      blockSchema configuration header (sha256 (encodeHeader header)) transactions ∧
      (∀ transaction ∈ transactions, transaction.serialized.length < 256 ^ 4) ∧
      (encodeTransactions (transactions.map (·.serialized))).length ≤ header.payloadSize ∧
      block = { header, transactions
                hash := sha256 (encodeHeader header)
                serialized := encodeHeader header ++
                  encodeTransactions (transactions.map (·.serialized)) } := by
  constructor
  · intro h
    obtain ⟨hash, made, h⟩ := Except.bind_eq_ok.mp h
    split at h
    · next schema =>
        have fits : header.Fits := by
          refine fits_of_makeHash made ?_
          simp only [blockSchema, decide_eq_true_eq] at schema
          exact schema.1
        obtain rfl := (makeHash_eq_ok fits).mp made
        obtain ⟨bytes, serialized, h⟩ := Except.bind_eq_ok.mp h
        obtain ⟨small, rfl, room⟩ :=
          (serializeWithTransactions_eq_ok_iff fits).mp (Except.mapError_eq_ok.mp serialized)
        rw [forall_mem_map] at small
        exact ⟨fits, schema, small, room, (Except.ok.inj h).symm⟩
    · cases h
  · rintro ⟨fits, schema, small, room, rfl⟩
    have written := (serializeWithTransactions_eq_ok_iff fits).mpr
      ⟨forall_mem_map.mpr small, rfl, room⟩
    rw [make, (makeHash_eq_ok fits).mpr rfl]
    simp [schema, written, Except.mapError, bind, Except.bind, pure, Except.pure]

theorem deserializeBufferHeader_eq_ok (h : deserializeBufferHeader buffer = .ok (header, rest)) :
    header.Fits ∧ buffer = encodeHeader header ++ rest ∧ rest.length = header.payloadSize := by
  obtain ⟨⟨record, remaining⟩, read, h⟩ := bind_eq_ok.mp h
  obtain ⟨fits, split⟩ := (blockHeaderSchema.codec 0).encode_decode
    (deserialize_eq_ok.mp (mapError_eq_ok.mp read))
  simp only at h
  split at h
  · cases h
  · next whole =>
      obtain ⟨rfl, rfl⟩ := Prod.mk.inj (ok.inj h)
      exact ⟨fits, split, not_not.mp whole⟩

theorem deserializeTransactions_eq_ok
    (h : deserializeTransactions wallets configuration header buffer = .ok (transactions, rest)) :
    ∃ serialized : List Bytes, buffer = encodeTransactions serialized ++ rest ∧
      serialized.length = header.transactionsCount ∧
      (∀ bytes ∈ serialized, bytes.length < 256 ^ 4) ∧
      Forall₂ (fun bytes transaction =>
        TransactionFactory.fromBytes wallets configuration bytes = .ok transaction)
        serialized transactions := by
  obtain ⟨⟨⟨serialized, _⟩, remaining⟩, read, h⟩ := bind_eq_ok.mp h
  obtain ⟨_, made, h⟩ := bind_eq_ok.mp h
  obtain ⟨rfl, rfl⟩ := Prod.mk.inj (ok.inj h)
  obtain ⟨⟨⟨count, small⟩, -⟩, split⟩ := (transactionsSchema.codec _).encode_decode
    (deserialize_eq_ok.mp (mapError_eq_ok.mp read))
  refine ⟨serialized, ?_, count, small, mapM_eq_ok.mp (mapError_eq_ok.mp made)⟩
  rw [split]
  exact congrArg (· ++ _) (append_nil _)

/-- What holds of a block that was read from bytes. -/
structure Accepted (sha256 : Bytes → Bytes) (wallets : Wallets)
    (configuration : TransactionConfiguration) (serialized : Bytes) (block : Block) : Prop where
  fits : block.header.Fits
  bytes : serialized = encodeHeader block.header ++
    encodeTransactions (block.transactions.map (·.serialized))
  count : block.transactions.length = block.header.transactionsCount
  small : ∀ transaction ∈ block.transactions, transaction.serialized.length < 256 ^ 4
  transactions : ∀ transaction ∈ block.transactions, TransactionFactory.fromBytes wallets
    configuration transaction.serialized = .ok transaction
  payloadSize : (encodeTransactions (block.transactions.map (·.serialized))).length =
    block.header.payloadSize
  hash : block.hash = sha256 (encodeHeader block.header)
  serialized_eq : block.serialized = serialized
  schema : blockSchema configuration block.header block.hash block.transactions

/-- Transactions that were read are their bytes. -/
theorem map_serialized_of_forall₂ {bytes : List Bytes} (h : Forall₂ (fun bytes transaction =>
      TransactionFactory.fromBytes wallets configuration bytes = .ok transaction)
      bytes transactions) :
    transactions.map (·.serialized) = bytes ∧ ∀ transaction ∈ transactions,
      TransactionFactory.fromBytes wallets configuration transaction.serialized =
        .ok transaction := by
  induction h with
  | nil => simp
  | cons read _ ih =>
    have same := serialized_of_fromBytes read
    refine ⟨by rw [map_cons, same, ih.1], forall_mem_cons.mpr ⟨?_, ih.2⟩⟩
    rwa [same]

theorem deserializePayload_eq_ok
    (h : deserializePayload wallets configuration header buffer = .ok (transactions, rest)) :
    buffer = encodeTransactions (transactions.map (·.serialized)) ++ rest ∧
      ∀ transaction ∈ transactions, transaction.serialized.length < 256 ^ 4 ∧
        TransactionFactory.fromBytes wallets configuration transaction.serialized =
          .ok transaction := by
  unfold deserializePayload at h
  split at h
  · obtain ⟨bytes, split, -, small, read⟩ := deserializeTransactions_eq_ok h
    obtain ⟨rfl, transactions'⟩ := map_serialized_of_forall₂ read
    exact ⟨split, fun transaction member =>
      ⟨small _ (mem_map_of_mem member), transactions' transaction member⟩⟩
  · obtain ⟨rfl, rfl⟩ := Prod.mk.inj (ok.inj h)
    simp [encodeTransactions]

theorem fromBytes_eq_ok {serialized : Bytes}
    (h : fromBytes sha256 wallets configuration serialized = .ok block) :
    Accepted sha256 wallets configuration serialized block := by
  obtain ⟨⟨header, hash, transactions⟩, read, h⟩ := bind_eq_ok.mp h
  simp only at h
  split at h
  · next schema =>
      obtain rfl := ok.inj h
      obtain ⟨⟨header', buffer⟩, readHeader, read⟩ := bind_eq_ok.mp read
      obtain ⟨⟨transactions', rest⟩, readPayload, read⟩ := bind_eq_ok.mp read
      obtain ⟨fits, whole, size⟩ := deserializeBufferHeader_eq_ok readHeader
      obtain ⟨split, each⟩ := deserializePayload_eq_ok readPayload
      simp only at read
      split at read
      · cases read
      · next exhausted =>
          obtain rfl := eq_nil_of_length_eq_zero (not_not.mp exhausted)
          obtain ⟨hash', made, read⟩ := bind_eq_ok.mp read
          obtain ⟨rfl, others⟩ := Prod.mk.inj (ok.inj read)
          obtain ⟨rfl, rfl⟩ := Prod.mk.inj others
          rw [append_nil] at split
          have count : transactions'.length = header'.transactionsCount := by
            simp only [blockSchema, decide_eq_true_eq] at schema
            exact schema.2.1
          exact {
            fits, count, schema
            bytes := by rw [whole, split]
            small := fun transaction member => (each transaction member).1
            transactions := fun transaction member => (each transaction member).2
            payloadSize := by rw [← split, size]
            hash := (makeHash_eq_ok fits).mp made
            serialized_eq := rfl }
  · cases h

/-- Equal hashes are hashes of equal bytes. -/
def NoCollision (hash : Bytes → Bytes) (bytes bytes' : Bytes) : Prop :=
  hash bytes = hash bytes' → bytes = bytes'

/-- The header and the transactions of a block are written back to its bytes, and the hash is
that of the bytes of the header. -/
theorem canonical_block_bytes {serialized : Bytes} {block : Block}
    (h : fromBytes sha256 wallets configuration serialized = .ok block) :
    serializeHeader block.header = .ok (serialized.take headerSize) ∧
      block.hash = sha256 (serialized.take headerSize) ∧
      block.transactions.length = block.header.transactionsCount ∧
      serialized.drop headerSize = (block.transactions.map (·.serialized)).flatMap
        (fun transaction => Endian.little 4 transaction.length ++ transaction) ∧
      ∀ serialized' block', fromBytes sha256 wallets configuration serialized' = .ok block' →
        NoCollision sha256 (serialized.take headerSize) (serialized'.take headerSize) →
        block.hash = block'.hash → block.header = block'.header := by
  have split : ∀ {serialized block}, Accepted sha256 wallets configuration serialized block →
      serialized.take headerSize = encodeHeader block.header ∧ serialized.drop headerSize =
          encodeTransactions (block.transactions.map (·.serialized)) := by
    intro serialized block accepted
    rw [accepted.bytes, ← length_encodeHeader accepted.fits, take_left, drop_left]
    exact ⟨rfl, rfl⟩
  have accepted := fromBytes_eq_ok h
  obtain ⟨head, payload⟩ := split accepted
  rw [head, payload]
  refine ⟨serializeHeader_of_fits accepted.fits, accepted.hash, accepted.count, rfl, ?_⟩
  intro serialized' block' h' noCollision same
  have accepted' := fromBytes_eq_ok h'
  rw [(split accepted').1] at noCollision
  rw [accepted.hash, accepted'.hash] at same
  exact congrArg ofRecord
    ((blockHeaderSchema.codec 0).encode_inj accepted.fits accepted'.fits (noCollision same))

/-- The header of a block of the given transactions. -/
def headerOver (transactions : List Bytes) : BlockHeaderRaw where
  version := 1
  timestamp := 1000
  number := 2
  round := 0
  parentHash := replicate 32 0
  stateRoot := replicate 32 0
  logsBloom := replicate 256 0
  transactionsCount := transactions.length
  gasUsed := 21000
  fee := 0
  reward := 0
  payloadSize := (encodeTransactions transactions).length
  transactionsRoot := replicate 32 0
  proposer := replicate 20 1
  randaoReveal := replicate 96 0

/-- A block with the given transactions, as its bytes. -/
def blockOver (transactions : List Bytes) : Bytes :=
  encodeHeader (headerOver transactions) ++ encodeTransactions transactions

theorem canonical_block_bytes_sampleFields :
    ∃ block, fromBytes (fun _ => replicate 32 0) sampleWallets devnet
        (blockOver [Rlp.list sampleFields]) =
          .ok block ∧
      serializeHeader block.header = .ok ((blockOver
        [Rlp.list sampleFields]).take headerSize) := by
  have accepted : (fromBytes (fun _ => replicate 32 0) sampleWallets devnet
      (blockOver [Rlp.list sampleFields])).toOption.isSome := by
    decide +kernel
  obtain ⟨block, accepted⟩ := Option.isSome_iff_exists.mp accepted
  rw [toOption_eq_some] at accepted
  exact ⟨block, accepted, (canonical_block_bytes accepted).1⟩

end BlockFactory

end Mainsail
