import Mainsail.Crypto.CommitFactory

/-!
# Commits in the store

The store keeps the fields of a commit and not its bytes: `#prepareCommitData` of `evm-service`
takes them from the commit, and the `fromStorage` factories make a commit of them again. The
store itself returns what it was given.
-/

namespace Mainsail

open TransactionFactory BlockSerializer CommitSerializer Double TransactionSerializer

structure TransactionStorageData where
  sender : Bytes
  senderPublicKey : Bytes
  legacyAddress : Bytes
  recipient : Option Bytes
  gasLimit : Int
  gasPrice : Int
  value : Nat
  nonce : Nat
  data : Bytes
  txHash : Bytes
  index : Nat
  blockNumber : Nat
  v : Double
  r : Bytes
  s : Bytes
  legacySecondSignature : Option Bytes
  deriving DecidableEq, Repr

structure BlockHeaderStorageData extends BlockHeaderRaw where
  hash : Bytes
  deriving DecidableEq, Repr

structure ProofStorageData where
  round : Nat
  signature : Bytes
  validatorSet : Nat
  deriving DecidableEq, Repr

structure CommitStorageData where
  proof : ProofStorageData
  header : BlockHeaderStorageData
  transactions : List TransactionStorageData
  deriving DecidableEq, Repr

inductive StorageError
  /-- Thrown by `BigInt`. -/
  | notAnInteger
  | transaction (error : TransactionError)
  | buffer (error : BufferError)
  deriving DecidableEq, Repr

namespace EvmInstance

/-- `BigInt(value)`. -/
def bigInt : Double → Except StorageError Int
  | .finite z => .ok z
  | .infinite => .error .notAnInteger

def prepareTransaction (blockNumber : Nat) (entry : Transaction × Nat) :
    Except StorageError TransactionStorageData := do
  let transaction := entry.1.data
  let gasLimit ← bigInt transaction.gasLimit
  let gasPrice ← bigInt transaction.gasPrice
  return { transaction with
    blockNumber, gasLimit, gasPrice
    index := entry.2
    legacyAddress := transaction.senderLegacyAddress
    txHash := transaction.hash }

/-- The header and the proof with the prepared transactions. -/
def commitData (commit : SerializedCommit) (transactions : List TransactionStorageData) :
    CommitStorageData where
  header := { commit.block.header with hash := commit.block.hash }
  proof := {
    round := commit.proof.round
    signature := commit.proof.signature
    validatorSet := validatorSetPack commit.proof.validators }
  transactions := transactions

def prepareCommitData (commit : SerializedCommit) : Except StorageError CommitStorageData := do
  let transactions ←
    commit.block.transactions.zipIdx.mapM (prepareTransaction commit.block.header.number)
  return commitData commit transactions

end EvmInstance

namespace TransactionFactory

/-- The network is that of the configuration, and a missing legacy address is computed. -/
def fromStorage (wallets : Wallets) (configuration : TransactionConfiguration)
    (transaction : TransactionStorageData) : Except StorageError Transaction := do
  let data : TransactionData := { transaction with
    gasLimit := ofInt transaction.gasLimit
    gasPrice := ofInt transaction.gasPrice
    hash := transaction.txHash
    network := .finite configuration.chainId
    senderLegacyAddress :=
      if transaction.legacyAddress = [] then wallets.legacyAddress transaction.senderPublicKey
      else transaction.legacyAddress }
  let serialized ←
    (serialize wallets.toViem data.toTransactionSerializable).mapError .transaction
  return { data, serialized }

end TransactionFactory

namespace BlockFactory

/-- The timestamp is a `bigint` in the store. -/
def headerFromStorage (header : BlockHeaderStorageData) : BlockHeaderRaw :=
  { header with timestamp := round header.timestamp }

def fromStorage (wallets : Wallets) (configuration : TransactionConfiguration)
    (header : BlockHeaderStorageData) (transactions : List TransactionStorageData) :
    Except StorageError Block := do
  let parsed ← transactions.mapM (TransactionFactory.fromStorage wallets configuration)
  let serialized ← (serializeWithTransactions (headerFromStorage header)
    (parsed.map (·.serialized))).mapError .buffer
  return { header := headerFromStorage header, hash := header.hash, transactions := parsed,
           serialized }

end BlockFactory

namespace CommitFactory

def fromStorage (wallets : Wallets) (configuration : TransactionConfiguration)
    (roundValidators : Nat → Nat) (data : CommitStorageData) :
    Except StorageError SerializedCommit := do
  let block ← BlockFactory.fromStorage wallets configuration data.header data.transactions
  let validators ← (validatorSetUnpack data.proof.validatorSet
    (roundValidators block.header.number)).mapError .buffer
  let proof : CommitProof :=
    { round := data.proof.round, signature := data.proof.signature, validators }
  let serialized ← (serializeCommit proof block.serialized).mapError .buffer
  return { block, proof, serialized }

end CommitFactory

/-! ## The size check -/

inductive SizeError
  | maxPayloadExceeded (totalSize maxPayload : Nat)
  | invalidPayloadSize (expectedSize actualSize : Nat)
  deriving DecidableEq, Repr

/-- `SizeVerifier.execute`. -/
def SizeVerifier.execute (maxPayload : Nat → Nat) (block : Block) : Except SizeError Unit :=
  let totalSize := headerSize + block.header.payloadSize
  let actualSize := block.serialized.length
  let totalPayloadSize := block.transactions.foldl
    (fun size transaction => size + transaction.serialized.length) (block.transactions.length * 4)
  if totalSize > maxPayload block.header.number then
    .error (.maxPayloadExceeded totalSize (maxPayload block.header.number))
  else if totalSize ≠ actualSize then .error (.invalidPayloadSize totalSize actualSize)
  else if totalPayloadSize ≠ block.header.payloadSize then
    .error (.invalidPayloadSize block.header.payloadSize totalPayloadSize)
  else .ok ()

/-! ## Transactions -/

section

variable {wallets : Wallets} {configuration : TransactionConfiguration}

open TransactionDeserializer

theorem TransactionFactory.gas_of_fieldsOf {transaction : TransactionSerializable}
    {nine : List Bytes} (h : fieldsOf wallets.toViem transaction = .ok nine) :
    ∃ gasPrice gasLimit : Int, transaction.gasPrice = .finite gasPrice ∧
      ofInt gasPrice = .finite gasPrice ∧ transaction.gasLimit = .finite gasLimit ∧
      ofInt gasLimit = .finite gasLimit := by
  obtain ⟨_, price, h⟩ := Except.bind_eq_ok.mp h
  obtain ⟨_, limit, -⟩ := Except.bind_eq_ok.mp h
  obtain ⟨n, gasPrice, small, -⟩ := toBytesCompat_eq_ok.mp price
  obtain ⟨m, gasLimit, small', -⟩ := toBytesCompat_eq_ok.mp limit
  exact ⟨n, m, gasPrice, ofInt_of_le (natAbs_lt_of_safe small).le, gasLimit,
    ofInt_of_le (natAbs_lt_of_safe small').le⟩

/-- The transaction has the fields of another, and its bytes if those were canonical. -/
def Transaction.Restores (transaction served : Transaction) : Prop :=
  served.data = transaction.data ∧
    (served.serialized = transaction.serialized ↔ Canonical transaction.serialized)

open EvmInstance

theorem TransactionFactory.fromStorage_prepareTransaction {transaction : Transaction}
    (h : fromBytes wallets configuration transaction.serialized = .ok transaction)
    (blockNumber index : Nat) :
    ∃ stored served, prepareTransaction blockNumber (transaction, index) = .ok stored ∧
      fromStorage wallets configuration stored = .ok served ∧ transaction.Restores served := by
  obtain ⟨-, ⟨decoded, -, computed⟩, strict⟩ := fromBytes_eq_ok.mp h
  obtain ⟨-, legacyAddress, -⟩ := computeCryptoData_eq_ok computed
  obtain ⟨nine, more, -, -, -, written, -⟩ := fields_of_fromBytes h
  obtain ⟨gasPrice, gasLimit, price, exactPrice, limit, exactLimit⟩ := gas_of_fieldsOf written
  have network : transaction.data.network = .finite configuration.chainId := by
    simp only [TransactionConfiguration.transactionStrict, decide_eq_true_eq] at strict
    exact of_decide_eq_true strict.2.1
  obtain ⟨bytes, serialized⟩ : ∃ bytes, serialize wallets.toViem
      transaction.data.toTransactionSerializable = .ok bytes :=
    ⟨_, serialize_of_fieldsOf written⟩
  have canonical := serialize_eq_iff h
  rw [serialized, Except.ok.injEq] at canonical
  refine ⟨?stored, ⟨transaction.data, bytes⟩, ?prepared, ?served, rfl, canonical⟩
  case prepared =>
    simp only [prepareTransaction, price, limit, bigInt]
    rfl
  case served =>
    simp only [fromStorage, exactPrice, exactLimit]
    rw [← network, ← price, ← limit, ← legacyAddress, ite_self]
    simp [serialized, Except.mapError, bind, Except.bind, pure, Except.pure]

variable {transactions served : List Transaction} {serialized : Bytes} {commit : SerializedCommit}

/-- The same for the transactions of a block. -/
theorem TransactionFactory.mapM_fromStorage (h : ∀ transaction ∈ transactions,
      fromBytes wallets configuration transaction.serialized = .ok transaction)
    (blockNumber start : Nat) :
    ∃ stored served,
      (transactions.zipIdx start).mapM (prepareTransaction blockNumber) = .ok stored ∧
      stored.mapM (fromStorage wallets configuration) = .ok served ∧
      List.Forall₂ Transaction.Restores transactions served := by
  simp only [Except.mapM_eq_ok]
  induction transactions generalizing start with
  | nil => exact ⟨[], [], .nil, .nil, .nil⟩
  | cons transaction transactions ih =>
    obtain ⟨head, tail⟩ := List.forall_mem_cons.mp h
    obtain ⟨stored, served, prepared, made, restores⟩ :=
      fromStorage_prepareTransaction head blockNumber start
    obtain ⟨stored', served', prepared', made', restores'⟩ := ih tail (start + 1)
    exact ⟨stored :: stored', served :: served', .cons prepared prepared', .cons made made',
      .cons restores restores'⟩

section

variable (h : List.Forall₂ Restores transactions served)
include h

theorem Transaction.Restores.map_serialized_eq_iff :
    served.map (·.serialized) = transactions.map (·.serialized) ↔
      ∀ transaction ∈ transactions, Canonical transaction.serialized := by
  induction h with
  | nil => simp
  | cons restores _ ih => simp [restores.2, ih]

theorem Transaction.Restores.eq_of_canonical
    (canonical : ∀ transaction ∈ transactions, Canonical transaction.serialized) :
    served = transactions := by
  induction h with
  | nil => rfl
  | @cons transaction served _ _ restores _ ih =>
    obtain ⟨head, tail⟩ := List.forall_mem_cons.mp canonical
    have : served = transaction := by
      obtain ⟨data, serialized⟩ := served
      obtain ⟨same, bytes⟩ := restores
      rw [← bytes] at head
      cases transaction
      simp_all
    rw [ih tail, this]

end

/-! ## Blocks and commits -/

variable {sha256 : Bytes → Bytes} {roundValidators : Nat → Nat}

theorem BlockFactory.headerFromStorage_eq {header : BlockHeaderRaw} (fits : header.Fits)
    (hash : Bytes) : headerFromStorage { header with hash } = header := by
  have exact' : round header.timestamp = header.timestamp :=
    round_of_le (by have := (BlockHeaderRaw.fits_iff.mp fits).2.1; omega)
  simp only [headerFromStorage, exact']

/-- A block is written back if its transactions are, and only then. -/
theorem BlockFactory.serializeWithTransactions_eq_iff {block : Block}
    (accepted : Accepted sha256 wallets configuration serialized block)
    {transactions : List Bytes} :
    serializeWithTransactions block.header transactions = .ok serialized ↔
      transactions = block.transactions.map (·.serialized) := by
  have small : ∀ transaction ∈ block.transactions.map (·.serialized),
      transaction.length < 256 ^ 4 := by
    simpa using accepted.small
  rw [serializeWithTransactions_eq_ok_iff accepted.fits, accepted.bytes]
  constructor
  · rintro ⟨small', same, -⟩
    exact (encodeTransactions_inj small small' (List.append_cancel_left same)).symm
  · rintro rfl
    exact ⟨small, rfl, accepted.payloadSize.le⟩

/-- The transactions in the bytes of a commit are all canonical. -/
def CommitFactory.CanonicalTransactions (serialized : Bytes) : Prop :=
  ∃ transactions : List Bytes,
    serialized.drop (proofSize + headerSize) =
      encodeTransactions transactions ∧
    ∀ transaction ∈ transactions, transaction.length < 256 ^ 4 ∧ Canonical transaction

theorem CommitFactory.canonicalTransactions_iff
    (accepted : Accepted sha256 wallets configuration roundValidators serialized commit) :
    CanonicalTransactions serialized ↔
      ∀ transaction ∈ commit.block.transactions, Canonical transaction.serialized := by
  have payload : serialized.drop (proofSize + headerSize) =
      encodeTransactions (commit.block.transactions.map (·.serialized)) := by
    rw [accepted.bytes, accepted.block.bytes, ← List.drop_drop,
      ← length_encodeProof accepted.fits, List.drop_left,
      ← length_encodeHeader accepted.block.fits, List.drop_left]
  have small : ∀ transaction ∈ commit.block.transactions.map (·.serialized),
      transaction.length < 256 ^ 4 := by
    simpa using accepted.block.small
  unfold CanonicalTransactions
  rw [payload]
  constructor
  · rintro ⟨transactions, same, canonical⟩
    have := encodeTransactions_inj small
      (fun transaction member => (canonical transaction member).1) same
    intro transaction member
    exact (canonical _ (this ▸ List.mem_map_of_mem member)).2
  · intro canonical
    refine ⟨_, rfl, fun transaction member => ⟨small transaction member, ?_⟩⟩
    obtain ⟨transaction', member', rfl⟩ := List.mem_map.mp member
    exact canonical transaction' member'

namespace CommitFactory

/-- The commit that is made of the stored fields, in terms of the transactions that are. -/
theorem fromStorage_eq_ok
    (accepted : Accepted sha256 wallets configuration roundValidators serialized commit)
    {stored : List TransactionStorageData}
    (made : stored.mapM (TransactionFactory.fromStorage wallets configuration) =
      .ok transactions) {served : SerializedCommit} :
    fromStorage wallets configuration roundValidators (commitData commit stored) =
        .ok served ↔
      ∃ bytes, serializeWithTransactions commit.block.header
          (transactions.map (·.serialized)) = .ok bytes ∧
        served = {
          block := { commit.block with transactions, serialized := bytes }
          proof := commit.proof
          serialized := encodeProof commit.proof ++ bytes } := by
  have unpacked : validatorSetUnpack (validatorSetPack commit.proof.validators)
      (roundValidators commit.block.header.number) = .ok commit.proof.validators :=
    validatorSetUnpack_eq_ok.mpr ⟨accepted.validators, rfl⟩
  simp only [fromStorage, commitData, BlockFactory.fromStorage, made,
    Except.bind_eq_ok, BlockFactory.headerFromStorage_eq accepted.block.fits,
    Except.mapError_eq_ok, pure, Except.pure, Except.ok.injEq]
  constructor
  · rintro ⟨block, ⟨_, rfl, bytes, written, rfl⟩, validators, unpacked', _, served', rfl⟩
    rw [unpacked] at unpacked'
    obtain rfl := Except.ok.inj unpacked'
    rw [serializeCommit_of_fits accepted.fits] at served'
    obtain rfl := Except.ok.inj served'
    exact ⟨bytes, written, rfl⟩
  · rintro ⟨bytes, written, rfl⟩
    exact ⟨_, ⟨transactions, rfl, bytes, written, rfl⟩, _, unpacked, _,
      serializeCommit_of_fits accepted.fits bytes, rfl⟩

/-- A stored commit is served with its bytes exactly if all its transactions are canonical, and
then it is the commit that was stored. -/
theorem stored_commit_served {serialized : Bytes} {commit : SerializedCommit}
    (h : fromBytes sha256 wallets configuration roundValidators serialized = .ok commit) :
    ∃ stored, prepareCommitData commit = .ok stored ∧
      ((∃ served, fromStorage wallets configuration roundValidators stored = .ok served ∧
        served.serialized = serialized) ↔ CanonicalTransactions serialized) ∧
      (CanonicalTransactions serialized →
        fromStorage wallets configuration roundValidators stored = .ok commit) := by
  have accepted := fromBytes_eq_ok h
  obtain ⟨stored, transactions, prepared, made, restores⟩ :=
    TransactionFactory.mapM_fromStorage accepted.block.transactions commit.block.header.number 0
  have canonical := Transaction.Restores.map_serialized_eq_iff restores
  rw [← canonicalTransactions_iff accepted] at canonical
  have complete : CanonicalTransactions serialized → fromStorage wallets configuration
      roundValidators (commitData commit stored) = .ok commit := by
    intro h'
    have same := Transaction.Restores.eq_of_canonical restores
      ((canonicalTransactions_iff accepted).mp h')
    refine (fromStorage_eq_ok accepted made).mpr ⟨commit.block.serialized,
      (BlockFactory.serializeWithTransactions_eq_iff accepted.block).mpr (canonical.mpr h'), ?_⟩
    rw [same, ← accepted.bytes, ← accepted.serialized_eq]
  refine ⟨_, ?_, ⟨?_, fun h' => ⟨commit, complete h', accepted.serialized_eq⟩⟩, complete⟩
  · simp only [prepareCommitData, prepared]
    rfl
  · rintro ⟨served, made', same⟩
    obtain ⟨bytes, written, rfl⟩ := (fromStorage_eq_ok accepted made).mp made'
    rw [accepted.bytes] at same
    rw [List.append_cancel_left same] at written
    exact canonical.mp
      ((BlockFactory.serializeWithTransactions_eq_iff accepted.block).mp written)

end CommitFactory

end

namespace CommitFactory

/-- A commit of a block with the given transactions, as its bytes. -/
def commitOver (transactions : List Bytes) : Bytes :=
  encodeProof
      { round := 0, signature := List.replicate 96 0, validators := [true] } ++
    BlockFactory.blockOver transactions

/-- The factory with one validator in each round. -/
def sampleFromBytes : Bytes → Except CommitError SerializedCommit :=
  fromBytes (fun _ => List.replicate 32 0) sampleWallets
    devnet (fun _ => 1)

theorem stored_commit_served_sampleFields : ∃ commit stored,
      sampleFromBytes (commitOver [Rlp.list sampleFields]) = .ok commit ∧
      EvmInstance.prepareCommitData commit = .ok stored ∧
      fromStorage sampleWallets devnet (fun _ => 1) stored =
        .ok commit := by
  have accepted : (sampleFromBytes
      (commitOver [Rlp.list sampleFields])).toOption.isSome := by
    decide +kernel
  obtain ⟨commit, accepted⟩ := Option.isSome_iff_exists.mp accepted
  rw [Except.toOption_eq_some] at accepted
  obtain ⟨stored, prepared, -, served⟩ := stored_commit_served accepted
  refine ⟨commit, stored, accepted, prepared, served
    ⟨[Rlp.list sampleFields], by decide +kernel, ?_⟩⟩
  rw [List.forall_mem_singleton]
  exact ⟨by decide +kernel, sampleFields, rfl, .inl rfl⟩

/-- The bytes that are served for a commit. -/
def reserialized (commit : SerializedCommit) : Except StorageError Bytes := do
  let stored ← EvmInstance.prepareCommitData commit
  let served ← fromStorage sampleWallets devnet
    (fun _ => 1) stored
  return served.serialized

/-- A block with a transaction of eleven fields passes the size check, and is not served with
its bytes. -/
theorem exists_commit_not_served_back :
    ¬∀ (sha256 : Bytes → Bytes) (wallets : Wallets) (configuration : TransactionConfiguration)
      (roundValidators maxPayload : Nat → Nat) (serialized : Bytes) (commit : SerializedCommit),
      fromBytes sha256 wallets configuration roundValidators serialized = .ok commit →
      SizeVerifier.execute maxPayload commit.block = .ok () →
      ∃ stored served, EvmInstance.prepareCommitData commit = .ok stored ∧
        fromStorage wallets configuration roundValidators stored = .ok served ∧
        served.serialized = serialized := by
  intro claim
  have accepted : ((sampleFromBytes (commitOver
      [Rlp.list (TransactionFactory.sampleFields ++ [[], []])])).toOption.any fun commit =>
        SizeVerifier.execute (fun _ => 2097152) commit.block = .ok () ∧
          (reserialized commit).toOption ≠ some (commitOver
            [Rlp.list (TransactionFactory.sampleFields ++ [[], []])])) = true := by
    decide +kernel
  obtain ⟨commit, accepted, evaluated⟩ := (Option.any_eq_true _ _).mp accepted
  rw [Except.toOption_eq_some] at accepted
  obtain ⟨size, changed⟩ := of_decide_eq_true evaluated
  obtain ⟨stored, served, prepared, made, same⟩ := claim _ _ _ _ _ _ _ accepted size
  refine changed (Except.toOption_eq_some.mpr ?_)
  rw [reserialized, prepared]
  simp only [bind, Except.bind, made, pure, Except.pure, same]

end CommitFactory

end Mainsail
