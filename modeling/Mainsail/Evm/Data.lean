import Mathlib.Data.List.AList
import Mainsail.Contracts.ConsensusV1

/-!
# The data of the EVM state

The records of `packages/evm/core` that make up the state: accounts, storage slots and what was
imported from the legacy chain. A hash is the number whose big-endian bytes it has, and a text the
list of its bytes. A `BTreeMap` is an ordered map.
-/

namespace Mainsail.Evm

instance words : NeZero (2 ^ 256) := ⟨by decide⟩

instance legacyAddresses : NeZero (2 ^ 168) := ⟨by decide⟩

instance counters : NeZero (2 ^ 64) := ⟨by decide⟩

instance indices : NeZero (2 ^ 16) := ⟨by decide⟩

/-- `U256` and `B256`. -/
abbrev Word := Fin (2 ^ 256)

/-- `u64`, and `usize` where it is hashed. -/
abbrev U64 := Fin (2 ^ 64)

/-- The 21 bytes of an address of the legacy chain. -/
abbrev LegacyAddress := Fin (2 ^ 168)

instance addressOrder : Std.TransOrd Address := inferInstance

instance wordOrder : Std.TransOrd Word := inferInstance

instance legacyAddressOrder : Std.TransOrd LegacyAddress := inferInstance

/-- An account without its code. -/
structure AccountInfo where
  balance : Word := 0
  nonce : U64 := 0
  codeHash : Word
  deriving DecidableEq, Repr

structure LegacyMultiSignatureAttribute where
  min : U64
  publicKeys : List Bytes
  deriving DecidableEq, Repr

structure LegacyAccountAttributes where
  legacyNonce : Option U64 := none
  secondPublicKey : Option Bytes := none
  multiSignature : Option LegacyMultiSignatureAttribute := none
  deriving DecidableEq, Repr

structure LegacyColdWallet where
  address : LegacyAddress
  balance : Word
  legacyAttributes : LegacyAccountAttributes := {}
  mergeInfo : Option (Word × Address) := none
  deriving DecidableEq, Repr

structure StorageSlot where
  previousOrOriginalValue : Word
  presentValue : Word
  deriving DecidableEq, Repr

structure StorageChangeset where
  address : Address
  wipeStorage : Bool
  storage : List (Word × StorageSlot)
  deriving DecidableEq, Repr

@[ext]
structure StateChangeset where
  accounts : List (Address × Option AccountInfo) := []
  storage : List StorageChangeset := []
  /-- The codes, after their hashes. -/
  contracts : List (Word × Bytes) := []
  legacyAttributes : Std.ExtTreeMap Address LegacyAccountAttributes := ∅
  legacyColdWallets : Std.ExtTreeMap LegacyAddress LegacyColdWallet := ∅
  mergedLegacyColdWallets : Std.ExtTreeMap Address (Word × LegacyAddress) := ∅

structure GenesisInfo where
  account : Address
  deployerAccount : Address
  validatorContract : Address
  usernameContract : Address
  initialBlockNumber : U64
  initialSupply : Word
  deriving DecidableEq, Repr

/-- The block number, the round and the hash of the block. -/
structure CommitKey where
  blockNumber : U64
  round : U64
  blockHash : Word
  deriving DecidableEq, Repr

/-! ## Executions -/

structure Log where
  address : Address
  topics : List Word
  data : Bytes
  deriving DecidableEq, Repr

inductive ExecutionResult
  | success (gasUsed : Nat) (logs : List Log)
  | revert (gasUsed : Nat)
  | halt (gasUsed : Nat)
  deriving DecidableEq, Repr

def ExecutionResult.gasUsed : ExecutionResult → Nat
  | success gasUsed _ | revert gasUsed | halt gasUsed => gasUsed

/-- An account in memory, with its code where that has been loaded. -/
structure LoadedInfo extends AccountInfo where
  code : Option Bytes := none
  deriving DecidableEq, Repr

inductive AccountStatus
  | loadedNotExisting
  | loaded
  | loadedEmptyEIP161
  | inMemoryChange
  | changed
  | destroyed
  | destroyedChanged
  | destroyedAgain
  deriving DecidableEq, Repr

def AccountStatus.wasDestroyed : AccountStatus → Bool
  | destroyed | destroyedChanged | destroyedAgain => true
  | _ => false

/-- A hash map. -/
abbrev HashMap (κ ν : Type) := AList fun _ : κ => ν

/-- What has become of an account since the beginning of a block. -/
structure TransitionAccount where
  info : Option LoadedInfo
  status : AccountStatus
  previousInfo : Option LoadedInfo
  previousStatus : AccountStatus
  storage : HashMap Word StorageSlot
  storageWasDestroyed : Bool

/-- An account as the transactions of a block have left it so far. -/
structure CacheAccount where
  info : Option LoadedInfo
  status : AccountStatus
  storage : HashMap Word Word := ∅

structure CacheState where
  accounts : HashMap Address CacheAccount := ∅
  contracts : HashMap Word Bytes := ∅

/-! ## Blocks -/

structure ProofData where
  round : Fin (2 ^ 32)
  deriving DecidableEq, Repr

structure BlockHeaderData where
  hash : Word
  transactionsCount : Fin (2 ^ 16)
  payloadSize : Fin (2 ^ 32)
  deriving DecidableEq, Repr

structure TransactionData where
  txHash : Word
  deriving DecidableEq, Repr

structure TransactionKey where
  blockNumber : U64
  index : Fin (2 ^ 16)
  deriving DecidableEq, Repr

structure CommitData where
  proof : ProofData
  header : BlockHeaderData
  transactions : List TransactionData
  deriving DecidableEq, Repr

/-- Why the database refuses a commit or a read. -/
inductive DbError
  | blockAlreadyCommitted
  | historyExists
  /-- A stored entry that is not one of a slot and its value. -/
  | storageEntry
  | keyExist
  /-- An assertion that fails, which is a panic. -/
  | assertion
  | walletNotFound (address : LegacyAddress)
  | walletAlreadyMerged (address : LegacyAddress)
  | totalRound (length : Nat)
  deriving DecidableEq, Repr

end Mainsail.Evm
