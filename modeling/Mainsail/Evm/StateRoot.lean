import Mainsail.Evm.Data

/-!
# The state root

`state_root.rs`. The hash is fed with the number of the block, the previous root, the genesis
information and the sections of the change set. Every section begins with its number of entries,
every optional value with a flag and every text with its length, so that the bytes tell where each
part ends.
-/

namespace Mainsail.Evm

open Std.ExtTreeMap Prod Endian List

/-! ## The hash writer -/

def putU8 (value : UInt8) : Bytes := [value]

def putU64 (value : U64) : Bytes := big 8 value

def putU256 (value : Word) : Bytes := big 32 value

def putLen (value : Nat) : Bytes := big 8 value

def putAddress (address : Address) : Bytes := big 20 address

def putLegacyAddress (address : LegacyAddress) : Bytes := big 21 address

def putBytes (bytes : Bytes) : Bytes := putLen bytes.length ++ bytes

def putOpt {α : Type} (put : α → Bytes) (value : Option α) : Bytes :=
  match value with
  | none => putU8 0
  | some value => putU8 1 ++ put value

/-! ## Sections -/

def putGenesisInfo (info : GenesisInfo) : Bytes :=
  putAddress info.account ++ (putAddress info.deployerAccount ++
    (putAddress info.validatorContract ++ (putAddress info.usernameContract ++
      (putU64 info.initialBlockNumber ++ putU256 info.initialSupply))))

def putAccountInfo (account : AccountInfo) : Bytes :=
  putU256 account.balance ++ (putU64 account.nonce ++ putU256 account.codeHash)

def putAccounts (accounts : List (Address × Option AccountInfo)) : Bytes :=
  putLen accounts.length ++ accounts.flatMap fun entry =>
    putAddress entry.1 ++ putOpt putAccountInfo entry.2

def putContracts (contracts : List (Word × Bytes)) : Bytes :=
  putLen contracts.length ++ contracts.flatMap fun entry => putU256 entry.1

def putSlot (entry : Word × StorageSlot) : Bytes :=
  putU256 entry.1 ++ (putU256 entry.2.previousOrOriginalValue ++ putU256 entry.2.presentValue)

def putStorageChange (change : StorageChangeset) : Bytes :=
  putAddress change.address ++ (putU8 change.wipeStorage.toUInt8 ++
    (putLen change.storage.length ++ change.storage.flatMap putSlot))

def putStorage (storage : List StorageChangeset) : Bytes :=
  putLen storage.length ++ storage.flatMap putStorageChange

def putMultiSignature (multiSignature : LegacyMultiSignatureAttribute) : Bytes :=
  putU64 multiSignature.min ++
    (putLen multiSignature.publicKeys.length ++ multiSignature.publicKeys.flatMap putBytes)

def putAttributes (attributes : LegacyAccountAttributes) : Bytes :=
  putOpt putU64 attributes.legacyNonce ++ (putOpt putBytes attributes.secondPublicKey ++
    putOpt putMultiSignature attributes.multiSignature)

def putAttributesMap (attributes : Std.ExtTreeMap Address LegacyAccountAttributes) : Bytes :=
  putLen attributes.toList.length ++ attributes.toList.flatMap fun entry =>
    putAddress entry.1 ++ putAttributes entry.2

def putMergeInfo (mergeInfo : Word × Address) : Bytes :=
  putU256 mergeInfo.1 ++ putAddress mergeInfo.2

def putColdWallet (entry : LegacyAddress × LegacyColdWallet) : Bytes :=
  putLegacyAddress entry.1 ++ (putU256 entry.2.balance ++
    (putAttributes entry.2.legacyAttributes ++ putOpt putMergeInfo entry.2.mergeInfo))

def putColdWallets (wallets : Std.ExtTreeMap LegacyAddress LegacyColdWallet) : Bytes :=
  putLen wallets.toList.length ++ wallets.toList.flatMap putColdWallet

def putMergedColdWallet (entry : Address × (Word × LegacyAddress)) : Bytes :=
  putAddress entry.1 ++ (putU256 entry.2.1 ++ putLegacyAddress entry.2.2)

def putMergedColdWallets (merged : Std.ExtTreeMap Address (Word × LegacyAddress)) : Bytes :=
  putLen merged.toList.length ++ merged.toList.flatMap putMergedColdWallet

def domainStateRoot : Bytes := "MAINSAIL_STATE_v1".toUTF8.toList

/-- What the hash of the state root is fed with. -/
def preimage (genesisInfo : GenesisInfo) (key : CommitKey) (parentHash : Word)
    (changeSet : StateChangeset) : Bytes :=
  domainStateRoot ++ (putU64 key.blockNumber ++ (putU256 parentHash ++
    (putU8 0xff ++ (putGenesisInfo genesisInfo ++
    (putU8 0x01 ++ (putAccounts changeSet.accounts ++
    (putU8 0x02 ++ (putContracts changeSet.contracts ++
    (putU8 0x03 ++ (putStorage changeSet.storage ++
    (putU8 0x04 ++ (putAttributesMap changeSet.legacyAttributes ++
    (putU8 0x05 ++ (putColdWallets changeSet.legacyColdWallets ++
    (putU8 0x06 ++ putMergedColdWallets changeSet.mergedLegacyColdWallets)))))))))))))))

/-! ## What fits

The lengths of lists and texts in memory are 64-bit numbers. -/

def BytesSized (bytes : Bytes) : Prop := bytes.length < 2 ^ 64

structure LegacyMultiSignatureAttribute.Sized (m : LegacyMultiSignatureAttribute) : Prop where
  publicKeys : m.publicKeys.length < 2 ^ 64
  each : ∀ key ∈ m.publicKeys, BytesSized key

structure LegacyAccountAttributes.Sized (attributes : LegacyAccountAttributes) : Prop where
  secondPublicKey : ∀ key ∈ attributes.secondPublicKey, BytesSized key
  multiSignature : ∀ m ∈ attributes.multiSignature, m.Sized

/-- Each cold wallet is kept under its own address. -/
def Filed (wallets : Std.ExtTreeMap LegacyAddress LegacyColdWallet) : Prop :=
  ∀ entry ∈ wallets.toList, entry.2.address = entry.1

theorem filed_empty : Filed ∅ := by simp [Filed]

theorem Filed.insert {wallets : Std.ExtTreeMap LegacyAddress LegacyColdWallet} (h : Filed wallets)
    (wallet : LegacyColdWallet) : Filed (wallets.insert wallet.address wallet) := by
  simp only [Filed, Prod.forall, mem_toList_iff_getElem?_eq_some,
    Std.ExtTreeMap.getElem?_insert] at h ⊢
  intro a w found
  split at found
  · next same =>
      obtain rfl := Option.some.inj found
      exact Std.LawfulEqCmp.compare_eq_iff_eq.mp same
  · exact h a w found

/-- The change set of values in memory, with cold wallets as they are imported. -/
structure StateChangeset.Sized (c : StateChangeset) : Prop where
  accounts : c.accounts.length < 2 ^ 64
  contracts : c.contracts.length < 2 ^ 64
  storage : c.storage.length < 2 ^ 64
  slots : ∀ change ∈ c.storage, change.storage.length < 2 ^ 64
  legacyAttributes : c.legacyAttributes.toList.length < 2 ^ 64
  attributes : ∀ entry ∈ c.legacyAttributes.toList, entry.2.Sized
  legacyColdWallets : c.legacyColdWallets.toList.length < 2 ^ 64
  coldWallets : ∀ entry ∈ c.legacyColdWallets.toList, entry.2.legacyAttributes.Sized
  filed : Filed c.legacyColdWallets
  mergedLegacyColdWallets : c.mergedLegacyColdWallets.toList.length < 2 ^ 64

/-! ## Writers -/

section

variable {α : Type} {F : α → Prop} {put : α → Bytes}

/-- The writers of numbers of a fixed size. -/
theorem delimits_big {n width : Nat} (size : n ≤ 256 ^ width) :
    Delimits (fun _ : Fin n => True) fun value => big width value :=
  (Delimits.of_codec (Codec.big width)).comap Fin.val (fun _ => rfl)
    (fun value _ => value.isLt.trans_le size) fun _ _ _ _ same => Fin.ext same

theorem putU64_delimits : Delimits (fun _ => True) putU64 := delimits_big (by decide)

theorem putU256_delimits : Delimits (fun _ => True) putU256 := delimits_big (by decide)

theorem putAddress_delimits : Delimits (fun _ => True) putAddress := delimits_big (by decide)

theorem putLegacyAddress_delimits : Delimits (fun _ => True) putLegacyAddress :=
  delimits_big (by decide)

theorem putLen_delimits : Delimits (· < 2 ^ 64) putLen := Delimits.of_codec (Codec.big 8)

theorem putU8_delimits : Delimits (fun _ => True) putU8 := by
  intro a b r s _ _ same
  exact cons.inj same

theorem putOpt_delimits (h : Delimits F put) :
    Delimits (fun o : Option α => ∀ a ∈ o, F a) (putOpt put) := h.option

theorem putList_delimits (h : Delimits F put) :
    Delimits (fun as : List α => as.length < 2 ^ 64 ∧ ∀ a ∈ as, F a) fun as =>
      putLen as.length ++ as.flatMap put :=
  putLen_delimits.list h

/-- An ordered map is written as the list of its entries, which determines it. -/
theorem putMap_delimits {n : Nat} {F : Fin n × α → Prop} {put : Fin n × α → Bytes}
    (h : Delimits F put) :
    Delimits (fun m : Std.ExtTreeMap (Fin n) α => m.toList.length < 2 ^ 64 ∧
      ∀ entry ∈ m.toList, F entry) fun m => putLen m.toList.length ++ m.toList.flatMap put :=
  (putList_delimits h).comap toList (fun _ => rfl) (fun _ => id)
    fun _ _ _ _ same => toList_inj.mp same

end

theorem putBytes_delimits : Delimits BytesSized putBytes := by
  refine (putList_delimits putU8_delimits).comap id ?_ (fun _ small => ⟨small, by simp⟩)
    fun _ _ _ _ => id
  intro bytes
  change putLen bytes.length ++ bytes = putLen bytes.length ++ bytes.flatMap fun b => [b]
  rw [flatMap_singleton']

theorem putGenesisInfo_delimits : Delimits (fun _ => True) putGenesisInfo := by
  refine (putAddress_delimits.append (putAddress_delimits.append (putAddress_delimits.append
    (putAddress_delimits.append (putU64_delimits.append putU256_delimits))))).comap
    (fun info => (info.account, info.deployerAccount, info.validatorContract,
      info.usernameContract, info.initialBlockNumber, info.initialSupply))
    (fun _ => rfl) (by simp) ?_
  rintro ⟨⟩ ⟨⟩ - - same
  simpa using same

theorem putAccountInfo_delimits : Delimits (fun _ => True) putAccountInfo := by
  refine (putU256_delimits.append (putU64_delimits.append putU256_delimits)).comap
    (fun account => (account.balance, account.nonce, account.codeHash)) (fun _ => rfl) (by simp) ?_
  rintro ⟨⟩ ⟨⟩ - - same
  simpa using same

theorem putAccounts_delimits : Delimits (fun accounts => accounts.length < 2 ^ 64) putAccounts :=
  (putList_delimits (putAddress_delimits.append (putOpt_delimits putAccountInfo_delimits))).comap
    id (fun _ => rfl) (by simp) fun _ _ _ _ => id

/-- Of the contracts the hashes are written. -/
theorem putContracts_eq (contracts : List (Word × Bytes)) : putContracts contracts =
      putLen (contracts.map fst).length ++ (contracts.map fst).flatMap putU256 := by
  simp [putContracts, flatMap_map]

theorem putSlot_delimits : Delimits (fun _ => True) putSlot := by
  refine (putU256_delimits.append (putU256_delimits.append putU256_delimits)).comap
    (fun entry => (entry.1, entry.2.previousOrOriginalValue, entry.2.presentValue))
    (fun _ => rfl) (by simp) ?_
  rintro ⟨_, ⟨⟩⟩ ⟨_, ⟨⟩⟩ - - same
  simpa using same

theorem putStorageChange_delimits :
    Delimits (fun change => change.storage.length < 2 ^ 64) putStorageChange := by
  refine (putAddress_delimits.append (putU8_delimits.append
    (putList_delimits putSlot_delimits))).comap
    (fun change => (change.address, change.wipeStorage.toUInt8, change.storage))
    (fun _ => rfl) (by simp) ?_
  have flag : ∀ b c : Bool, b.toUInt8 = c.toUInt8 → b = c := by decide
  rintro ⟨⟩ ⟨⟩ - - same
  obtain ⟨rfl, wipe, rfl⟩ := by simpa using same
  rw [flag _ _ wipe]

theorem putStorage_delimits :
    Delimits (fun storage : List StorageChangeset => storage.length < 2 ^ 64 ∧
      ∀ change ∈ storage, change.storage.length < 2 ^ 64) putStorage :=
  putList_delimits putStorageChange_delimits

theorem putMultiSignature_delimits :
    Delimits LegacyMultiSignatureAttribute.Sized putMultiSignature := by
  refine (putU64_delimits.append (putList_delimits putBytes_delimits)).comap
    (fun m => (m.min, m.publicKeys)) (fun _ => rfl)
    (fun _ sized => ⟨trivial, sized.publicKeys, sized.each⟩) ?_
  rintro ⟨⟩ ⟨⟩ - - same
  simpa using same

theorem putAttributes_delimits : Delimits LegacyAccountAttributes.Sized putAttributes := by
  refine ((putOpt_delimits putU64_delimits).append ((putOpt_delimits putBytes_delimits).append
    (putOpt_delimits putMultiSignature_delimits))).comap
    (fun attributes =>
      (attributes.legacyNonce, attributes.secondPublicKey, attributes.multiSignature))
    (fun _ => rfl)
    (fun _ sized => ⟨fun _ _ => trivial, sized.secondPublicKey, sized.multiSignature⟩) ?_
  rintro ⟨⟩ ⟨⟩ - - same
  simpa using same

theorem putAttributesMap_delimits : Delimits (fun attributes => attributes.toList.length < 2 ^ 64 ∧
      ∀ entry ∈ attributes.toList, entry.2.Sized) putAttributesMap :=
  (putMap_delimits (putAddress_delimits.append putAttributes_delimits)).comap id (fun _ => rfl)
    (fun _ sized => ⟨sized.1, fun entry member => ⟨trivial, sized.2 entry member⟩⟩)
    fun _ _ _ _ => id

theorem putColdWallet_delimits : Delimits (fun entry : LegacyAddress × LegacyColdWallet =>
      entry.2.legacyAttributes.Sized ∧ entry.2.address = entry.1) putColdWallet := by
  refine (putLegacyAddress_delimits.append (putU256_delimits.append (putAttributes_delimits.append
    (putOpt_delimits (putU256_delimits.append putAddress_delimits))))).comap
    (fun entry => (entry.1, entry.2.balance, entry.2.legacyAttributes, entry.2.mergeInfo))
    (fun _ => rfl) (by simp +contextual) ?_
  rintro ⟨_, ⟨⟩⟩ ⟨_, ⟨⟩⟩ ⟨-, filed⟩ ⟨-, filed'⟩ same
  dsimp only at filed filed'
  subst filed filed'
  simpa using same

theorem putColdWallets_delimits :
    Delimits (fun wallets => wallets.toList.length < 2 ^ 64 ∧ ∀ entry ∈ wallets.toList,
      entry.2.legacyAttributes.Sized ∧ entry.2.address = entry.1) putColdWallets :=
  putMap_delimits putColdWallet_delimits

theorem putMergedColdWallets_delimits :
    Delimits (fun merged => merged.toList.length < 2 ^ 64) putMergedColdWallets :=
  (putMap_delimits (putAddress_delimits.append (putU256_delimits.append
    putLegacyAddress_delimits))).comap id (fun _ => rfl) (by simp) fun _ _ _ _ => id

/-- The bytes that are hashed determine the number of the block, the previous root, the genesis
information and the change set, of which the codes enter with their hashes. -/
theorem preimage_injective {genesisInfo genesisInfo' : GenesisInfo} {key key' : CommitKey}
    {parentHash parentHash' : Word} {c c' : StateChangeset} (sized : c.Sized) (sized' : c'.Sized)
    (same : preimage genesisInfo key parentHash c = preimage genesisInfo' key' parentHash' c') :
    key.blockNumber = key'.blockNumber ∧ parentHash = parentHash' ∧ genesisInfo = genesisInfo' ∧
      c.accounts = c'.accounts ∧ c.contracts.map fst = c'.contracts.map fst ∧
      c.storage = c'.storage ∧ c.legacyAttributes = c'.legacyAttributes ∧
      c.legacyColdWallets = c'.legacyColdWallets ∧
      c.mergedLegacyColdWallets = c'.mergedLegacyColdWallets := by
  have same := append_cancel_left same
  obtain ⟨number, same⟩ := putU64_delimits _ _ _ _ trivial trivial same
  obtain ⟨parent, same⟩ := putU256_delimits _ _ _ _ trivial trivial same
  have same := append_cancel_left same
  obtain ⟨genesis, same⟩ := putGenesisInfo_delimits _ _ _ _ trivial trivial same
  have same := append_cancel_left same
  obtain ⟨accounts, same⟩ :=
    putAccounts_delimits _ _ _ _ sized.accounts sized'.accounts same
  have same := append_cancel_left same
  rw [putContracts_eq, putContracts_eq] at same
  obtain ⟨contracts, same⟩ := putList_delimits putU256_delimits _ _ _ _
    ⟨by simpa using sized.contracts, by simp⟩ ⟨by simpa using sized'.contracts, by simp⟩ same
  have same := append_cancel_left same
  obtain ⟨storage, same⟩ := putStorage_delimits _ _ _ _ ⟨sized.storage, sized.slots⟩
    ⟨sized'.storage, sized'.slots⟩ same
  have same := append_cancel_left same
  obtain ⟨attributes, same⟩ := putAttributesMap_delimits _ _ _ _
    ⟨sized.legacyAttributes, sized.attributes⟩ ⟨sized'.legacyAttributes, sized'.attributes⟩ same
  have same := append_cancel_left same
  obtain ⟨wallets, same⟩ := putColdWallets_delimits _ _ _ _
    ⟨sized.legacyColdWallets, fun entry member => ⟨sized.coldWallets entry member, sized.filed entry member⟩⟩
    ⟨sized'.legacyColdWallets, fun entry member =>
      ⟨sized'.coldWallets entry member, sized'.filed entry member⟩⟩ same
  have same := append_cancel_left same
  obtain ⟨merged, -⟩ := putMergedColdWallets_delimits _ _ [] [] sized.mergedLegacyColdWallets
    sized'.mergedLegacyColdWallets (by simpa using same)
  exact ⟨number, parent, genesis, accounts, contracts, storage, attributes, wallets, merged⟩

namespace Sample

def genesisInfo : GenesisInfo := ⟨1, 2, 3, 4, 0, 100⟩

def wallet : LegacyColdWallet := { address := 6, balance := 9 }

/-- A change set with an entry in every section. -/
def changeSet (code : Bytes) : StateChangeset where
  accounts := [(1, some { balance := 5, codeHash := 0 }), (2, none)]
  storage := [⟨2, true, []⟩, ⟨3, false, [(0, ⟨0, 1⟩)]⟩]
  contracts := [(7, code)]
  legacyAttributes := .insert ∅ 8 { secondPublicKey := some [1, 2] }
  legacyColdWallets := .insert ∅ 6 wallet
  mergedLegacyColdWallets := .insert ∅ 1 (3, 6)

theorem changeSet_sized (code : Bytes) : (changeSet code).Sized := by
  constructor
  case attributes =>
    simp only [Prod.forall, mem_toList_iff_getElem?_eq_some, changeSet, Std.ExtTreeMap.getElem?_insert]
    intro a attributes found
    split at found
    · cases found
      exact ⟨by simp [BytesSized], by simp⟩
    · simp at found
  case coldWallets =>
    simp only [Prod.forall, mem_toList_iff_getElem?_eq_some, changeSet, Std.ExtTreeMap.getElem?_insert]
    intro a w found
    split at found
    · cases found
      exact ⟨by simp [wallet], by simp [wallet]⟩
    · simp at found
  case filed => exact filed_empty.insert wallet
  all_goals simp [changeSet, size_insert]

end Sample

open Sample

/-- Neither the round of a block nor the code behind a hash enters the state root. -/
theorem preimage_injective_sample : preimage genesisInfo ⟨5, 0, 0⟩ 7 (changeSet [1]) =
        preimage genesisInfo ⟨5, 1, 2⟩ 7 (changeSet [2]) ∧
      (changeSet [1]).contracts.map fst =
        (changeSet [2]).contracts.map fst := by
  have same : preimage genesisInfo ⟨5, 0, 0⟩ 7 (changeSet [1]) =
      preimage genesisInfo ⟨5, 1, 2⟩ 7 (changeSet [2]) := by
    simp [preimage, changeSet, putContracts]
  obtain ⟨-, -, -, -, contracts, -⟩ :=
    preimage_injective (changeSet_sized [1]) (changeSet_sized [2]) same
  exact ⟨same, contracts⟩

end Mainsail.Evm
