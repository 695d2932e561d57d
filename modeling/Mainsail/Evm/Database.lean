import Mainsail.Foundation.Transition
import Mainsail.Evm.History
import Mainsail.Evm.Storage

/-!
# The database of the EVM

`PersistentDB` of `db.rs`: its tables, the write transaction of a commit and the reads of accounts.
A commit that fails leaves the database as it was.
-/

namespace Mainsail.Evm

open Except Function
open Option (ite_none_right_eq_some some isSome_iff_exists)

/-- Writing the value of one key of a table. -/
def put {κ ν : Type} [DecidableEq κ] (table : κ → Option ν) (e : κ × ν) : κ → Option ν :=
  update table e.1 (some e.2)

theorem foldl_put_of_not_mem {κ ν : Type} [DecidableEq κ] {l : List (κ × ν)} {k : κ}
    (absent : k ∉ l.map Prod.fst) (table : κ → Option ν) : l.foldl put table k = table k := by
  induction l generalizing table with
  | nil => rfl
  | cons e l ih =>
    obtain ⟨other, rest⟩ := not_or.mp (mt List.mem_cons.mpr absent)
    rw [List.foldl_cons, ih rest, put, update_of_ne other]

/-- The tables of blocks and transactions. -/
structure ChainTables where
  blocks : U64 → Option BlockHeaderData := fun _ => none
  blocksHashNumber : Word → Option U64 := fun _ => none
  proofs : U64 → Option ProofData := fun _ => none
  transactions : TransactionKey → Option TransactionData := fun _ => none
  transactionsHashKey : Word → Option TransactionKey := fun _ => none
  /-- What the table `state` has under `total_round`. -/
  totalRound : Option Bytes := none

structure PersistentDb where
  accounts : Address → Option AccountInfo := fun _ => none
  /-- The history, if it is enabled. -/
  accountsHistory : Option AccountHistory := none
  legacyAttributes : Address → Option LegacyAccountAttributes := fun _ => none
  legacyColdWallets : LegacyAddress → Option LegacyColdWallet := fun _ => none
  contracts : Word → Option Bytes := fun _ => none
  storage : StorageTable := .empty
  chain : ChainTables := {}
  /-- The receipts of each block that has been committed. -/
  commits : U64 → Option (Std.ExtTreeMap Word (ExecutionResult × Nat)) := fun _ => none

/-! ## Commits -/

def readTotalRound : Option Bytes → Except DbError U64
  | none => .ok 0
  | some totalRound =>
    if totalRound.length ≠ 8 then .error (.totalRound totalRound.length)
    else .ok (Fin.ofNat _ (Endian.ofLittle totalRound))

def ChainTables.commit (t : ChainTables) (blockNumber : U64) (data : CommitData) :
    Except DbError ChainTables := do
  let transactions := data.transactions.zipIdx.map fun (transaction, sequence) =>
    ((⟨blockNumber, Fin.ofNat _ sequence⟩ : TransactionKey), transaction)
  let currentTotalRound ← readTotalRound t.totalRound
  return {
    blocks := put t.blocks (blockNumber, data.header)
    blocksHashNumber := put t.blocksHashNumber (data.header.hash, blockNumber)
    proofs := put t.proofs (blockNumber, data.proof)
    transactions := transactions.foldl put t.transactions
    transactionsHashKey := transactions.foldl (fun table e => put table (e.2.txHash, e.1))
      t.transactionsHashKey
    totalRound := some (Endian.little 8
      ((currentTotalRound.val + data.proof.round.val + 1) % 2 ^ 64)) }

/-- The tables that a merge of cold wallets writes. -/
structure LegacyTables where
  wallets : LegacyAddress → Option LegacyColdWallet
  attributes : Address → Option LegacyAccountAttributes

def LegacyTables.merge (t : LegacyTables) (e : Address × Word × LegacyAddress) :
    Except DbError LegacyTables :=
  match t.wallets e.2.2 with
  | none => .error (.walletNotFound e.2.2)
  | some wallet =>
    if wallet.mergeInfo.isSome then .error (.walletAlreadyMerged e.2.2)
    else
      .ok
        { wallets := put t.wallets (e.2.2, { wallet with mergeInfo := some (e.2.1, e.1) })
          attributes := put t.attributes (e.1, wallet.legacyAttributes) }

namespace PersistentDb

variable (db : PersistentDb)

def isBlockCommitted (blockNumber : U64) : Bool := (db.commits blockNumber).isSome

/-- An account is written, or deleted. -/
def putAccount (accounts : Address → Option AccountInfo) (e : Address × Option AccountInfo) :
    Address → Option AccountInfo :=
  update accounts e.1 e.2

def updateHistory (blockNumber : U64) (accounts : List (Address × Option AccountInfo)) :
    Except DbError (Option AccountHistory) :=
  match db.accountsHistory with
  | none => .ok none
  | some history => some <$> history.insert blockNumber (accounts.map fun e => (e.1, e.2.getD .empty))

def updateChain (blockNumber : U64) (data : Option CommitData) : Except DbError ChainTables :=
  match data with
  | none => .ok db.chain
  | some data => db.chain.commit blockNumber data

def commit (c : StateCommit) (data : Option CommitData) : Except DbError PersistentDb := do
  if db.isBlockCommitted c.key.blockNumber then throw .blockAlreadyCommitted
  let changes := c.changeSet
  let accountsHistory ← db.updateHistory c.key.blockNumber changes.accounts
  let storage ← commitStorage db.storage changes.storage
  let legacy ← changes.mergedLegacyColdWallets.toList.foldlM LegacyTables.merge
    { wallets := changes.legacyColdWallets.toList.foldl put db.legacyColdWallets
      attributes := changes.legacyAttributes.toList.foldl put db.legacyAttributes }
  let chain ← db.updateChain c.key.blockNumber data
  return {
    accounts := changes.accounts.foldl putAccount db.accounts
    accountsHistory
    legacyAttributes := legacy.attributes
    legacyColdWallets := legacy.wallets
    contracts := changes.contracts.foldl put db.contracts
    storage
    chain
    commits := put db.commits (c.key.blockNumber, c.results) }

/-! ## Reads -/

def codeByHash (codeHash : Word) : Bytes := (db.contracts codeHash).getD []

def getHistoricalAccountInfo (blockNumber : U64) (address : Address) : Option AccountInfo × Bool :=
  match db.accountsHistory with
  | none => (none, false)
  | some history => history.getByBlockAndAddress blockNumber address

/-- The account that a read takes, at the end of a block or as it is now. -/
def accountAt (address : Address) : Option U64 → Option AccountInfo
  | none => db.accounts address
  | some blockNumber =>
    match db.getHistoricalAccountInfo blockNumber address with
    | (some historical, _) => some historical
    | (none, true) => db.accounts address
    | (none, false) => none

def getAccountInfo (address : Address) (blockNumber : Option U64) : AccountInfo :=
  (db.accountAt address blockNumber).getD .empty

def codeAt (address : Address) (blockNumber : Option U64) : Bytes :=
  match db.accountAt address blockNumber with
  | some account => db.codeByHash account.codeHash
  | none => []

/-- Whether a transaction of a block has been committed, with its result. -/
def getReceipt (blockNumber : U64) (txHash : Word) : Bool × Option (ExecutionResult × Nat) :=
  match db.commits blockNumber with
  | some receipts => (true, receipts[txHash]?)
  | none => (false, none)

/-! ## What a commit writes -/

section

variable {db} {db' : PersistentDb} {c : StateCommit} {data : Option CommitData}

/-- All that a commit that succeeds has done. -/
theorem commit_eq_ok (h : db.commit c data = .ok db') : db.commits c.key.blockNumber = none ∧
      db.updateHistory c.key.blockNumber c.changeSet.accounts = .ok db'.accountsHistory ∧
      commitStorage db.storage c.changeSet.storage = .ok db'.storage ∧
      c.changeSet.mergedLegacyColdWallets.toList.foldlM LegacyTables.merge
          { wallets := c.changeSet.legacyColdWallets.toList.foldl put db.legacyColdWallets
            attributes := c.changeSet.legacyAttributes.toList.foldl put db.legacyAttributes } =
        .ok ⟨db'.legacyColdWallets, db'.legacyAttributes⟩ ∧
      db.updateChain c.key.blockNumber data = .ok db'.chain ∧
      db'.accounts = c.changeSet.accounts.foldl putAccount db.accounts ∧
      db'.contracts = c.changeSet.contracts.foldl put db.contracts ∧
      db'.commits = put db.commits (c.key.blockNumber, c.results) := by
  unfold commit at h
  split at h
  · cases h
  · next fresh =>
      obtain ⟨-, -, h⟩ := bind_eq_ok.mp h
      obtain ⟨history, inserted, h⟩ := bind_eq_ok.mp h
      obtain ⟨storage, stored, h⟩ := bind_eq_ok.mp h
      obtain ⟨legacy, merged, h⟩ := bind_eq_ok.mp h
      obtain ⟨chain, chained, h⟩ := bind_eq_ok.mp h
      cases h
      exact ⟨by simpa [isBlockCommitted] using fresh, inserted, stored, merged, chained, rfl, rfl,
        rfl⟩

end

/-- The database that is opened for the first time. -/
def opened (history : Option AccountHistory) : PersistentDb := { accountsHistory := history }

/-- The states that commits lead to. -/
def Reachable : Prop :=
  ∃ history, Transition.Reach (fun db (e : StateCommit × Option CommitData) =>
    (db.commit e.1 e.2).toOption) (fun _ _ => True) (opened history) db

/-- The storage table represents the values of the slots. -/
theorem Reachable.represents (reach : db.Reachable) : ∃ f, Represents db.storage f := by
  obtain ⟨history, reach⟩ := reach
  refine reach.invariant (P := fun db => ∃ f, Represents db.storage f) ⟨_, .empty⟩ ?_
  rintro db ⟨c, data⟩ db' ⟨f, rep⟩ - done
  obtain ⟨-, -, stored, -⟩ := commit_eq_ok (toOption_eq_some.mp done)
  obtain ⟨t, stored', rep⟩ := rep.commitStorage c.changeSet.storage
  obtain rfl : t = db'.storage := ok.inj (stored'.symm.trans stored)
  exact ⟨_, rep⟩

end PersistentDb

/-! ## Storage -/

/-- Each account and slot is listed once in a commit that is built from a block. -/
theorem buildCommit_distinct (σ : Unordered.Schedule Site) (revm : Bundling) (p : PendingCommit) :
    Distinct (buildCommit σ revm p).changeSet.storage := by
  have storage : (buildCommit σ revm p).changeSet.storage = (finalize σ (bundleIntoChangeSet σ
        (revm.applyTransitions (σ.iterate .transitions p.transitions.entries)))).storage := rfl
  rw [storage, finalize_storage]
  constructor
  · refine ((σ.sort_perm ..).map _).nodup_iff.mpr (σ.nodup_filterMap .state _ ?_)
    intro e change found
    obtain ⟨-, found⟩ := ite_none_right_eq_some.mp found
    rw [← some.inj found]
  · intro change member
    obtain ⟨e, -, found⟩ := List.mem_filterMap.mp ((σ.sort_perm ..).mem_iff.mp member)
    obtain ⟨-, found⟩ := ite_none_right_eq_some.mp found
    rw [← some.inj found]
    refine ((σ.sort_perm ..).map _).nodup_iff.mpr (σ.nodup_filterMap _ _ ?_)
    intro e slot found
    obtain ⟨-, found⟩ := ite_none_right_eq_some.mp found
    rw [← some.inj found]

/-- What is stored is not zero, and there is at most one entry for a slot. -/
theorem Represents.entries {t : StorageTable} {f : Slots} (rep : Represents t f) (a : Address) :
    (∀ entry ∈ t.dups a, ∃ slot value, value ≠ 0 ∧ decodeEntry entry = .ok (slot, value)) ∧
      (t.dups a).Pairwise fun entry entry' => ∀ slot value value',
        decodeEntry entry = .ok (slot, value) → decodeEntry entry' ≠ .ok (slot, value') := by
  constructor
  · intro entry member
    obtain ⟨slot, nonzero, rfl⟩ := (rep a entry).mp member
    exact ⟨slot, f a slot, nonzero, decodeEntry_entryBytes ..⟩
  · refine (t.sorted a).imp_of_mem ?_
    intro entry entry' member member' less slot value value' decoded decoded'
    obtain ⟨s, -, rfl⟩ := (rep a entry).mp member
    obtain ⟨s', -, rfl⟩ := (rep a entry').mp member'
    rw [decodeEntry_entryBytes] at decoded decoded'
    have first := (Prod.mk.inj (ok.inj decoded)).1
    have second := (Prod.mk.inj (ok.inj decoded')).1
    exact less.ne (slotRank_entryBytes.mpr (first.trans second.symm))

/-- The commits that blocks are built into list each slot once. The storage part of a commit does
not fail. After it a slot that the change set lists has the present value, any other is zero if the
storage of its account is wiped, and as before if not. -/
theorem commit_storage :
    (∀ σ revm p, Distinct (buildCommit σ revm p).changeSet.storage) ∧
    ∀ {db : PersistentDb} {c : StateCommit} {data : Option CommitData},
      db.Reachable → Distinct c.changeSet.storage →
      (∃ t, commitStorage db.storage c.changeSet.storage = .ok t) ∧
      ∀ {db' : PersistentDb}, db.commit c data = .ok db' →
        (∀ change ∈ c.changeSet.storage, ∀ e ∈ change.storage,
          storageRef db'.storage change.address e.1 = .ok e.2.presentValue) ∧
        (∀ change ∈ c.changeSet.storage, change.wipeStorage = true →
          ∀ slot ∉ change.storage.map Prod.fst,
            storageRef db'.storage change.address slot = .ok 0) ∧
        (∀ a slot, (∀ change ∈ c.changeSet.storage, change.address = a →
            change.wipeStorage = false ∧ slot ∉ change.storage.map Prod.fst) →
          ∃ value, storageRef db.storage a slot = .ok value ∧
            storageRef db'.storage a slot = .ok value) ∧
        ∀ a,
          (∀ entry ∈ db'.storage.dups a, ∃ slot value, value ≠ 0 ∧
            decodeEntry entry = .ok (slot, value)) ∧
          (db'.storage.dups a).Pairwise fun entry entry' => ∀ slot value value',
            decodeEntry entry = .ok (slot, value) → decodeEntry entry' ≠ .ok (slot, value') := by
  refine ⟨buildCommit_distinct, ?_⟩
  intro db c data reach distinct
  obtain ⟨f, rep⟩ := reach.represents
  obtain ⟨t, stored, rep'⟩ := rep.commitStorage c.changeSet.storage
  refine ⟨⟨t, stored⟩, ?_⟩
  intro db' done
  obtain rfl : t = db'.storage :=
    ok.inj (stored.symm.trans (PersistentDb.commit_eq_ok done).2.2.1)
  refine ⟨?_, ?_, ?_, rep'.entries⟩
  · intro change member e listed
    obtain ⟨g, same⟩ := Slots.changes_of_mem (f := f) distinct.1 member e.1
    rw [rep'.storageRef, same, Slots.change_of_mem (distinct.2 change member) listed]
  · intro change member wipe slot unlisted
    obtain ⟨g, same⟩ := Slots.changes_of_mem (f := f) distinct.1 member slot
    rw [rep'.storageRef, same, Slots.change_of_wipe wipe unlisted]
  · intro a slot untouched
    refine ⟨f a slot, rep.storageRef a slot, ?_⟩
    rw [rep'.storageRef, Slots.changes_of_untouched untouched]

namespace Sample

def stores : StateCommit where
  key := ⟨1, 0, 0⟩
  changeSet := { storage := [⟨3, false, [(7, ⟨0, 2⟩), (8, ⟨0, 1⟩)]⟩] }
  results := ∅

def wipes : StateCommit where
  key := ⟨2, 0, 0⟩
  changeSet := { storage := [⟨3, true, [(8, ⟨0, 5⟩)]⟩] }
  results := ∅

end Sample

theorem commit_storage_sample :
    ∃ db db', (PersistentDb.opened none).commit Sample.stores none = .ok db ∧
      db.commit Sample.wipes none = .ok db' ∧
      storageRef db'.storage 3 8 = .ok 5 ∧ storageRef db'.storage 3 7 = .ok 0 := by
  have runs : ((PersistentDb.opened none).commit Sample.stores none >>= fun db =>
      db.commit Sample.wipes none).toOption.isSome = true := by decide +kernel
  obtain ⟨db', done⟩ := isSome_iff_exists.mp runs
  obtain ⟨db, first, second⟩ := bind_eq_ok.mp (toOption_eq_some.mp done)
  have reach : db.Reachable :=
    ⟨none, .tail (e := (Sample.stores, none)) .refl trivial (toOption_eq_some.mpr first)⟩
  obtain ⟨listed, wiped, -⟩ := (commit_storage.2 reach (by decide)).2 second
  exact ⟨db, db', first, second, listed ⟨3, true, [(8, ⟨0, 5⟩)]⟩ (.head _) (8, ⟨0, 5⟩) (.head _),
    wiped ⟨3, true, [(8, ⟨0, 5⟩)]⟩ (.head _) rfl 7 (by decide)⟩

/-! ## Committed blocks -/

namespace PersistentDb

variable {db db' : PersistentDb} {n : U64}

/-- All that is stored under a block number. -/
def record (db : PersistentDb) (n : U64) :=
  (db.commits n, db.chain.blocks n, db.chain.proofs n, fun i => db.chain.transactions ⟨n, i⟩)

theorem record_of_commit {c : StateCommit} {data : Option CommitData}
    (done : db.commit c data = .ok db') (other : n ≠ c.key.blockNumber) :
    db'.record n = db.record n := by
  obtain ⟨-, -, -, -, chain, -, -, commits⟩ := commit_eq_ok done
  unfold record
  rw [commits, put, update_of_ne other]
  cases data with
  | none => rw [ok.inj chain]
  | some data =>
    obtain ⟨_, -, chain⟩ := bind_eq_ok.mp chain
    rw [← ok.inj chain]
    simp only [put, update_of_ne other]
    congr
    funext i
    exact foldl_put_of_not_mem (by simp [other.symm]) _

/-- Whatever is committed later, a committed block stays as it is, and its number is not committed
again. -/
theorem record_kept (committed : db.isBlockCommitted n)
    (later : Transition.Reach (fun db (e : StateCommit × Option CommitData) =>
      (db.commit e.1 e.2).toOption) (fun _ _ => True) db db') :
    db'.record n = db.record n ∧ ∀ c data, c.key.blockNumber = n →
      db'.commit c data = .error .blockAlreadyCommitted := by
  have there {x : PersistentDb} (same : x.record n = db.record n) : x.isBlockCommitted n :=
    (congrArg (·.1.isSome) same).trans committed
  have kept : db'.record n = db.record n := by
    refine later.invariant (P := fun x => x.record n = db.record n) rfl ?_
    intro x e x' same _ done
    have done := toOption_eq_some.mp done
    refine (record_of_commit done ?_).trans same
    rintro rfl
    simpa [isBlockCommitted, (commit_eq_ok done).1] using there same
  refine ⟨kept, ?_⟩
  rintro c data rfl
  rw [commit, if_pos (there kept)]
  rfl

/-- A block with one transaction. -/
def pays : StateCommit :=
  { Sample.stores with results := Std.ExtTreeMap.empty.insert 9 (.success 21000 [], 21000) }

theorem record_kept_pays : ∃ db db',
    (opened none).commit pays (some ⟨⟨2⟩, ⟨5, 1, 110⟩, [⟨9⟩]⟩) = .ok db ∧
    db.commit Sample.wipes (some ⟨⟨0⟩, ⟨6, 0, 0⟩, []⟩) = .ok db' ∧
    db'.getReceipt 1 9 = (true, some (.success 21000 [], 21000)) ∧
    db'.chain.blocks 1 = some ⟨5, 1, 110⟩ ∧ db'.chain.proofs 1 = some ⟨2⟩ ∧
    db'.chain.transactions ⟨1, 0⟩ = some ⟨9⟩ ∧
    db'.commit pays none = .error .blockAlreadyCommitted := by
  have runs : ((opened none).commit pays (some ⟨⟨2⟩, ⟨5, 1, 110⟩, [⟨9⟩]⟩) >>= fun db =>
      db.commit Sample.wipes (some ⟨⟨0⟩, ⟨6, 0, 0⟩, []⟩)).toOption.isSome = true := by decide +kernel
  obtain ⟨db', done⟩ := isSome_iff_exists.mp runs
  obtain ⟨db, first, second⟩ := bind_eq_ok.mp (toOption_eq_some.mp done)
  obtain ⟨-, -, -, -, chain, -, -, commits⟩ := commit_eq_ok first
  have committed : db.commits 1 = some pays.results := by
    rw [commits]
    exact update_self ..
  obtain ⟨kept, again⟩ := record_kept (n := 1) (by simp [isBlockCommitted, committed])
    (.tail (e := (Sample.wipes, _)) .refl trivial (toOption_eq_some.mpr second))
  simp only [record, Prod.mk.injEq] at kept
  obtain ⟨receipts, block, proof, transactions⟩ := kept
  refine ⟨db, db', first, second, ?_, ?_, ?_, ?_, again pays _ rfl⟩
  · rw [getReceipt, receipts, committed]
    simp [pays]
  · rw [block, ← ok.inj chain]
    rfl
  · rw [proof, ← ok.inj chain]
    rfl
  · rw [congrFun transactions 0, ← ok.inj chain]
    rfl

end PersistentDb

end Mainsail.Evm
