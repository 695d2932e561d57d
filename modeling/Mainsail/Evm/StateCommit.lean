import Mainsail.Foundation.Unordered
import Mainsail.Evm.StateRoot

/-!
# The commit of a block

`build_commit` and `finalize` of `state_commit.rs`, with `bundle_into_change_set` of
`state_changes.rs`. The accounts that a block has changed are kept in hash maps, and the change set
lists them in the order of their addresses. How revm makes a bundle of the transitions is a parameter.
-/

namespace Mainsail.Evm

open List

open Unordered (Schedule insertAll)
open Sample Option

structure BundleAccount where
  info : Option LoadedInfo
  originalInfo : Option LoadedInfo
  storage : HashMap Word StorageSlot
  status : AccountStatus

structure BundleState where
  state : HashMap Address BundleAccount := ∅
  contracts : HashMap Word Bytes := ∅

@[ext]
structure StateCommit where
  key : CommitKey
  changeSet : StateChangeset
  /-- For each transaction its result, and the gas used up to there. -/
  results : Std.ExtTreeMap Word (ExecutionResult × Nat)

/-- The block that is being executed. -/
structure PendingCommit where
  key : CommitKey
  cache : CacheState := {}
  results : Std.ExtTreeMap Word (ExecutionResult × Nat) := ∅
  transitions : HashMap Address TransitionAccount := ∅
  cumulativeGasUsed : Nat := 0
  legacyAttributes : Std.ExtTreeMap Address LegacyAccountAttributes := ∅
  legacyColdWallets : Std.ExtTreeMap LegacyAddress LegacyColdWallet := ∅
  /-- The senders for which a cold wallet has been looked up, with the wallets that were found. -/
  mergedLegacyColdWallets : Std.ExtTreeMap Address (Option (Word × LegacyAddress)) := ∅
  builtCommit : Option StateCommit := none

/-- The places at which hash maps are gone through and lists sorted. -/
inductive Site
  | transitions
  | state
  | slots (address : Address)
  | contracts
  | accounts
  | storage

/-! ## Bundles -/

/-- How revm makes a bundle of the transitions of a block. -/
structure Bundling where
  /-- `present_bundle_account`, where the transition enters the bundle. -/
  presentBundleAccount : TransitionAccount → Option BundleAccount
  hasNewContract : TransitionAccount → Option (Word × Bytes)
  /-- `apply_transitions_and_create_reverts` on an empty bundle. -/
  applyTransitions : List (Sigma fun _ : Address => TransitionAccount) → BundleState
  present_info : ∀ t, ∀ account ∈ presentBundleAccount t,
    account.info = t.info ∧ account.originalInfo = t.previousInfo
  /-- A transition that changes the account enters the bundle. -/
  info_of_absent : ∀ t, presentBundleAccount t = none →
    t.info.map (·.toAccountInfo) = t.previousInfo.map (·.toAccountInfo)
  /-- The transitions are gone through one after the other. -/
  applyTransitions_eq : ∀ transitions, transitions.NodupKeys → applyTransitions transitions =
    { state := insertAll ∅ (transitions.filterMap fun e =>
        (presentBundleAccount e.2).map fun account => ⟨e.1, account⟩)
      contracts := insertAll ∅ (transitions.filterMap fun e =>
        (hasNewContract e.2).map fun x => ⟨x.1, x.2⟩) }

namespace BundleAccount

variable (account : BundleAccount)

def wasDestroyed : Bool := account.status.wasDestroyed

/-- The code does not take part in the comparison. -/
def isInfoChanged : Bool :=
  account.info.map (·.toAccountInfo) ≠ account.originalInfo.map (·.toAccountInfo)

/-- A slot of an account that was destroyed counts unless it is zero, others if they changed. -/
def keepsSlot (slot : StorageSlot) : Bool :=
  (account.wasDestroyed && slot.presentValue ≠ 0) ||
    (!account.wasDestroyed && slot.previousOrOriginalValue ≠ slot.presentValue)

def changedSlots (σ : Schedule Site) (address : Address) : List (Word × StorageSlot) :=
  (σ.iterate (.slots address) account.storage.entries).filterMap fun e =>
    if account.keepsSlot e.2 then some (e.1, e.2) else none

end BundleAccount

/-- The hash of the empty code. -/
def keccakEmpty : Word :=
  0xc5d2460186f7233c927e7db2dcc703c0e500b653ca82273b7bfad8045d85a470

def bundleIntoChangeSet (σ : Schedule Site) (bundle : BundleState) : StateChangeset where
  accounts := (σ.iterate .state bundle.state.entries).filterMap fun e =>
    if e.2.isInfoChanged then some (e.1, e.2.info.map (·.toAccountInfo)) else none
  storage := (σ.iterate .state bundle.state.entries).filterMap fun e =>
    let storage := e.2.changedSlots σ e.1
    if !storage.isEmpty || e.2.wasDestroyed then
      some { address := e.1, wipeStorage := e.2.wasDestroyed, storage }
    else none
  contracts := (σ.iterate .contracts bundle.contracts.entries).filterMap fun e =>
    if e.1 ≠ keccakEmpty then some (e.1, e.2) else none

/-- The sections that come from hash maps are sorted by their keys. -/
def finalize (σ : Schedule Site) (c : StateChangeset) : StateChangeset :=
  { c with
    accounts := σ.sort .accounts Prod.fst c.accounts
    contracts := σ.sort .contracts Prod.fst c.contracts
    storage := σ.sort .storage StorageChangeset.address (c.storage.map fun s =>
      { s with storage := σ.sort (.slots s.address) Prod.fst s.storage }) }

def buildCommit (σ : Schedule Site) (revm : Bundling) (p : PendingCommit) : StateCommit where
  key := p.key
  changeSet := finalize σ { bundleIntoChangeSet σ
        (revm.applyTransitions (σ.iterate .transitions p.transitions.entries)) with
      legacyAttributes := p.legacyAttributes
      legacyColdWallets := p.legacyColdWallets
      mergedLegacyColdWallets := p.mergedLegacyColdWallets.filterMap fun _ legacy => legacy }
  results := p.results

/-- The parts that a commit is built from are moved out of the pending commit. -/
def PendingCommit.build (σ : Schedule Site) (revm : Bundling) (p : PendingCommit) :
    PendingCommit where
  key := p.key
  cumulativeGasUsed := p.cumulativeGasUsed
  builtCommit := some (buildCommit σ revm p)

/-- The state root, for which the commit is built unless it has been. -/
def calculate (keccak256 : Bytes → Word) (σ : Schedule Site) (revm : Bundling)
    (genesisInfo : GenesisInfo) (p : PendingCommit) (parentHash : Word) : PendingCommit × Word :=
  match p.builtCommit with
  | some commit => (p, keccak256 (preimage genesisInfo commit.key parentHash commit.changeSet))
  | none =>
    let commit := buildCommit σ revm p
    (p.build σ revm, keccak256 (preimage genesisInfo commit.key parentHash commit.changeSet))

/-! ## Orders -/

section

variable {revm : Bundling} {σ σ' : Schedule Site}
variable {transitions transitions' : List (Sigma fun _ : Address => TransitionAccount)}

/-- Codes with the same hash are the same. -/
def CodesAgree (revm : Bundling) (transitions : List (Sigma fun _ : Address => TransitionAccount)) :
    Prop :=
  ∀ e ∈ transitions, ∀ e' ∈ transitions, ∀ hash code code', revm.hasNewContract e.2 = some (hash, code) →
    revm.hasNewContract e'.2 = some (hash, code') → code = code'

/-- There is one entry for an account in the bundle. -/
theorem Bundling.consistent (nodup : transitions.NodupKeys) :
    Unordered.Consistent (transitions.filterMap fun e => (revm.presentBundleAccount e.2).map
      fun account => (⟨e.1, account⟩ : Sigma fun _ : Address => BundleAccount)) := by
  intro e first e' second key
  obtain ⟨t, member, found⟩ := mem_filterMap.mp first
  obtain ⟨t', member', found'⟩ := mem_filterMap.mp second
  obtain ⟨account, present, rfl⟩ := map_eq_some_iff.mp found
  obtain ⟨account', present', rfl⟩ := map_eq_some_iff.mp found'
  obtain rfl := Unordered.Consistent.of_nodupKeys nodup t member t' member' key
  rw [some.inj (present.symm.trans present')]

theorem applyTransitions_perm (nodup : transitions.NodupKeys) (codes : CodesAgree revm transitions)
    (perm : transitions.Perm transitions') :
    (revm.applyTransitions transitions).state.entries.Perm
        (revm.applyTransitions transitions').state.entries ∧
      (revm.applyTransitions transitions).contracts.entries.Perm
        (revm.applyTransitions transitions').contracts.entries := by
  rw [revm.applyTransitions_eq _ nodup, revm.applyTransitions_eq _ ((perm_nodupKeys perm).mp nodup)]
  refine ⟨Unordered.insertAll_perm (Bundling.consistent nodup) (perm.filterMap _),
    Unordered.insertAll_perm ?_ (perm.filterMap _)⟩
  intro e first e' second key
  obtain ⟨t, member, found⟩ := mem_filterMap.mp first
  obtain ⟨t', member', found'⟩ := mem_filterMap.mp second
  obtain ⟨⟨hash, code⟩, new, rfl⟩ := map_eq_some_iff.mp found
  obtain ⟨⟨hash', code'⟩, new', rfl⟩ := map_eq_some_iff.mp found'
  obtain rfl : hash = hash' := key
  rw [codes _ member _ member' hash code code' new new']

/-- The slots that an account lists are sorted in one way. -/
theorem BundleAccount.sort_changedSlots (σ σ' : Schedule Site) (account : BundleAccount)
    (address : Address) :
    σ.sort (.slots address) Prod.fst (account.changedSlots σ address) =
      σ'.sort (.slots address) Prod.fst (account.changedSlots σ' address) := by
  refine σ.sort_filterMap σ' _ _ (.refl _) ?_
  intro e slot found
  obtain ⟨-, found⟩ := ite_none_right_eq_some.mp found
  rw [← some.inj found]

theorem BundleAccount.isEmpty_changedSlots (σ σ' : Schedule Site) (account : BundleAccount)
    (address : Address) :
    (account.changedSlots σ address).isEmpty = (account.changedSlots σ' address).isEmpty :=
  ((σ.iterate_perm_iterate σ' _ _ (.refl _)).filterMap _).isEmpty_eq

/-- What an account adds to the storage section, with its slots sorted. -/
def BundleAccount.storageChange (σ : Schedule Site) (account : BundleAccount) (address : Address) :
    Option StorageChangeset :=
  if !(account.changedSlots σ address).isEmpty || account.wasDestroyed then
    some
      { address
        wipeStorage := account.wasDestroyed
        storage := σ.sort (.slots address) Prod.fst (account.changedSlots σ address) }
  else none

open BundleAccount

theorem BundleAccount.storageChange_eq (σ σ' : Schedule Site) :
    storageChange σ = storageChange σ' := by
  funext account address
  unfold storageChange
  rw [account.sort_changedSlots σ σ', account.isEmpty_changedSlots σ σ']

theorem finalize_storage (σ : Schedule Site) (bundle : BundleState) :
    (finalize σ (bundleIntoChangeSet σ bundle)).storage =
      σ.sort .storage StorageChangeset.address
        ((σ.iterate .state bundle.state.entries).filterMap fun e => e.2.storageChange σ e.1) := by
  simp only [finalize, bundleIntoChangeSet, map_filterMap]
  congr 2
  funext e
  unfold storageChange
  split <;> rfl

/-- The sections of the change set depend on what the maps hold. -/
theorem finalize_bundleIntoChangeSet (σ σ' : Schedule Site) {bundle bundle' : BundleState}
    (state : bundle.state.entries.Perm bundle'.state.entries)
    (contracts : bundle.contracts.entries.Perm bundle'.contracts.entries) :
    finalize σ (bundleIntoChangeSet σ bundle) = finalize σ' (bundleIntoChangeSet σ' bundle') := by
  have accounts : (finalize σ (bundleIntoChangeSet σ bundle)).accounts =
      (finalize σ' (bundleIntoChangeSet σ' bundle')).accounts := by
    refine σ.sort_filterMap σ' _ _ state ?_
    intro e account found
    obtain ⟨-, found⟩ := ite_none_right_eq_some.mp found
    rw [← some.inj found]
  have codes : (finalize σ (bundleIntoChangeSet σ bundle)).contracts =
      (finalize σ' (bundleIntoChangeSet σ' bundle')).contracts := by
    refine σ.sort_filterMap σ' _ _ contracts ?_
    intro e code found
    obtain ⟨-, found⟩ := ite_none_right_eq_some.mp found
    rw [← some.inj found]
  have storage : (finalize σ (bundleIntoChangeSet σ bundle)).storage =
      (finalize σ' (bundleIntoChangeSet σ' bundle')).storage := by
    rw [finalize_storage, finalize_storage, storageChange_eq σ σ']
    refine σ.sort_filterMap σ' _ _ state ?_
    intro e change found
    obtain ⟨-, found⟩ := ite_none_right_eq_some.mp found
    rw [← some.inj found]
  exact StateChangeset.ext accounts storage codes rfl rfl rfl

/-- Whatever the order in which the hash maps are gone through and equal elements are sorted, a
pending commit has one finalized change set and one state root. -/
theorem calculate_unordered {p : PendingCommit} {revm : Bundling}
    (codes : CodesAgree revm p.transitions.entries) (keccak256 : Bytes → Word)
    (genesisInfo : GenesisInfo) (parentHash : Word) (σ σ' : Schedule Site) :
    (buildCommit σ revm p).changeSet = (buildCommit σ' revm p).changeSet ∧
      calculate keccak256 σ revm genesisInfo p parentHash =
        calculate keccak256 σ' revm genesisInfo p parentHash := by
  have perm := σ.iterate_perm_iterate σ' .transitions .transitions (.refl p.transitions.entries)
  have nodup : (σ.iterate .transitions p.transitions.entries).NodupKeys :=
    (perm_nodupKeys (σ.iterate_perm ..)).mpr p.transitions.nodupKeys
  have agree : CodesAgree revm (σ.iterate .transitions p.transitions.entries) :=
    fun e first e' second => codes e ((σ.iterate_perm ..).mem_iff.mp first)
      e' ((σ.iterate_perm ..).mem_iff.mp second)
  obtain ⟨state, contracts⟩ := applyTransitions_perm nodup agree perm
  have sections := finalize_bundleIntoChangeSet σ σ' state contracts
  have same : buildCommit σ revm p = buildCommit σ' revm p := by
    -- The sections that are ordered maps are put in as they are.
    have legacy : ∀ τ, (buildCommit τ revm p).changeSet = { finalize τ (bundleIntoChangeSet τ
            (revm.applyTransitions (τ.iterate .transitions p.transitions.entries))) with
          legacyAttributes := p.legacyAttributes
          legacyColdWallets := p.legacyColdWallets
          mergedLegacyColdWallets := p.mergedLegacyColdWallets.filterMap fun _ legacy => legacy } :=
      fun _ => rfl
    have changeSet := (legacy σ).trans (Eq.trans (by rw [sections]) (legacy σ').symm)
    exact StateCommit.ext rfl changeSet rfl
  refine ⟨congrArg StateCommit.changeSet same, ?_⟩
  unfold calculate PendingCommit.build
  rw [same]

end

namespace Sample

/-- The code of an account whose code hash is new. -/
def hasNewContract (t : TransitionAccount) : Option (Word × Bytes) :=
  if t.info.map (·.codeHash) ≠ t.previousInfo.map (·.codeHash) then
    t.info.bind fun info => info.code.map (info.codeHash, ·)
  else none

/-- One transition enters a bundle. -/
def addToBundle (bundle : BundleState) (e : Sigma fun _ : Address => TransitionAccount) :
    BundleState where
  contracts := match hasNewContract e.2 with
    | some (hash, code) => bundle.contracts.insert hash code
    | none => bundle.contracts
  state := bundle.state.insert e.1 ⟨e.2.info, e.2.previousInfo, e.2.storage, e.2.status⟩

/-- Every transition enters the bundle. -/
def bundling : Bundling where
  presentBundleAccount t := some ⟨t.info, t.previousInfo, t.storage, t.status⟩
  hasNewContract := hasNewContract
  applyTransitions transitions := transitions.foldl addToBundle {}
  present_info := by
    rintro t account ⟨⟩
    exact ⟨rfl, rfl⟩
  info_of_absent := by simp
  applyTransitions_eq := by
    rintro transitions -
    suffices ∀ bundle : BundleState, transitions.foldl addToBundle bundle =
        { state := insertAll bundle.state (transitions.map fun e =>
            ⟨e.1, e.2.info, e.2.previousInfo, e.2.storage, e.2.status⟩)
          contracts := insertAll bundle.contracts (transitions.filterMap fun e =>
            (hasNewContract e.2).map fun x => ⟨x.1, x.2⟩) } by simpa using this {}
    induction transitions with
    | nil => exact fun _ => rfl
    | cons e transitions ih =>
      intro bundle
      refine (ih _).trans ?_
      cases new : hasNewContract e.2 <;> simp [addToBundle, new, insertAll]

/-- Maps are gone through from the last entry to the first. -/
def reversed : Schedule Site :=
  { Schedule.plain with
    iterate := fun _ l => l.reverse
    iterate_perm := fun _ l => l.reverse_perm }

def created (code : Bytes) (storage : HashMap Word StorageSlot) : TransitionAccount where
  info := some { codeHash := 9, code := some code }
  status := .inMemoryChange
  previousInfo := none
  previousStatus := .loadedNotExisting
  storage
  storageWasDestroyed := false

/-- Two accounts are created with the same code. -/
def created₂ : PendingCommit where
  key := ⟨1, 0, 0⟩
  transitions := (AList.insert 4 (created [1] ∅) ∅).insert 3
    (created [1] ((AList.insert 8 ⟨0, 1⟩ ∅).insert 7 ⟨0, 2⟩))

end Sample

theorem calculate_unordered_sample :
    (buildCommit .plain bundling created₂).changeSet =
        (buildCommit reversed bundling created₂).changeSet ∧
      (buildCommit .plain bundling created₂).changeSet.contracts = [(9, [1])] ∧
      (buildCommit .plain bundling created₂).changeSet.storage =
        [⟨3, false, [(7, ⟨0, 2⟩), (8, ⟨0, 1⟩)]⟩] := by
  have created : ∀ e ∈ created₂.transitions.entries,
      bundling.hasNewContract e.2 = some (9, [1]) := by decide +kernel
  have codes : CodesAgree bundling created₂.transitions.entries := by
    intro e first e' second hash code code' new new'
    rw [created e first] at new
    rw [created e' second, new] at new'
    exact (Prod.mk.inj (some.inj new')).2
  exact ⟨(calculate_unordered codes (fun _ => 0) genesisInfo 0 .plain reversed).1,
    by decide +kernel, by decide +kernel⟩

end Mainsail.Evm
