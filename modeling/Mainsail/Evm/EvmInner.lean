import Mainsail.Evm.Execution

/-!
# The interface of the EVM

`EvmInner` of `packages/evm/bindings`: the database, the pending commits of the proposals that are
being processed, and the snapshot that the forger goes back to. A call returns its result together
with the state that it leaves, also when it fails.
-/

namespace Mainsail.Evm

open Std.ExtTreeMap

structure EvmInner where
  db : PersistentDb
  genesisBlockNumber : U64 := 0
  pendingCommits : CommitKey → Option PendingCommit := fun _ => none
  snapshot : Option PendingCommit := none

structure TxContext where
  commitKey : CommitKey
  txHash : Word
  /-- `from`. -/
  sender : Address
  legacyAddress : Option LegacyAddress := none
  deriving DecidableEq, Repr

namespace EvmInner

variable (revm : Revm) (s : EvmInner)

def setPending (key : CommitKey) (p : PendingCommit) : EvmInner :=
  { s with pendingCommits := Function.update s.pendingCommits key (some p) }

def prepareNextCommit (key : CommitKey) : EvmInner :=
  match s.pendingCommits key with
  | some pending =>
    -- While the node starts, the pending commit of the genesis block is not replaced.
    if pending.key.blockNumber = s.genesisBlockNumber ∧ key = pending.key then s
    else s.setPending key { key }
  | none => s.setPending key { key }

/-! ## Transactions -/

/-- Make the balance of a cold wallet available to the sender, unless that has been tried before. On
success the pending commit is returned to which a transaction that fails goes back. -/
def mergeColdWallet (db : PersistentDb) (pending : PendingCommit) (tx : TxContext)
    (env : Circumstances) : PendingCommit × Except EvmError (Option PendingCommit) :=
  match tx.legacyAddress with
  | none => (pending, .ok none)
  | some legacyAddress =>
    if tx.sender ∈ pending.mergedLegacyColdWallets then (pending, .ok none)
    else if env.walletFails then (pending, .error .database)
    else
      match db.legacyColdWallets legacyAddress with
      | some { balance, mergeInfo := none, .. } =>
        if 2 ^ 128 ≤ balance.val then (pending, .error .custom)
        else
          match applyRewards revm db pending tx.sender balance.val env.rewardFails with
          | (p, .error _) => (p, .error .database)
          | (p, .ok ()) =>
            ({ p with
                mergedLegacyColdWallets := p.mergedLegacyColdWallets.insert tx.sender
                  (some (tx.txHash, legacyAddress)) }, .ok (some pending))
      | _ =>
        ({ pending with
            mergedLegacyColdWallets :=
              pending.mergedLegacyColdWallets.insert tx.sender none }, .ok none)

def process (tx : TxContext) (env : Circumstances) :
    EvmInner × Except EvmError (ExecutionResult × Nat) :=
  if env.lookupFails then (s, .error .database)
  else if (s.db.getReceipt tx.commitKey.blockNumber tx.txHash).1 then (s, .error .custom)
  else
    match s.pendingCommits tx.commitKey with
    | none => (s, .error .custom)
    | some pending =>
      match mergeColdWallet revm s.db pending tx env with
      | (pending, .error e) => (s.setPending tx.commitKey pending, .error e)
      | (pending, .ok restore) =>
        match transactWrite revm s.db pending (some tx.txHash) env with
        | (pending, .ok receipt) => (s.setPending tx.commitKey pending, .ok receipt)
        | (pending, .error e) =>
          (s.setPending tx.commitKey (restore.getD pending), .error e)

end EvmInner

/-! ## Imports -/

/-- The wallets are taken in one after the other. Those before one that is refused stay. -/
def PendingCommit.importLegacyColdWallets :
    PendingCommit → List LegacyColdWallet → PendingCommit × Except EvmError Unit
  | p, [] => (p, .ok ())
  | p, wallet :: wallets =>
    if wallet.address ∈ p.legacyColdWallets then (p, .error .custom)
    else if 2 ^ 128 ≤ wallet.balance.val then (p, .error .custom)
    else importLegacyColdWallets
      { p with legacyColdWallets := p.legacyColdWallets.insert wallet.address wallet } wallets

/-- The key is that of a pending commit of the genesis block, which a search in the hash map finds. -/
def EvmInner.importLegacyColdWallets (s : EvmInner) (key : CommitKey)
    (wallets : List LegacyColdWallet) : EvmInner × Except EvmError Unit :=
  match s.pendingCommits key with
  | some pending =>
    if key.blockNumber = s.genesisBlockNumber then
      let (pending, result) := pending.importLegacyColdWallets wallets
      (s.setPending key pending, result)
    else (s, .error .custom)
  | none => (s, .error .custom)

/-! ## What a call can do -/

namespace PendingCommit

variable {p : PendingCommit} {sender : Address}

/-- The merges that enter the commit. -/
def merged (p : PendingCommit) : Std.ExtTreeMap Address (Word × LegacyAddress) :=
  p.mergedLegacyColdWallets.filterMap fun _ legacy => legacy

theorem getElem?_merged (a : Address) : p.merged[a]? = p.mergedLegacyColdWallets[a]?.join := by
  rw [merged, getElem?_filterMap']
  cases p.mergedLegacyColdWallets[a]? <;> rfl

variable (fresh : sender ∉ p.mergedLegacyColdWallets)
include fresh

/-- A sender is marked, with the wallet that has been found for it. -/
theorem getElem?_merged_insert (legacy : Option (Word × LegacyAddress)) (a : Address) :
    p.merged[sender]? = none ∧
      ({ p with mergedLegacyColdWallets := p.mergedLegacyColdWallets.insert sender legacy } :
        PendingCommit).merged[a]? = if a = sender then legacy else p.merged[a]? := by
  simp only [getElem?_merged, getElem?_eq_none fresh,
    getElem?_insert, Std.LawfulEqCmp.compare_eq_iff_eq, eq_comm (a := sender)]
  refine ⟨rfl, ?_⟩
  split_ifs <;> rfl

/-- A sender without a cold wallet leaves no merge. -/
theorem merged_insert_none :
    ({ p with mergedLegacyColdWallets := p.mergedLegacyColdWallets.insert sender none } :
      PendingCommit).merged = p.merged := by
  refine ext_getElem? ?_
  intro a
  obtain ⟨none, after⟩ := getElem?_merged_insert fresh none a
  rw [after]
  split_ifs with here
  · rw [here, none]
  · rfl

end PendingCommit

section

variable {revm : Revm} {db : PersistentDb} {p p' : PendingCommit} {tx : TxContext}
variable {env : Circumstances}

/-- An execution that fails leaves the pending commit, up to accounts and slots that it has loaded.
If its reader was not opened, the cache is gone. -/
theorem transactWrite_eq_error {txHash : Option Word} {e : EvmError}
    (failed : transactWrite revm db p txHash env = (p', .error e)) :
    env.readerFails = true ∧ p' = { p with cache := {} } ∨
      env.readerFails = false ∧ ∃ cache, p' = { p with cache } ∧
        revm.view db cache = revm.view db p.cache := by
  unfold transactWrite at failed
  split_ifs at failed with fails
  · cases failed
    exact .inl ⟨fails, rfl⟩
  · have kept := (revm.sound db).view_run env.execution { cache := p.cache, faults := env.faults }
    refine .inr ⟨by simpa using fails, ?_⟩
    split at failed
    · next s e ran =>
        rw [ran] at kept
        cases failed
        exact ⟨s.cache, rfl, kept⟩
    · next s e ran =>
        rw [ran] at kept
        cases failed
        exact ⟨s.cache, rfl, kept⟩
    · cases txHash <;> cases failed

theorem applyRewards_eq_error {address : Address} {amount : Nat} {fails : Bool} {e : EvmError}
    (failed : applyRewards revm db p address amount fails = (p', .error e)) :
    ∃ cache, p' = { p with cache } ∧ revm.view db cache = revm.view db p.cache := by
  have kept := (revm.sound db).view_read { cache := p.cache, faults := [fails] } (.basic address)
  unfold applyRewards at failed
  split at failed
  · next s e loaded =>
      rw [loaded] at kept
      cases failed
      exact ⟨s.cache, rfl, kept⟩
  · cases failed

/-- A wallet that can be merged with the account of the sender. -/
def Mergeable (db : PersistentDb) (p : PendingCommit) (tx : TxContext)
    (legacyAddress : LegacyAddress) (wallet : LegacyColdWallet) : Prop :=
  tx.legacyAddress = some legacyAddress ∧ tx.sender ∉ p.mergedLegacyColdWallets ∧
    db.legacyColdWallets legacyAddress = some wallet ∧ wallet.mergeInfo = none

/-- No cold wallet is merged for the sender: none is looked up, or none is found that can be. -/
def Unmerged (db : PersistentDb) (p : PendingCommit) (tx : TxContext) (env : Circumstances) : Prop :=
  tx.legacyAddress.isSome = true → tx.sender ∉ p.mergedLegacyColdWallets →
    env.walletFails = false ∧ ∀ legacyAddress wallet, ¬ Mergeable db p tx legacyAddress wallet

theorem Mergeable.not_unmerged {legacyAddress : LegacyAddress} {wallet : LegacyColdWallet}
    (h : Mergeable db p tx legacyAddress wallet) : ¬ Unmerged db p tx env :=
  fun unmerged => (unmerged (by rw [h.1]; rfl) h.2.1).2 _ _ h

open EvmInner

/-- What looking for a cold wallet can come to. -/
inductive Merges (revm : Revm) (db : PersistentDb) (p : PendingCommit) (tx : TxContext)
    (env : Circumstances) : PendingCommit × Except EvmError (Option PendingCommit) → Prop
  | failed {cache : CacheState} {e : EvmError} (tried : ¬ Unmerged db p tx env)
      (kept : revm.view db cache = revm.view db p.cache) :
      Merges revm db p tx env ({ p with cache }, .error e)
  | skipped (unmerged : Unmerged db p tx env) : Merges revm db p tx env (p, .ok none)
  | marked (unmerged : Unmerged db p tx env) (fresh : tx.sender ∉ p.mergedLegacyColdWallets) :
      Merges revm db p tx env
        ({ p with mergedLegacyColdWallets := p.mergedLegacyColdWallets.insert tx.sender none },
          .ok none)
  | merged {legacyAddress : LegacyAddress} {wallet : LegacyColdWallet} {rewarded : PendingCommit}
      (mergeable : Mergeable db p tx legacyAddress wallet) (reward :
        applyRewards revm db p tx.sender wallet.balance.val env.rewardFails = (rewarded, .ok ())) :
      Merges revm db p tx env ({ rewarded with
          mergedLegacyColdWallets := rewarded.mergedLegacyColdWallets.insert tx.sender
            (some (tx.txHash, legacyAddress)) }, .ok (some p))

theorem mergeColdWallet_merges (revm : Revm) (db : PersistentDb) (p : PendingCommit)
    (tx : TxContext) (env : Circumstances) :
    Merges revm db p tx env (mergeColdWallet revm db p tx env) := by
  unfold mergeColdWallet
  split
  · next none => exact .skipped fun some => by simp [none] at some
  · next legacyAddress sends =>
      have looked : tx.legacyAddress.isSome = true := by rw [sends]; rfl
      split_ifs with tried fails
      · exact .skipped fun _ fresh => absurd tried fresh
      · exact .failed (fun unmerged => by simp [(unmerged looked tried).1] at fails) rfl
      · split
        · next address balance attributes found =>
            have mergeable : Mergeable db p tx legacyAddress _ := ⟨sends, tried, found, rfl⟩
            split_ifs with large
            · exact .failed mergeable.not_unmerged rfl
            · split
              · next failed =>
                  obtain ⟨cache, rfl, kept⟩ := applyRewards_eq_error failed
                  exact .failed mergeable.not_unmerged kept
              · next reward => exact .merged mergeable reward
        · next other =>
            refine .marked (fun _ _ => ⟨by simpa using fails, ?_⟩) tried
            rintro _ ⟨address, balance, attributes, mergeInfo⟩ ⟨same, -, found, rfl⟩
            cases sends.symm.trans same
            exact other _ _ _ found

/-- Nothing fails before the pending commit is looked at. -/
def Admitted (s : EvmInner) (tx : TxContext) (env : Circumstances) : Prop :=
  env.lookupFails = false ∧ (s.db.getReceipt tx.commitKey.blockNumber tx.txHash).1 = false

/-- What a call of `process` can come to. -/
inductive Processed (revm : Revm) (s : EvmInner) (tx : TxContext) (env : Circumstances) :
    EvmInner × Except EvmError (ExecutionResult × Nat) → Prop
  | refused {e : EvmError} (early : Admitted s tx env → s.pendingCommits tx.commitKey = none) :
      Processed revm s tx env (s, .error e)
  | unmerged {p p' : PendingCommit} {e : EvmError} (admitted : Admitted s tx env)
      (pending : s.pendingCommits tx.commitKey = some p)
      (merge : mergeColdWallet revm s.db p tx env = (p', .error e)) :
      Processed revm s tx env (s.setPending tx.commitKey p', .error e)
  | failed {p p₁ p' : PendingCommit} {restore : Option PendingCommit} {e : EvmError}
      (admitted : Admitted s tx env) (pending : s.pendingCommits tx.commitKey = some p)
      (merge : mergeColdWallet revm s.db p tx env = (p₁, .ok restore))
      (execution : transactWrite revm s.db p₁ (some tx.txHash) env = (p', .error e)) :
      Processed revm s tx env (s.setPending tx.commitKey (restore.getD p'), .error e)
  | executed {p p₁ p' : PendingCommit} {restore : Option PendingCommit}
      {receipt : ExecutionResult × Nat} (admitted : Admitted s tx env)
      (pending : s.pendingCommits tx.commitKey = some p)
      (merge : mergeColdWallet revm s.db p tx env = (p₁, .ok restore))
      (execution : transactWrite revm s.db p₁ (some tx.txHash) env = (p', .ok receipt)) :
      Processed revm s tx env (s.setPending tx.commitKey p', .ok receipt)

theorem process_processed (revm : Revm) (s : EvmInner) (tx : TxContext) (env : Circumstances) :
    Processed revm s tx env (s.process revm tx env) := by
  unfold process
  split_ifs with lookup committed
  · refine .refused ?_
    rintro ⟨opens, -⟩
    rw [opens] at lookup
    cases lookup
  · refine .refused ?_
    rintro ⟨-, new⟩
    rw [new] at committed
    cases committed
  · have admitted : Admitted s tx env := ⟨by simpa using lookup, by simpa using committed⟩
    split
    · next none => exact .refused fun _ => none
    · next p pending =>
        split
        · next p' e merge => exact .unmerged admitted pending merge
        · next p₁ restore merge =>
            split
            · next p' receipt execution => exact .executed admitted pending merge execution
            · next p' e execution => exact .failed admitted pending merge execution

end

end Mainsail.Evm
