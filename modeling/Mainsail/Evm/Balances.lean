import Mainsail.Foundation.DeltaLog
import Mainsail.Foundation.Tally
import Mainsail.Evm.EvmInner

/-!
# The balances of a pending commit

The accounts that a pending commit has changed are in its cache, where they are read, and in its
transitions, from which the commit is built. As long as the cache is not lost, the two agree: the
database after the commit has the accounts that the cache has had.
-/

namespace Mainsail.Evm

open DeltaLog (ofList)
open AList Unordered Option

namespace Revm

variable (revm : Revm) (db : PersistentDb) (c : CacheState)

/-- An account, as it is read through a cache. -/
def account (a : Address) : Option LoadedInfo := revm.view db c (.basic a)

def info (a : Address) : Option AccountInfo := (revm.account db c a).map (·.toAccountInfo)

end Revm

/-! ## Cache and transitions -/

/-- The transitions of a pending commit lead from the database to the cache. -/
structure Tracks (revm : Revm) (db : PersistentDb) (p : PendingCommit) : Prop where
  untouched : ∀ a, p.transitions.lookup a = none →
    revm.account db p.cache a = revm.account db {} a
  touched : ∀ a t, p.transitions.lookup a = some t →
    t.info = revm.account db p.cache a ∧ t.previousInfo = revm.account db {} a

namespace Tracks

variable {revm : Revm} {db : PersistentDb} {p p' : PendingCommit}

theorem fresh (cache : p.cache = {}) (transitions : p.transitions = ∅) : Tracks revm db p := by
  constructor
  · intro a _
    rw [cache]
  · intro a t found
    rw [transitions, lookup_empty] at found
    cases found

variable (h : Tracks revm db p)
include h

theorem of_view {cache : CacheState} (view : revm.view db cache = revm.view db p.cache) :
    Tracks revm db { p with cache } := by
  have same (a : Address) : revm.account db cache a = revm.account db p.cache a :=
    congrFun view (.basic a)
  constructor
  · intro a untouched
    exact (same a).trans (h.untouched a untouched)
  · intro a t touched
    obtain ⟨info, previous⟩ := h.touched a t touched
    exact ⟨info.trans (same a).symm, previous⟩

theorem touch (e : Address × Touch) : Tracks revm db (p.touch revm db e) := by
  have sets := revm.commit_sets db p.cache e
  unfold PendingCommit.touch
  generalize revm.commit db p.cache e = result at sets ⊢
  obtain ⟨cache, transition⟩ := result
  have account (a : Address) : revm.account db cache a =
      if a = e.1 then e.2.info else revm.account db p.cache a := sets.account a
  cases transition with
  | none =>
    -- An account without a transition is as it was.
    have same (a : Address) : revm.account db cache a = revm.account db p.cache a := by
      rw [account]
      split_ifs with here
      · rw [here]
        exact sets.unlisted rfl
      · rfl
    refine ⟨fun a none => (same a).trans (h.untouched a none), fun a t found => ?_⟩
    rw [same]
    exact h.touched a t found
  | some t =>
    obtain ⟨info, previous⟩ := sets.listed t rfl
    obtain ⟨t', found, info', previous'⟩ := revm.addTransition_self p.transitions e.1 t
    have elsewhere := revm.addTransition_ne p.transitions e.1 t
    constructor
    · intro a none
      by_cases here : a = e.1
      · subst here
        cases found.symm.trans none
      · rw [account, if_neg here]
        exact h.untouched a ((elsewhere a here).symm.trans none)
    · intro a t₁ found₁
      rw [account]
      split_ifs with here
      · subst here
        obtain rfl := some.inj (found.symm.trans found₁)
        refine ⟨info'.trans info, previous'.trans ?_⟩
        cases first : p.transitions.lookup e.1 with
        | none => exact previous.trans (h.untouched _ first)
        | some t₀ => exact (h.touched _ _ first).2
      · exact h.touched a t₁ ((elsewhere a here).symm.trans found₁)

theorem foldl_touch (touched : List (Address × Touch)) :
    Tracks revm db (touched.foldl (PendingCommit.touch revm db) p) := by
  induction touched generalizing p with
  | nil => exact h
  | cons e touched ih => exact ih (h.touch e)

end Tracks

section

variable {revm : Revm} {db : PersistentDb} {p p' : PendingCommit}

theorem foldl_touch_frame (revm : Revm) (db : PersistentDb) (touched : List (Address × Touch))
    (p : PendingCommit) :
    ∃ cache transitions, touched.foldl (PendingCommit.touch revm db) p =
      { p with cache, transitions } := by
  induction touched generalizing p with
  | nil => exact ⟨p.cache, p.transitions, rfl⟩
  | cons e touched ih =>
    obtain ⟨cache, transitions, same⟩ := ih (p.touch revm db e)
    exact ⟨cache, transitions, same⟩

/-- What an execution that comes to its end changes. -/
theorem transactWrite_eq_ok {txHash : Option Word} {env : Circumstances}
    {receipt : ExecutionResult × Nat}
    (done : transactWrite revm db p txHash env = (p', .ok receipt)) :
    (∃ cache transitions results cumulativeGasUsed,
      p' = { p with cache, transitions, results, cumulativeGasUsed }) ∧
    (Tracks revm db p → Tracks revm db p') := by
  have kept := (revm.sound db).view_run env.execution { cache := p.cache, faults := env.faults }
  unfold transactWrite at done
  split at done
  · cases done
  split at done
  · cases done
  · cases done
  · next s result touched ran =>
      rw [ran] at kept
      obtain ⟨cache, transitions, same⟩ :=
        foldl_touch_frame revm db touched { p with cache := s.cache }
      have tracks : Tracks revm db p → Tracks revm db { p with cache, transitions } := fun h =>
        same ▸ (h.of_view kept).foldl_touch touched
      dsimp only at done
      rw [same] at done
      cases txHash with
      | none =>
        cases done
        exact ⟨⟨cache, transitions, p.results, p.cumulativeGasUsed, rfl⟩, tracks⟩
      | some txHash =>
        cases done
        exact ⟨⟨cache, transitions, _, _, rfl⟩, fun h => ⟨(tracks h).untouched, (tracks h).touched⟩⟩

/-- A reward raises the balance of one account. -/
theorem applyRewards_eq_ok {address : Address} {amount : Nat} {fails : Bool}
    (done : applyRewards revm db p address amount fails = (p', .ok ())) :
    (∃ cache transitions, p' = { p with cache, transitions }) ∧
      (Tracks revm db p → Tracks revm db p') ∧
      ∀ a, worth (revm.info db p'.cache a) =
        if a = address then min (worth (revm.info db p.cache a) + amount) (2 ^ 256 - 1)
        else worth (revm.info db p.cache a) := by
  have kept := (revm.sound db).view_read { cache := p.cache, faults := [fails] } (.basic address)
  have gives := (revm.sound db).answer { cache := p.cache, faults := [fails] } (.basic address)
  unfold applyRewards at done
  split at done
  · cases done
  · next s info loaded =>
      rw [loaded] at kept gives
      obtain rfl := gives info rfl
      cases done
      refine ⟨⟨_, _, rfl⟩, fun h => (h.of_view kept).touch _, ?_⟩
      intro a
      have sets := (revm.commit_sets db s.cache
        (address, revm.reward (revm.view db p.cache (.basic address)) amount)).account a
      split_ifs with here
      · subst here
        exact (congrArg (fun x => worth (Option.map (·.toAccountInfo) x))
          (sets.trans (if_pos rfl))).trans (revm.worth_reward ..)
      · exact congrArg (fun x => worth (Option.map (·.toAccountInfo) x))
          ((sets.trans (if_neg here)).trans (congrFun kept (.basic a)))

end

/-! ## The accounts of a commit -/

section

variable {σ : Schedule Site} {revm : Bundling} {p : PendingCommit}

theorem mem_applyTransitions {account : BundleAccount} {a : Address} :
    account ∈ (revm.applyTransitions (σ.iterate .transitions p.transitions.entries)).state.lookup a ↔
      ∃ t, p.transitions.lookup a = some t ∧ revm.presentBundleAccount t = some account := by
  have perm := σ.iterate_perm .transitions p.transitions.entries
  have nodup := (List.perm_nodupKeys perm).mpr p.transitions.nodupKeys
  rw [revm.applyTransitions_eq _ nodup]
  refine (mem_lookup_insertAll (m := ∅) (Bundling.consistent nodup)).trans ?_
  constructor
  · rintro (member | ⟨-, none⟩)
    · obtain ⟨⟨a', t⟩, listed, found⟩ := List.mem_filterMap.mp member
      obtain ⟨account', present, same⟩ := map_eq_some_iff.mp found
      obtain ⟨rfl, rfl⟩ := Sigma.mk.inj same
      exact ⟨t, mem_lookup_iff.mpr (perm.mem_iff.mp listed), present⟩
    · rw [lookup_empty] at none
      cases none
  · rintro ⟨t, found, present⟩
    refine .inl (List.mem_filterMap.mpr ⟨⟨a, t⟩, ?_, by rw [present]; rfl⟩)
    exact perm.mem_iff.mpr (mem_lookup_iff.mp found)

/-- The accounts that a commit lists are those whose transition changes them. -/
theorem mem_buildCommit_accounts {a : Address} {info : Option AccountInfo} :
    (a, info) ∈ (buildCommit σ revm p).changeSet.accounts ↔
      ∃ t account, p.transitions.lookup a = some t ∧ revm.presentBundleAccount t = some account ∧
        account.isInfoChanged = true ∧ info = t.info.map (·.toAccountInfo) := by
  refine (σ.sort_perm ..).mem_iff.trans (List.mem_filterMap.trans ?_)
  constructor
  · rintro ⟨⟨a', account⟩, member, found⟩
    obtain ⟨changed, found⟩ := ite_none_right_eq_some.mp found
    obtain ⟨rfl, rfl⟩ := Prod.mk.inj (some.inj found)
    obtain ⟨t, lookup, present⟩ :=
      mem_applyTransitions.mp (mem_lookup_iff.mpr ((σ.iterate_perm ..).mem_iff.mp member))
    exact ⟨t, account, lookup, present, changed, by rw [(revm.present_info t _ present).1]⟩
  · rintro ⟨t, account, lookup, present, changed, rfl⟩
    refine ⟨⟨a, account⟩, ?_, (if_pos changed).trans (by rw [(revm.present_info t _ present).1])⟩
    exact (σ.iterate_perm ..).mem_iff.mpr
      (mem_lookup_iff.mp (mem_applyTransitions.mpr ⟨t, lookup, present⟩))

theorem nodup_buildCommit_accounts (σ : Schedule Site) (revm : Bundling) (p : PendingCommit) :
    ((buildCommit σ revm p).changeSet.accounts.map Prod.fst).Nodup := by
  refine ((σ.sort_perm ..).map _).nodup_iff.mpr (σ.nodup_filterMap .state _ ?_)
  intro e account found
  obtain ⟨-, found⟩ := ite_none_right_eq_some.mp found
  rw [← some.inj found]

end

/-- The commit writes the balances that the cache has. -/
theorem Tracks.worth_buildCommit {revm : Revm} {db : PersistentDb} {p : PendingCommit}
    (h : Tracks revm db p) (σ : Schedule Site) (a : Address) :
    worth ((buildCommit σ revm.toBundling p).changeSet.accounts.foldl PersistentDb.putAccount
      db.accounts a) = worth (revm.info db p.cache a) := by
  rw [show (buildCommit σ revm.toBundling p).changeSet.accounts.foldl PersistentDb.putAccount
      db.accounts a = (ofList (buildCommit σ revm.toBundling p).changeSet.accounts a).getD
        (db.accounts a) from DeltaLog.foldl_update ..]
  have listed (info : Option AccountInfo) :=
    (DeltaLog.ofList_eq_some_iff (v := info) (k := a)
      (nodup_buildCommit_accounts σ revm.toBundling p)).trans mem_buildCommit_accounts
  cases found : ofList (buildCommit σ revm.toBundling p).changeSet.accounts a with
  | some info =>
    obtain ⟨t, -, lookup, -, -, rfl⟩ := (listed info).mp found
    rw [getD_some, Revm.info, (h.touched a t lookup).1]
  | none =>
    rw [getD_none, Revm.info, ← revm.worth_fresh]
    cases lookup : p.transitions.lookup a with
    | none =>
      rw [h.untouched a lookup]
      rfl
    | some t =>
      -- The transition ends where it began.
      obtain ⟨info, previous⟩ := h.touched a t lookup
      have same : t.info.map (·.toAccountInfo) = t.previousInfo.map (·.toAccountInfo) := by
        cases present : revm.presentBundleAccount t with
        | none => exact revm.info_of_absent t present
        | some account =>
          by_contra ne
          obtain ⟨info, original⟩ := revm.present_info t account present
          have changed : account.isInfoChanged = true := by
            unfold BundleAccount.isInfoChanged
            rw [info, original]
            exact decide_eq_true ne
          have := (listed _).mpr ⟨t, account, lookup, present, changed, rfl⟩
          rw [found] at this
          cases this
      rw [← info, same, previous]
      rfl

/-! ## Cold wallets -/

theorem PendingCommit.importLegacyColdWallets_filed {p : PendingCommit} (h : Filed p.legacyColdWallets)
    (wallets : List LegacyColdWallet) :
    Filed (p.importLegacyColdWallets wallets).1.legacyColdWallets := by
  induction wallets generalizing p with
  | nil => exact h
  | cons wallet wallets ih =>
    unfold importLegacyColdWallets
    split_ifs
    · exact h
    · exact h
    · exact ih (h.insert wallet)

section

variable {revm : Revm} {db : PersistentDb} {p p' : PendingCommit} {tx : TxContext} {env : Circumstances}

theorem transactWrite_wallets {txHash : Option Word} {result : Except EvmError (ExecutionResult × Nat)}
    (done : transactWrite revm db p txHash env = (p', result)) :
    p'.legacyColdWallets = p.legacyColdWallets := by
  cases result with
  | ok =>
    obtain ⟨⟨_, _, _, _, rfl⟩, -⟩ := transactWrite_eq_ok done
    rfl
  | error => obtain ⟨-, rfl⟩ | ⟨-, _, rfl, -⟩ := transactWrite_eq_error done <;> rfl

theorem mergeColdWallet_wallets {result : Except EvmError (Option PendingCommit)}
    (merge : EvmInner.mergeColdWallet revm db p tx env = (p', result)) :
    p'.legacyColdWallets = p.legacyColdWallets ∧ ∀ restore, result = .ok (some restore) → restore = p := by
  have merges := mergeColdWallet_merges revm db p tx env
  rw [merge] at merges
  cases merges with
  | failed | skipped | marked => exact ⟨rfl, by simp⟩
  | merged _ reward =>
    obtain ⟨⟨_, _, rfl⟩, -⟩ := applyRewards_eq_ok reward
    exact ⟨rfl, by simp +contextual⟩

end

/-- The states of the interface to which calls lead. -/
inductive Called (revm : Revm) : EvmInner → Prop
  | opened (db : PersistentDb) (genesisBlockNumber : U64) : Called revm { db, genesisBlockNumber }
  | prepareNextCommit {s : EvmInner} (key : CommitKey) (before : Called revm s) :
      Called revm (s.prepareNextCommit key)
  | importLegacyColdWallets {s : EvmInner} (key : CommitKey) (wallets : List LegacyColdWallet)
      (before : Called revm s) : Called revm (s.importLegacyColdWallets key wallets).1
  | process {s : EvmInner} (tx : TxContext) (env : Circumstances) (before : Called revm s) :
      Called revm (s.process revm tx env).1

/-- The wallets of all pending commits are filed under their addresses. -/
def EvmInner.Files (s : EvmInner) : Prop :=
  ∀ key p, s.pendingCommits key = some p → Filed p.legacyColdWallets

theorem EvmInner.Files.setPending {s : EvmInner} (h : s.Files) (key : CommitKey) {p : PendingCommit}
    (filed : Filed p.legacyColdWallets) : (s.setPending key p).Files := by
  intro key' p' pending
  simp only [EvmInner.setPending, Function.update_apply] at pending
  split_ifs at pending
  · obtain rfl := some.inj pending
    exact filed
  · exact h key' p' pending

theorem EvmInner.Files.process {revm : Revm} {s : EvmInner} (h : s.Files) (tx : TxContext)
    (env : Circumstances) : (s.process revm tx env).1.Files := by
  have processed := process_processed revm s tx env
  generalize s.process revm tx env = result at processed
  cases processed with
  | refused => exact h
  | unmerged _ pending merge =>
    refine h.setPending _ ?_
    rw [(mergeColdWallet_wallets merge).1]
    exact h _ _ pending
  | @failed _ _ _ restore _ _ pending merge execution =>
    obtain ⟨kept, restored⟩ := mergeColdWallet_wallets merge
    refine h.setPending _ ?_
    cases restore with
    | none =>
      rw [Option.getD_none, transactWrite_wallets execution, kept]
      exact h _ _ pending
    | some r =>
      obtain rfl := restored r rfl
      exact h _ _ pending
  | executed _ pending merge execution =>
    refine h.setPending _ ?_
    rw [transactWrite_wallets execution, (mergeColdWallet_wallets merge).1]
    exact h _ _ pending

theorem Called.files {revm : Revm} {s : EvmInner} (h : Called revm s) : s.Files := by
  induction h with
  | opened => simp [EvmInner.Files]
  | @prepareNextCommit s key before ih =>
    unfold EvmInner.prepareNextCommit
    split
    · split_ifs
      · exact ih
      · exact ih.setPending key filed_empty
    · exact ih.setPending key filed_empty
  | @importLegacyColdWallets s key wallets before ih =>
    unfold EvmInner.importLegacyColdWallets
    split
    · next p pending =>
        split_ifs
        · exact ih.setPending key (PendingCommit.importLegacyColdWallets_filed (ih key p pending) wallets)
        · exact ih
    · exact ih
  | process tx env before ih => exact ih.process tx env

/-- The cold wallets of a change set that is hashed are filed under their addresses. -/
theorem Called.filed {revm : Revm} {s : EvmInner} (h : Called revm s) {key : CommitKey}
    {p : PendingCommit} (pending : s.pendingCommits key = some p) (σ : Schedule Site) :
    Filed (buildCommit σ revm.toBundling p).changeSet.legacyColdWallets :=
  h.files key p pending

end Mainsail.Evm
