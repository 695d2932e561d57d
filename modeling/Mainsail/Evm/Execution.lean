import Mainsail.Foundation.Reads
import Mainsail.Evm.Database

/-!
# Executions on a pending commit

`transact_write` of `EvmInner` and `apply_rewards` of `state_commit.rs`. revm is a parameter, with
what is assumed of it. It reads accounts, slots and codes through the cache of the pending commit and
from the database where the cache has none, and any read of the database may fail. What an execution
computes from the reads is arbitrary: an error, or a result together with the accounts that it touched.
-/

namespace Mainsail.Evm

inductive EvmError
  /-- The transaction is not valid. -/
  | transaction
  | database
  | custom
  deriving DecidableEq, Repr

/-! ## revm -/

inductive Query
  | basic (address : Address)
  | storage (address : Address) (index : Word)
  | codeByHash (codeHash : Word)
  | blockHash (number : U64)

def Query.Answer : Query → Type
  | basic _ => Option LoadedInfo
  | storage _ _ => Word
  | codeByHash _ => Bytes
  | blockHash _ => Word

/-- The state of revm while it executes. -/
structure Session where
  cache : CacheState
  /-- For each of the coming reads of the database, whether it fails. -/
  faults : List Bool := []

/-- What an execution has made of an account that it touched. -/
structure Touch where
  info : Option LoadedInfo
  status : AccountStatus
  /-- The slots that changed. -/
  storage : HashMap Word StorageSlot := ∅
  /-- Whether the slots of the cache are dropped. -/
  fresh : Bool := false
  storageWasDestroyed : Bool := false
  /-- Whether an account that did not exist and does not exist makes a transition. -/
  listed : Bool := true

/-- What an account owns. -/
def worth (info : Option AccountInfo) : Nat := info.elim 0 (·.balance.val)

/-- A cache after one account has been set, and the transition that this makes. -/
structure Sets (view : CacheState → Address → Option LoadedInfo) (address : Address)
    (info : Option LoadedInfo) (c c' : CacheState) (transition : Option TransitionAccount) : Prop where
  account : ∀ a, view c' a = if a = address then info else view c a
  cached : ∀ a, a ∈ c'.accounts ↔ a = address ∨ a ∈ c.accounts
  listed : ∀ t ∈ transition, t.info = info ∧ t.previousInfo = view c address
  unlisted : transition = none → info = view c address

/-- The functions of revm that are used, with what is assumed of them. -/
structure Revm extends Bundling where
  /-- What is read through a cache. -/
  view : PersistentDb → CacheState → (q : Query) → q.Answer
  read : PersistentDb → Session → (q : Query) → Session × Except EvmError q.Answer
  /-- `State::commit` of an account. -/
  commit : PersistentDb → CacheState → Address × Touch → CacheState × Option TransitionAccount
  /-- An account that is credited by `increment_balances`. -/
  reward : Option LoadedInfo → Nat → Touch
  addTransition : HashMap Address TransitionAccount → Address → TransitionAccount →
    HashMap Address TransitionAccount
  /-- Reads keep the view, and answer according to it. -/
  sound : ∀ db, Reads.Sound (read db) fun s => view db s.cache
  /-- What is in the cache stays there when something is read. -/
  read_cached : ∀ db s q, ∀ a ∈ s.cache.accounts, a ∈ (read db s q).1.cache.accounts
  /-- With an empty cache the balances are those of the database. -/
  worth_fresh : ∀ db a,
    worth (Option.map (·.toAccountInfo) (view db {} (.basic a))) = worth (db.accounts a)
  commit_sets : ∀ db c e, Sets (fun c a => view db c (.basic a)) e.1 e.2.info c (commit db c e).1
    (commit db c e).2
  worth_reward : ∀ info amount, worth ((reward info amount).info.map (·.toAccountInfo)) =
    min (worth (info.map (·.toAccountInfo)) + amount) (2 ^ 256 - 1)
  /-- A later transition of an account is joined to the first. -/
  addTransition_self : ∀ transitions address t,
    ∃ t' ∈ (addTransition transitions address t).lookup address, t'.info = t.info ∧
      t'.previousInfo = ((transitions.lookup address).getD t).previousInfo
  addTransition_ne : ∀ transitions address t, ∀ a ≠ address,
    (addTransition transitions address t).lookup a = transitions.lookup a

/-! ## Changes -/

namespace PendingCommit

/-- One touched account enters the cache and the transitions. -/
def touch (revm : Revm) (db : PersistentDb) (p : PendingCommit) (e : Address × Touch) :
    PendingCommit :=
  let (cache, transition) := revm.commit db p.cache e
  { p with
    cache
    transitions := transition.elim p.transitions (revm.addTransition p.transitions e.1) }

end PendingCommit

/-- What a transaction does, from what it reads. -/
abbrev Execution :=
  Reads.Program Query Query.Answer (Except EvmError (ExecutionResult × List (Address × Touch)))

/-- What the environment of a call does: the execution, and the reads of the database that fail. -/
structure Circumstances where
  execution : Execution
  /-- The first read fails, which is the one of the receipts, or of the nonce of the deployer. -/
  lookupFails : Bool := false
  /-- The read of the cold wallet fails. -/
  walletFails : Bool := false
  /-- The read of the account that is rewarded fails. -/
  rewardFails : Bool := false
  /-- The transaction in which the execution reads is not opened. -/
  readerFails : Bool := false
  /-- The reads of the execution that fail. -/
  faults : List Bool := []

/-- `transact_write` on the pending commit. The cache is moved out before the reader is opened. -/
def transactWrite (revm : Revm) (db : PersistentDb) (p : PendingCommit) (txHash : Option Word)
    (env : Circumstances) : PendingCommit × Except EvmError (ExecutionResult × Nat) :=
  if env.readerFails then ({ p with cache := {} }, .error .database)
  else
    match Reads.run (revm.read db) env.execution { cache := p.cache, faults := env.faults } with
    | (s, .error e) | (s, .ok (.error e)) => ({ p with cache := s.cache }, .error e)
    | (s, .ok (.ok (result, touched))) =>
      let p := touched.foldl (PendingCommit.touch revm db) { p with cache := s.cache }
      match txHash with
      | none => (p, .ok (result, 0))
      | some txHash =>
        let cumulativeGasUsed := p.cumulativeGasUsed + result.gasUsed
        ({ p with
            cumulativeGasUsed
            results := p.results.insert txHash (result, cumulativeGasUsed) },
          .ok (result, cumulativeGasUsed))

/-- `apply_rewards` to one account, which is loaded, credited and committed. -/
def applyRewards (revm : Revm) (db : PersistentDb) (p : PendingCommit) (address : Address)
    (amount : Nat) (fails : Bool) : PendingCommit × Except EvmError Unit :=
  match revm.read db { cache := p.cache, faults := [fails] } (.basic address) with
  | (s, .error e) => ({ p with cache := s.cache }, .error e)
  | (s, .ok info) =>
    (({ p with cache := s.cache } : PendingCommit).touch revm db
      (address, revm.reward info amount), .ok ())

end Mainsail.Evm
