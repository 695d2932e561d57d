import Mainsail.Crypto.BlockFactory

/-!
# An instance of the EVM

What the forger and the block processor see of the EVM: the pending commits of the blocks that are
being processed, and the snapshot that an instance can go back to. The execution itself is a
`Machine`. What it does depends on its arguments alone, and a call that throws leaves the pending
state as it was.
-/

namespace Mainsail

open Function

/-- The key of a pending commit. While a block is forged, it has no hash. -/
structure UnitKey where
  blockNumber : Nat
  round : Nat
  blockHash : Option Bytes := none
  deriving DecidableEq, Repr

structure BlockContext where
  commitKey : UnitKey
  gasLimit : Nat
  prevrandao : Bytes
  timestamp : Nat
  validatorAddress : Bytes
  deriving DecidableEq, Repr

/-- What an execution reads of a block: of the key, only the number. -/
structure BlockEnv where
  number : Nat
  gasLimit : Nat
  prevrandao : Bytes
  timestamp : Nat
  beneficiary : Bytes
  deriving DecidableEq, Repr

namespace BlockContext

def env (c : BlockContext) : BlockEnv where
  number := c.commitKey.blockNumber
  gasLimit := c.gasLimit
  prevrandao := c.prevrandao
  timestamp := c.timestamp
  beneficiary := c.validatorAddress

/-- The calls of the consensus contract have all the gas they need. -/
def systemEnv (c : BlockContext) (timestamp : Nat) (validatorAddress : Bytes) : BlockEnv where
  number := c.commitKey.blockNumber
  gasLimit := 2 ^ 64 - 1
  prevrandao := c.prevrandao
  timestamp := timestamp
  beneficiary := validatorAddress

end BlockContext

structure TransactionReceipt where
  gasUsed : Nat
  logs : List Bytes
  deriving DecidableEq, Repr

inductive SystemCall
  | updateRewardsAndVotes (blockReward : Nat)
  | updateValidatorRegistrationFee (fee : Nat)
  | calculateRoundValidators (roundValidators : Nat)
  deriving DecidableEq, Repr

/-- The EVM on top of the state of a parent block. A call that throws has no result. -/
structure Machine (π : Type) where
  /-- A pending state to which nothing has been done. -/
  fresh : π
  process : BlockEnv → (specId : String) → TransactionData → π → Option (TransactionReceipt × π)
  systemCall : BlockEnv → (specId : String) → SystemCall → π → Option π
  stateRoot : (number : Nat) → (parent : Bytes) → π → Option Bytes
  logsBloom : (Bytes → Option TransactionReceipt) → Bytes

/-- `FeeCalculator.calculateConsumed`. -/
def calculateConsumed (gasPrice : Double) (gasUsed : Nat) : Option Nat :=
  gasPrice.toBigInt.map (· * gasUsed)

variable {π : Type}

namespace Machine

variable (m : Machine π)

/-- A transaction is executed, with its receipt and its fee. -/
structure Executes (env : BlockEnv) (specId : String) (transaction : TransactionData) (state : π)
    (receipt : TransactionReceipt) (fee : Nat) (state' : π) : Prop where
  gasLimit : transaction.gasLimit.toBigInt.isSome
  fee : calculateConsumed transaction.gasPrice receipt.gasUsed = some fee
  process : m.process env specId transaction state = some (receipt, state')

/-- The transactions are executed one after the other, from a pending state to which nothing has been
done. They use the given gas and pay the given fees. -/
inductive Runs (env : BlockEnv) (specId : String) :
    List Transaction → (gas fees : Nat) → π → (Bytes → Option TransactionReceipt) → Prop
  | nil : Runs env specId [] 0 0 m.fresh fun _ => none
  | snoc {transactions : List Transaction} {transaction : Transaction} {gas fees fee : Nat}
      {state state' : π} {results : Bytes → Option TransactionReceipt} {receipt : TransactionReceipt}
      (runs : Runs env specId transactions gas fees state results)
      (executes : m.Executes env specId transaction.data state receipt fee state') :
      Runs env specId (transactions ++ [transaction]) (gas + receipt.gasUsed) (fees + fee) state'
        (update results transaction.data.hash (some receipt))

/-- A transaction takes its intrinsic gas at least and its gas limit at most. -/
def Metered (intrinsicGas : TransactionData → Nat) : Prop :=
  ∀ env specId transaction state receipt state',
    m.process env specId transaction state = some (receipt, state') →
      intrinsicGas transaction ≤ receipt.gasUsed ∧
        ∀ gasLimit, transaction.gasLimit.toBigInt = some gasLimit → receipt.gasUsed ≤ gasLimit

end Machine

/-- `PendingCommit`. Once the commit is built, the state and the results have moved there. -/
structure PendingUnit (π : Type) where
  context : BlockContext
  state : π
  results : Bytes → Option TransactionReceipt := fun _ => none
  builtCommit : Option (π × (Bytes → Option TransactionReceipt)) := none

structure EvmInstance (π : Type) where
  genesisBlockNumber : Nat
  pendingCommits : UnitKey → Option (PendingUnit π) := fun _ => none
  snapshot : Option (PendingUnit π) := none

inductive InstanceError
  | missingCommitKey
  | invalidNumber
  | execution
  | commitKeyMismatch
  | noSnapshot
  deriving DecidableEq, Repr

/-- The pending commit after a transaction. -/
def PendingUnit.executed (p : PendingUnit π) (hash : Bytes) (receipt : TransactionReceipt)
    (state : π) : PendingUnit π :=
  { p with state, results := update p.results hash (some receipt) }

namespace EvmInstance

variable (m : Machine π) (s : EvmInstance π) (key : UnitKey)

def setPending (p : PendingUnit π) : EvmInstance π :=
  { s with pendingCommits := update s.pendingCommits key (some p) }

def prepareNextCommit (context : BlockContext) : EvmInstance π :=
  match s.pendingCommits context.commitKey with
  | some p =>
    -- While the node starts, the pending commit of the genesis block is not replaced.
    if p.context.commitKey.blockNumber = s.genesisBlockNumber ∧
        context.commitKey = p.context.commitKey then s
    else s.setPending context.commitKey { context, state := m.fresh }
  | none => s.setPending context.commitKey { context, state := m.fresh }

def process (specId : String) (transaction : TransactionData) :
    Except InstanceError (TransactionReceipt × EvmInstance π) :=
  match transaction.gasLimit.toBigInt, transaction.gasPrice.toBigInt, s.pendingCommits key with
  | some _, some _, some p =>
    match m.process p.context.env specId transaction p.state with
    | none => .error .execution
    | some (receipt, state) =>
      .ok (receipt, s.setPending key (p.executed transaction.hash receipt state))
  | some _, some _, none => .error .missingCommitKey
  | _, _, _ => .error .invalidNumber

def consensusSystemCall (specId : String) (timestamp : Nat) (validatorAddress : Bytes)
    (call : SystemCall) : Except InstanceError (EvmInstance π) :=
  match s.pendingCommits key with
  | none => .error .missingCommitKey
  | some p =>
    match m.systemCall (p.context.systemEnv timestamp validatorAddress) specId call p.state with
    | none => .error .execution
    | some state => .ok (s.setPending key { p with state })

def updateRewardsAndVotes (specId : String) (timestamp : Nat) (validatorAddress : Bytes)
    (blockReward : Nat) : Except InstanceError (EvmInstance π) :=
  s.consensusSystemCall m key specId timestamp validatorAddress (.updateRewardsAndVotes blockReward)

def updateValidatorRegistrationFee (specId : String) (timestamp : Nat) (validatorAddress : Bytes)
    (fee : Nat) : Except InstanceError (EvmInstance π) :=
  s.consensusSystemCall m key specId timestamp validatorAddress (.updateValidatorRegistrationFee fee)

def calculateRoundValidators (specId : String) (timestamp : Nat) (validatorAddress : Bytes)
    (roundValidators : Nat) : Except InstanceError (EvmInstance π) :=
  s.consensusSystemCall m key specId timestamp validatorAddress
    (.calculateRoundValidators roundValidators)

def takeSnapshot : Except InstanceError (EvmInstance π) :=
  match s.pendingCommits key with
  | none => .error .missingCommitKey
  | some p => .ok { s with snapshot := some p }

def rollback : Except InstanceError (EvmInstance π) :=
  match s.snapshot with
  | none => .error .noSnapshot
  | some p =>
    if p.context.commitKey ≠ key then .error .commitKeyMismatch
    else
      match s.pendingCommits key with
      | none => .error .missingCommitKey
      | some _ => .ok ({ s with snapshot := none }.setPending key p)

/-- `build_commit`. -/
def build (p : PendingUnit π) : PendingUnit π :=
  match p.builtCommit with
  | some _ => p
  | none =>
    { context := p.context, state := m.fresh, builtCommit := some (p.state, p.results) }

def stateRoot (parent : Bytes) : Except InstanceError (Bytes × EvmInstance π) :=
  match s.pendingCommits key with
  | none => .error .missingCommitKey
  | some p =>
    match (build m p).builtCommit with
    | none => .error .execution
    | some (state, _) =>
      match m.stateRoot p.context.commitKey.blockNumber parent state with
      | none => .error .execution
      | some root => .ok (root, s.setPending key (build m p))

def logsBloom : Except InstanceError Bytes :=
  match s.pendingCommits key with
  | none => .error .missingCommitKey
  | some p =>
    match p.builtCommit with
    | some (_, results) => .ok (m.logsBloom results)
    | none => .ok (m.logsBloom p.results)

@[simp] theorem pendingCommits_setPending (p : PendingUnit π) :
    (s.setPending key p).pendingCommits key = some p :=
  update_self ..

theorem setPending_setPending (p p' : PendingUnit π) :
    (s.setPending key p).setPending key p' = s.setPending key p' := by
  rw [setPending, setPending, setPending, update_idem]

/-- A call of the consensus contract advances the pending state. -/
theorem consensusSystemCall_setPending (p : PendingUnit π) (specId : String) (timestamp : Nat)
    (validatorAddress : Bytes) (call : SystemCall) :
    (s.setPending key p).consensusSystemCall m key specId timestamp validatorAddress call =
      match m.systemCall (p.context.systemEnv timestamp validatorAddress) specId call p.state with
      | none => .error .execution
      | some state => .ok (s.setPending key { p with state }) := by
  rw [consensusSystemCall, pendingCommits_setPending]
  dsimp only
  split
  · rfl
  · rw [setPending_setPending]

variable {m s key} {p : PendingUnit π}

/-- The state root is that of the pending state. The commit is built for it. -/
theorem stateRoot_setPending (unbuilt : p.builtCommit = none) (parent : Bytes) :
    (s.setPending key p).stateRoot m key parent =
      match m.stateRoot p.context.commitKey.blockNumber parent p.state with
      | none => .error .execution
      | some root => .ok (root, s.setPending key (build m p)) := by
  simp only [stateRoot, pendingCommits_setPending, build, unbuilt, setPending_setPending]

/-- The bloom filter does not depend on whether the commit is built. -/
theorem logsBloom_setPending (unbuilt : p.builtCommit = none) :
    (s.setPending key p).logsBloom m key = .ok (m.logsBloom p.results) ∧
      (s.setPending key (build m p)).logsBloom m key = .ok (m.logsBloom p.results) := by
  simp only [logsBloom, pendingCommits_setPending, build, unbuilt, and_self]

theorem setPending_eq_self (pending : s.pendingCommits key = some p) : s.setPending key p = s := by
  rw [setPending, ← pending, update_eq_self]

/-- After the genesis block, a commit is prepared from scratch. -/
theorem pendingCommits_prepareNextCommit (context : BlockContext)
    (later : context.commitKey.blockNumber ≠ s.genesisBlockNumber) :
    (s.prepareNextCommit m context).pendingCommits context.commitKey =
      some { context, state := m.fresh } := by
  unfold prepareNextCommit
  split
  · split_ifs with genesis
    · exact absurd (genesis.2 ▸ genesis.1) later
    · exact pendingCommits_setPending ..
  · exact pendingCommits_setPending ..

section

variable (pending : s.pendingCommits key = some p)

include pending

theorem takeSnapshot_eq : s.takeSnapshot key = .ok { s with snapshot := some p } := by
  rw [takeSnapshot, pending]

/-- A call of `process` executes the transaction, or it throws because the transaction cannot be
executed. -/
theorem process_cases (m : Machine π) (specId : String) (transaction : TransactionData) :
    (∃ receipt fee state, m.Executes p.context.env specId transaction p.state receipt fee state ∧
        s.process m key specId transaction =
          .ok (receipt, s.setPending key (p.executed transaction.hash receipt state))) ∨
      (∀ receipt fee state,
        ¬ m.Executes p.context.env specId transaction p.state receipt fee state) ∧
      ∃ e, s.process m key specId transaction = .error e := by
  unfold process
  split
  · next gasLimit gasPrice p' limit price pending' =>
      obtain rfl : p = p' := Option.some.inj (pending.symm.trans pending')
      split
      · next threw =>
          refine .inr ⟨fun _ _ _ executes => ?_, _, rfl⟩
          cases threw.symm.trans executes.process
      · next receipt state executed =>
          refine .inl ⟨receipt, gasPrice * receipt.gasUsed, state, ⟨?_, ?_, executed⟩, rfl⟩
          · rw [limit]
            rfl
          · rw [calculateConsumed, price]
            rfl
  · next missing => cases pending.symm.trans missing
  · next invalid _ =>
      refine .inr ⟨fun receipt _ _ executes => ?_, _, rfl⟩
      obtain ⟨gasLimit, limit⟩ := Option.isSome_iff_exists.mp executes.gasLimit
      obtain ⟨gasPrice, price, -⟩ := Option.map_eq_some_iff.mp executes.fee
      exact invalid gasLimit gasPrice p limit price pending

/-- Going back to a snapshot that was taken under the same key. -/
theorem rollback_eq {taken : PendingUnit π} (snapshot : s.snapshot = some taken)
    (keyed : taken.context.commitKey = key) :
    s.rollback key = .ok ({ s with snapshot := none }.setPending key taken) := by
  rw [rollback, snapshot]
  simp only [keyed, ne_eq, not_true_eq_false, if_false, pending]

end

end EvmInstance

end Mainsail
