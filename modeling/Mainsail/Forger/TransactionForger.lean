import Mainsail.EvmService.Instance

/-!
# Filling a block

`TransactionForger` executes the transactions that the pool hands out one after the other and keeps
those that fit. A transaction whose gas limit exceeds the gas that is left is executed on top of a
snapshot, to which the instance goes back if the gas is exceeded indeed. The sender of a transaction
that fails is skipped from then on.

The clock and the worker of the pool are asked in each turn of the loop; what they answer is a `Turn`.
Gas is counted exactly: numbers are exact up to `2 ^ 53`, and a header has no room for more than
`2 ^ 32`.
-/

namespace Mainsail

open EvmInstance

/-- What the forger and the processor read of a milestone. -/
structure BlockMilestone where
  maxGasLimit : Nat
  maxPayload : Nat
  roundValidators : Nat
  reward : Nat
  validatorRegistrationFee : Nat
  evmSpec : String
  snapshotHash : Option Bytes := none
  deriving DecidableEq, Repr

/-- What all nodes of a network agree on. -/
structure ChainRules where
  sha256 : Bytes → Bytes
  keccak256 : Bytes → Bytes
  genesisHeight : Nat
  /-- `getMilestone`. -/
  milestone : Nat → BlockMilestone
  /-- `RoundCalculator.isNewRound`. -/
  isNewRound : Nat → Bool

def getPrevrandao (rules : ChainRules) (previousBlock : Block) : Bytes :=
  rules.keccak256 previousBlock.header.randaoReveal

inductive ForgerError
  | evm (error : InstanceError)
  | insufficientBlockSpace
  | invalidNumber
  /-- Thrown by the worker of the pool, or by the factory that reads what it returned. -/
  | pool
  | block (error : BlockError)
  deriving DecidableEq, Repr

structure ProcessTransactionResult where
  fee : Nat
  gasUsed : Nat
  transactions : List Transaction
  gasLeft : Int

structure TransactionForger where
  generatorAddress : Bytes
  timestamp : Nat
  commitKey : UnitKey
  milestone : BlockMilestone
  previousBlock : Block

/-- What the loop over the transactions changes. -/
structure ForgerState (π : Type) where
  evm : EvmInstance π
  result : ProcessTransactionResult
  failedSenders : List Bytes := []

/-- What happens outside in one turn of the loop: the time is up, or the worker does not remove a
transaction that failed. -/
structure Turn where
  expired : Bool
  removeFails : Bool
  deriving DecidableEq, Repr

variable {π : Type}

/-- What the calls at the end of a block make of a pending state. -/
def Machine.endBlock (m : Machine π) (rules : ChainRules) (env : BlockEnv)
    (milestone : BlockMilestone) (state : π) : Option π := do
  let env' := { env with gasLimit := 2 ^ 64 - 1 }
  let state ← m.systemCall env' milestone.evmSpec (.updateRewardsAndVotes milestone.reward) state
  if rules.isNewRound (env.number + 1) then
    let next := rules.milestone (env.number + 1)
    let state ← m.systemCall env' next.evmSpec
      (.updateValidatorRegistrationFee next.validatorRegistrationFee) state
    m.systemCall env' next.evmSpec (.calculateRoundValidators next.roundValidators) state
  else some state

/-- The calls of the consensus contract at the end of a block. The fee and the validators are set for the
round that the next block starts. -/
def EvmInstance.endBlock (m : Machine π) (rules : ChainRules) (key : UnitKey) (number : Nat)
    (timestamp : Nat) (validatorAddress : Bytes) (milestone : BlockMilestone)
    (evm : EvmInstance π) : Except InstanceError (EvmInstance π) := do
  let evm ← evm.updateRewardsAndVotes m key milestone.evmSpec timestamp validatorAddress
    milestone.reward
  if rules.isNewRound (number + 1) then
    let next := rules.milestone (number + 1)
    let evm ← evm.updateValidatorRegistrationFee m key next.evmSpec timestamp validatorAddress
      next.validatorRegistrationFee
    evm.calculateRoundValidators m key next.evmSpec timestamp validatorAddress next.roundValidators
  else return evm

theorem EvmInstance.endBlock_setPending {m : Machine π} {p : PendingUnit π} (rules : ChainRules)
    (evm : EvmInstance π) (key : UnitKey) (milestone : BlockMilestone) :
    (evm.setPending key p).endBlock m rules key p.context.commitKey.blockNumber p.context.timestamp
        p.context.validatorAddress milestone =
      match m.endBlock rules p.context.env milestone p.state with
      | none => .error .execution
      | some state => .ok (evm.setPending key { p with state }) := by
  have env : p.context.systemEnv p.context.timestamp p.context.validatorAddress =
      { p.context.env with gasLimit := 2 ^ 64 - 1 } := rfl
  have number : p.context.env.number = p.context.commitKey.blockNumber := rfl
  simp only [endBlock, updateRewardsAndVotes, consensusSystemCall_setPending,
    Machine.endBlock, env, number]
  cases m.systemCall _ milestone.evmSpec (.updateRewardsAndVotes milestone.reward) p.state with
  | none => rfl
  | some state₁ =>
    simp only [updateValidatorRegistrationFee, calculateRoundValidators, bind, Except.bind,
      Option.bind_some]
    split_ifs
    · rw [consensusSystemCall_setPending]
      simp only [env, number]
      cases m.systemCall _ (rules.milestone (p.context.commitKey.blockNumber + 1)).evmSpec
        (.updateValidatorRegistrationFee _) state₁ with
      | none => rfl
      | some state₂ =>
        simp only [consensusSystemCall_setPending, env, number]
        rfl
    · rfl

namespace TransactionForger

variable (f : TransactionForger) (rules : ChainRules) (m : Machine π)

/-- `result.gasLeft - transaction.gasLimit < 0`. -/
def optimisticExecution (gasLeft : Int) : (gasLimit : Double) → Bool
  | .finite gasLimit => gasLeft < gasLimit
  | .infinite => true

def validateTransaction (evm : EvmInstance π) (transaction : Transaction) :
    Except InstanceError (TransactionReceipt × EvmInstance π) :=
  evm.process m f.commitKey f.milestone.evmSpec transaction.data

/-- The part of `#processTransaction` that follows the snapshot. -/
def execute (s : ForgerState π) (transaction : Transaction) (snapshotTaken : Bool) :
    ForgerState π × Except ForgerError Unit :=
  match f.validateTransaction m s.evm transaction with
  | .error e => (s, .error (.evm e))
  | .ok (receipt, evm) =>
    let gasLeft := s.result.gasLeft - receipt.gasUsed
    let s := { s with evm, result := { s.result with gasLeft } }
    if gasLeft < 0 then
      if snapshotTaken then
        match evm.rollback f.commitKey with
        | .error e => (s, .error (.evm e))
        | .ok evm => ({ s with evm }, .ok ())
      else (s, .error .insufficientBlockSpace)
    else
      let gasUsed := s.result.gasUsed + receipt.gasUsed
      match calculateConsumed transaction.data.gasPrice receipt.gasUsed with
      | none => ({ s with result := { s.result with gasUsed } }, .error .invalidNumber)
      | some consumed =>
        ({ s with
            result :=
              { fee := s.result.fee + consumed, gasUsed, gasLeft
                transactions := s.result.transactions ++ [transaction] } }, .ok ())

/-- The `try` block of `#processTransaction`. It also tells whether a snapshot was taken. -/
def attempt (s : ForgerState π) (transaction : Transaction) :
    (ForgerState π × Except ForgerError Unit) × Bool :=
  if optimisticExecution s.result.gasLeft transaction.data.gasLimit then
    match s.evm.takeSnapshot f.commitKey with
    | .error e => ((s, .error (.evm e)), false)
    | .ok evm => (f.execute m { s with evm } transaction true, true)
  else (f.execute m s transaction false, false)

def handleFailedTransaction (s : ForgerState π) (transaction : Transaction) (removeFails : Bool) :
    ForgerState π × Except ForgerError Unit :=
  if removeFails then (s, .error .pool)
  else
    ({ s with failedSenders := transaction.data.senderPublicKey :: s.failedSenders }, .ok ())

def processTransaction (s : ForgerState π) (transaction : Transaction) (removeFails : Bool) :
    ForgerState π × Except ForgerError Unit :=
  match f.attempt m s transaction with
  | ((s, .ok ()), _) => (s, .ok ())
  | ((s, .error _), snapshotTaken) =>
    -- An error of this rollback is logged only.
    let evm :=
      if snapshotTaken then (s.evm.rollback f.commitKey).toOption.getD s.evm else s.evm
    handleFailedTransaction { s with evm } transaction removeFails

/-- The loop of `#processTransactions`. A delivery is what the iteration yields or throws. -/
def processTransactions (turn : Nat → Turn) :
    ForgerState π → (index : Nat) → (deliveries : List (Option Transaction)) →
      ForgerState π × Except ForgerError Unit
  | s, _, [] => (s, .ok ())
  | s, _, none :: _ => (s, .error .pool)
  | s, index, some transaction :: deliveries =>
    if (turn index).expired then (s, .ok ())
    else if transaction.data.senderPublicKey ∈ s.failedSenders then
      processTransactions turn s (index + 1) deliveries
    else if s.result.gasLeft < 21000 then (s, .ok ())
    else
      match f.processTransaction m s transaction (turn index).removeFails with
      | (s, .error e) => (s, .error e)
      | (s, .ok ()) => processTransactions turn s (index + 1) deliveries

def context : BlockContext where
  commitKey := f.commitKey
  gasLimit := f.milestone.maxGasLimit
  prevrandao := getPrevrandao rules f.previousBlock
  timestamp := f.timestamp
  validatorAddress := f.generatorAddress

@[simp] theorem context_commitKey : (f.context rules).commitKey = f.commitKey := rfl

/-- The instance is resolved for this block, so it has no pending commits. -/
def start : ForgerState π where
  evm := prepareNextCommit m { genesisBlockNumber := rules.genesisHeight }
    (f.context rules)
  result := { fee := 0, gasUsed := 0, transactions := [], gasLeft := f.milestone.maxGasLimit }

def updateRewardsAndVotes (evm : EvmInstance π) : Except InstanceError (EvmInstance π) :=
  evm.updateRewardsAndVotes m f.commitKey f.milestone.evmSpec f.timestamp f.generatorAddress
    f.milestone.reward

def updateValidatorRegistrationFee (evm : EvmInstance π) : Except InstanceError (EvmInstance π) :=
  if rules.isNewRound (f.previousBlock.header.number + 2) then
    let milestone := rules.milestone (f.previousBlock.header.number + 2)
    evm.updateValidatorRegistrationFee m f.commitKey milestone.evmSpec f.timestamp
      f.generatorAddress milestone.validatorRegistrationFee
  else .ok evm

def calculateRoundValidators (evm : EvmInstance π) : Except InstanceError (EvmInstance π) :=
  if rules.isNewRound (f.previousBlock.header.number + 2) then
    let milestone := rules.milestone (f.previousBlock.header.number + 2)
    evm.calculateRoundValidators m f.commitKey milestone.evmSpec f.timestamp f.generatorAddress
      milestone.roundValidators
  else .ok evm

/-- The calls of the consensus contract. -/
def endBlock (evm : EvmInstance π) : Except InstanceError (EvmInstance π) := do
  let evm ← f.updateRewardsAndVotes m evm
  let evm ← f.updateValidatorRegistrationFee rules m evm
  f.calculateRoundValidators rules m evm

/-- The end of `getTransactions`: the bloom filter of the logs and the state root. -/
def finish (evm : EvmInstance π) : Except InstanceError (Bytes × Bytes) := do
  let evm ← f.endBlock rules m evm
  let logsBloom ← evm.logsBloom m f.commitKey
  let (stateRoot, _) ← evm.stateRoot m f.commitKey f.previousBlock.header.stateRoot
  return (logsBloom, stateRoot)

structure Collated where
  logsBloom : Bytes
  stateRoot : Bytes
  transactions : List Transaction
  gasUsed : Nat
  fee : Nat

def getTransactions (turn : Nat → Turn) (deliveries : List (Option Transaction)) :
    Except ForgerError Collated :=
  match f.processTransactions m turn (f.start rules m) 0 deliveries with
  | (_, .error e) => .error e
  | (s, .ok ()) => do
      let (logsBloom, stateRoot) ← (f.finish rules m s.evm).mapError .evm
      return { logsBloom, stateRoot, transactions := s.result.transactions
               gasUsed := s.result.gasUsed, fee := s.result.fee }

/-! ## One transaction -/

/-- What a turn of the loop can do to a block whose pending commit is `p`. Only a transaction that
fits leaves something in the pending commit. -/
inductive Outcome (s : ForgerState π) (p : PendingUnit π) (transaction : Transaction) :
    ForgerState π → Prop
  | included {receipt : TransactionReceipt} {fee : Nat} {state : π} {evm : EvmInstance π}
      (executes : m.Executes p.context.env f.milestone.evmSpec transaction.data p.state receipt fee
        state)
      (fits : receipt.gasUsed ≤ s.result.gasLeft)
      (pending : evm.pendingCommits f.commitKey =
        some (p.executed transaction.data.hash receipt state)) :
      Outcome s p transaction { s with
          evm
          result :=
            { fee := s.result.fee + fee
              gasUsed := s.result.gasUsed + receipt.gasUsed
              transactions := s.result.transactions ++ [transaction]
              gasLeft := s.result.gasLeft - receipt.gasUsed } }
  | rolledBack {receipt : TransactionReceipt} {fee : Nat} {state : π} {evm : EvmInstance π}
      (executes : m.Executes p.context.env f.milestone.evmSpec transaction.data p.state receipt fee
        state)
      (exceeds : s.result.gasLeft < receipt.gasUsed)
      (pending : evm.pendingCommits f.commitKey = some p) :
      Outcome s p transaction
        { s with evm, result := { s.result with gasLeft := s.result.gasLeft - receipt.gasUsed } }
  | failed {evm : EvmInstance π}
      (threw : ∀ receipt fee state, ¬ m.Executes p.context.env f.milestone.evmSpec transaction.data
        p.state receipt fee state)
      (pending : evm.pendingCommits f.commitKey = some p) :
      Outcome s p transaction
        { s with evm, failedSenders := transaction.data.senderPublicKey :: s.failedSenders }

section

variable {f m} {s : ForgerState π} {p : PendingUnit π} {intrinsicGas : TransactionData → Nat}

/-- A gas limit that is not exceeded by the gas that is left. -/
theorem le_of_not_optimisticExecution {gasLeft : Int} {gasLimit : Double} {limit : Nat}
    (room : optimisticExecution gasLeft gasLimit = false) (h : gasLimit.toBigInt = some limit) :
    (limit : Int) ≤ gasLeft := by
  unfold Double.toBigInt at h
  split at h
  · cases h
    exact not_lt.mp (of_decide_eq_false room)
  · cases h

variable {receipt : TransactionReceipt} {evm : EvmInstance π} {taken : Bool}

theorem execute_of_fits {transaction : Transaction} {fee : Nat}
    (validated : f.validateTransaction m s.evm transaction = .ok (receipt, evm))
    (consumed : calculateConsumed transaction.data.gasPrice receipt.gasUsed = some fee)
    (fits : receipt.gasUsed ≤ s.result.gasLeft) :
    f.execute m s transaction taken = ({ s with
          evm
          result :=
            { fee := s.result.fee + fee
              gasUsed := s.result.gasUsed + receipt.gasUsed
              transactions := s.result.transactions ++ [transaction]
              gasLeft := s.result.gasLeft - receipt.gasUsed } }, .ok ()) := by
  have enough : ¬ s.result.gasLeft - receipt.gasUsed < 0 := by omega
  simp only [execute, validated, consumed, if_neg enough]

theorem execute_of_exceeds {transaction : Transaction} {evm' : EvmInstance π}
    (validated : f.validateTransaction m s.evm transaction = .ok (receipt, evm))
    (exceeds : s.result.gasLeft < receipt.gasUsed)
    (rolledBack : evm.rollback f.commitKey = .ok evm') :
    f.execute m s transaction true = ({ s with
          evm := evm'
          result := { s.result with gasLeft := s.result.gasLeft - receipt.gasUsed } }, .ok ()) := by
  have short : s.result.gasLeft - receipt.gasUsed < 0 := by omega
  simp only [execute, validated, rolledBack, if_pos short, if_true]

theorem execute_of_error {transaction : Transaction} {e : InstanceError}
    (threw : f.validateTransaction m s.evm transaction = .error e) :
    f.execute m s transaction taken = (s, .error (.evm e)) := by
  simp only [execute, threw]

/-- A transaction is included, rolled back or dropped, unless the worker fails. -/
theorem processTransaction_spec (metered : m.Metered intrinsicGas)
    (pending : s.evm.pendingCommits f.commitKey = some p)
    (keyed : p.context.commitKey = f.commitKey) (transaction : Transaction) (removeFails : Bool) :
    (∃ s', f.processTransaction m s transaction removeFails = (s', .ok ()) ∧
        Outcome f m s p transaction s') ∨
      removeFails = true ∧
        ∃ s', f.processTransaction m s transaction removeFails = (s', .error .pool) := by
  -- The instance on which the transaction is executed, with or without a snapshot.
  obtain ⟨evm, taken, attempted, here, snapshot⟩ : ∃ evm taken,
      f.attempt m s transaction = (f.execute m { s with evm } transaction taken, taken) ∧
      evm.pendingCommits f.commitKey = some p ∧
      if taken then evm.snapshot = some p
      else optimisticExecution s.result.gasLeft transaction.data.gasLimit = false := by
    by_cases optimistic : optimisticExecution s.result.gasLeft transaction.data.gasLimit
    · refine ⟨{ s.evm with snapshot := some p }, true, ?_, pending, rfl⟩
      rw [attempt, if_pos optimistic, takeSnapshot_eq pending]
    · refine ⟨s.evm, false, ?_, pending, by simpa using optimistic⟩
      rw [attempt, if_neg optimistic]
  obtain ⟨receipt, fee, state, executes, validated⟩ | ⟨threw, e, validated⟩ :=
    process_cases here m f.milestone.evmSpec transaction.data
  all_goals change f.validateTransaction m ({ s with evm } : ForgerState π).evm transaction = _
    at validated
  · by_cases fits : receipt.gasUsed ≤ s.result.gasLeft
    · rw [processTransaction, attempted, execute_of_fits validated executes.fee fits]
      exact .inl ⟨_, rfl, .included executes fits (evm.pendingCommits_setPending ..)⟩
    · have exceeds : s.result.gasLeft < receipt.gasUsed := not_le.mp fits
      cases taken with
      | false =>
        -- Without a snapshot the gas limit is left, and it is not exceeded.
        obtain ⟨limit, limited⟩ := Option.isSome_iff_exists.mp executes.gasLimit
        have room := le_of_not_optimisticExecution snapshot limited
        have used := (metered _ _ _ _ _ _ executes.process).2 limit limited
        omega
      | true =>
        have back := rollback_eq (evm.pendingCommits_setPending f.commitKey
          (p.executed transaction.data.hash receipt state)) snapshot keyed
        rw [processTransaction, attempted, execute_of_exceeds validated exceeds back]
        exact .inl ⟨_, rfl, .rolledBack executes exceeds (pendingCommits_setPending ..)⟩
  · obtain ⟨evm', restored, same⟩ : ∃ evm',
        (if taken then (evm.rollback f.commitKey).toOption.getD evm else evm) = evm' ∧
        evm'.pendingCommits f.commitKey = some p := by
      cases taken with
      | false => exact ⟨evm, rfl, here⟩
      | true =>
        refine ⟨{ evm with snapshot := none }.setPending f.commitKey p, ?_,
          pendingCommits_setPending ..⟩
        rw [if_pos rfl, rollback_eq here snapshot keyed]
        rfl
    have processed : f.processTransaction m s transaction removeFails =
        handleFailedTransaction { s with evm := evm' } transaction removeFails := by
      rw [processTransaction, attempted, execute_of_error validated]
      dsimp only
      rw [restored]
    cases removeFails with
    | false => exact .inl ⟨_, processed, .failed threw same⟩
    | true => exact .inr ⟨rfl, _, processed⟩

end

/-! ## The loop -/

/-- A run of the loop that throws nothing. -/
inductive Loop : ForgerState π → List (Option Transaction) → ForgerState π → Prop
  | stop {s : ForgerState π} {deliveries : List (Option Transaction)} : Loop s deliveries s
  | skip {s s' : ForgerState π} {transaction : Transaction} {deliveries : List (Option Transaction)}
      (failed : transaction.data.senderPublicKey ∈ s.failedSenders)
      (rest : Loop s deliveries s') : Loop s (some transaction :: deliveries) s'
  | turn {s s' s'' : ForgerState π} {p : PendingUnit π} {transaction : Transaction}
      {deliveries : List (Option Transaction)}
      (sound : transaction.data.senderPublicKey ∉ s.failedSenders)
      (enough : 21000 ≤ s.result.gasLeft)
      (pending : s.evm.pendingCommits f.commitKey = some p)
      (outcome : Outcome f m s p transaction s')
      (rest : Loop s' deliveries s'') : Loop s (some transaction :: deliveries) s''

/-- The pending commit of the block is that of the transactions that were included, and their gas is
within the limit of the block. -/
structure Sound (s : ForgerState π) : Prop where
  pending : ∃ p, s.evm.pendingCommits f.commitKey = some p ∧ p.context = f.context rules ∧
    p.builtCommit = none ∧ m.Runs (f.context rules).env f.milestone.evmSpec s.result.transactions
      s.result.gasUsed s.result.fee p.state p.results
  gasUsed : s.result.gasUsed ≤ f.milestone.maxGasLimit
  gasLeft : s.result.gasUsed + s.result.gasLeft ≤ f.milestone.maxGasLimit

section

variable {f rules m} {s s' : ForgerState π} {p : PendingUnit π} {transaction : Transaction}
variable {intrinsicGas : TransactionData → Nat}

theorem Sound.outcome (sound : Sound f rules m s)
    (pending : s.evm.pendingCommits f.commitKey = some p)
    (outcome : Outcome f m s p transaction s') : Sound f rules m s' := by
  obtain ⟨⟨p', pending', context, unbuilt, runs⟩, gasUsed, gasLeft⟩ := sound
  obtain rfl : p = p' := Option.some.inj (pending.symm.trans pending')
  rw [← context] at runs
  cases outcome with
  | included executes fits pending =>
    refine ⟨⟨_, pending, context, unbuilt, ?_⟩, ?_, ?_⟩
    · rw [← context]
      exact runs.snoc executes
    · dsimp only
      omega
    · dsimp only
      omega
  | rolledBack executes exceeds pending =>
    refine ⟨⟨_, pending, context, unbuilt, ?_⟩, gasUsed, ?_⟩
    · rw [← context]
      exact runs
    · dsimp only
      omega
  | failed threw pending =>
    refine ⟨⟨_, pending, context, unbuilt, ?_⟩, gasUsed, gasLeft⟩
    rw [← context]
    exact runs

variable {deliveries : List (Option Transaction)}

theorem Sound.loop (sound : Sound f rules m s)
    (loop : Loop f m s deliveries s') : Sound f rules m s' := by
  induction loop with
  | stop => exact sound
  | skip _ _ ih => exact ih sound
  | turn _ _ pending outcome _ ih => exact ih (sound.outcome pending outcome)

theorem loop_of_processTransactions (metered : m.Metered intrinsicGas) {turn : Nat → Turn}
    {index : Nat} (sound : Sound f rules m s)
    (done : f.processTransactions m turn s index deliveries = (s', .ok ())) :
    Loop f m s deliveries s' := by
  induction deliveries generalizing s index with
  | nil =>
    cases done
    exact .stop
  | cons delivery deliveries ih =>
    cases delivery with
    | none => cases done
    | some transaction =>
      rw [processTransactions] at done
      split_ifs at done with expired failed low
      · cases done
        exact .stop
      · exact .skip failed (ih sound done)
      · cases done
        exact .stop
      · obtain ⟨p, pending, context, -⟩ := sound.pending
        have keyed : p.context.commitKey = f.commitKey := by rw [context, context_commitKey]
        obtain ⟨s₁, processed, outcome⟩ | ⟨-, s₁, threw⟩ :=
          processTransaction_spec metered pending keyed transaction (turn index).removeFails
        · rw [processed] at done
          exact .turn failed (not_lt.mp low) pending outcome
            (ih (sound.outcome pending outcome) done)
        · rw [threw] at done
          cases done

/-- The forger starts after the genesis block. -/
theorem sound_start (later : f.commitKey.blockNumber ≠ rules.genesisHeight) :
    Sound f rules m (f.start rules m) := by
  have prepared : (f.start rules m).evm.pendingCommits f.commitKey =
      some { context := f.context rules, state := m.fresh } :=
    pendingCommits_prepareNextCommit (m := m)
      (s := { genesisBlockNumber := rules.genesisHeight }) (f.context rules) later
  refine ⟨⟨_, prepared, rfl, rfl, .nil⟩, Nat.zero_le _, ?_⟩
  simp [start]

/-! ## The end of a block -/

/-- The forger asks twice whether the next block starts a round. -/
theorem endBlock_eq (evm : EvmInstance π)
    (next : f.commitKey.blockNumber = f.previousBlock.header.number + 1) :
    f.endBlock rules m evm = evm.endBlock m rules f.commitKey f.commitKey.blockNumber f.timestamp
      f.generatorAddress f.milestone := by
  have number : f.commitKey.blockNumber + 1 = f.previousBlock.header.number + 2 :=
    congrArg (· + 1) next
  simp only [endBlock, EvmInstance.endBlock, updateRewardsAndVotes, updateValidatorRegistrationFee,
    calculateRoundValidators, number]
  split_ifs <;> rfl

theorem finish_eq_ok {evm : EvmInstance π} {logsBloom stateRoot : Bytes}
    (pending : evm.pendingCommits f.commitKey = some p) (context : p.context = f.context rules)
    (unbuilt : p.builtCommit = none)
    (next : f.commitKey.blockNumber = f.previousBlock.header.number + 1) :
    f.finish rules m evm = .ok (logsBloom, stateRoot) ↔
      ∃ state, m.endBlock rules (f.context rules).env f.milestone p.state = some state ∧
        m.logsBloom p.results = logsBloom ∧
        m.stateRoot f.commitKey.blockNumber f.previousBlock.header.stateRoot state =
          some stateRoot := by
  obtain ⟨_, state, results, _⟩ := p
  subst context unbuilt
  rw [finish, ← EvmInstance.setPending_eq_self pending, endBlock_eq _ next,
    show EvmInstance.endBlock m rules f.commitKey f.commitKey.blockNumber f.timestamp
      f.generatorAddress f.milestone _ = _ from
      EvmInstance.endBlock_setPending rules evm f.commitKey f.milestone]
  cases m.endBlock rules (f.context rules).env f.milestone state with
  | none => simp [bind, Except.bind]
  | some state =>
    simp only [bind, Except.bind, Option.some.injEq, exists_eq_left']
    rw [(EvmInstance.logsBloom_setPending rfl).1, EvmInstance.stateRoot_setPending rfl]
    simp only [context_commitKey]
    cases m.stateRoot f.commitKey.blockNumber f.previousBlock.header.stateRoot state with
    | none => simp
    | some root => simp [pure, Except.pure]

end

end TransactionForger

end Mainsail
