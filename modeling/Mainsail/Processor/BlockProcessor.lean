import Mainsail.Forger.BlockForger

/-!
# Processing a block

`BlockProcessor.process` executes the transactions of a block once more and compares what comes out with
the header: the gas, the fees, the state root and the bloom filter of the logs.

The forger has executed the same transactions on top of the same state, between others that failed or
were rolled back. None of those has left anything in the pending state, so a forged block passes.
-/

namespace Mainsail

open EvmInstance BlockForger TransactionForger List Option

structure BlockProcessorResult where
  feeUsed : Nat := 0
  gasUsed : Nat := 0
  receipts : List (Bytes × TransactionReceipt) := []
  success : Bool := false

inductive ProcessError
  | verification
  | evm (error : InstanceError)
  | invalidNumber
  | invalidGasUsed (gasUsed : Nat)
  | invalidFee (fee : Nat)
  | invalidStateRoot (stateRoot : Bytes)
  | invalidLogsBloom (logsBloom : Bytes)
  deriving DecidableEq, Repr

/-- What `process` changes. -/
structure Processing (π : Type) where
  evm : EvmInstance π
  result : BlockProcessorResult := {}

namespace BlockProcessor

variable {π : Type} (rules : ChainRules) (m : Machine π) (lastBlock block : Block)

def commitKey : UnitKey where
  blockNumber := block.header.number
  round := block.header.round
  blockHash := some block.hash

def prevrandao : Bytes :=
  if block.header.number = rules.genesisHeight then replicate 32 0
  else getPrevrandao rules lastBlock

def context : BlockContext where
  commitKey := commitKey block
  gasLimit := (rules.milestone block.header.number).maxGasLimit
  prevrandao := prevrandao rules lastBlock block
  timestamp := block.header.timestamp
  validatorAddress := block.header.proposer

@[simp] theorem context_blockNumber :
    (context rules lastBlock block).commitKey.blockNumber = block.header.number := rfl

def consumeGas (result : BlockProcessorResult) (gasUsed : Nat) :
    Except ProcessError BlockProcessorResult :=
  if result.gasUsed + gasUsed > block.header.gasUsed then
    .error (.invalidGasUsed (result.gasUsed + gasUsed))
  else .ok { result with gasUsed := result.gasUsed + gasUsed }

def consumeFee (result : BlockProcessorResult) (transaction : Transaction) (gasUsed : Nat) :
    Except ProcessError BlockProcessorResult :=
  match calculateConsumed transaction.data.gasPrice gasUsed with
  | none => .error .invalidNumber
  | some fee =>
    if result.feeUsed + fee > block.header.fee then .error (.invalidFee (result.feeUsed + fee))
    else .ok { result with feeUsed := result.feeUsed + fee }

/-- `TransactionProcessor.process`. -/
def executeTransaction (evm : EvmInstance π) (transaction : Transaction) :
    Except InstanceError (TransactionReceipt × EvmInstance π) :=
  evm.process m (commitKey block) (rules.milestone block.header.number).evmSpec transaction.data

/-- One turn of the loop over the transactions. -/
def processTransaction (s : Processing π) (transaction : Transaction) :
    Processing π × Except ProcessError Unit :=
  match executeTransaction rules m block s.evm transaction with
  | .error e => (s, .error (.evm e))
  | .ok (receipt, evm) =>
    let receipts := s.result.receipts ++ [(transaction.data.hash, receipt)]
    let result := { s.result with receipts }
    match consumeGas block result receipt.gasUsed with
    | .error e => ({ evm, result }, .error e)
    | .ok result =>
      match consumeFee block result transaction receipt.gasUsed with
      | .error e => ({ evm, result }, .error e)
      | .ok result => ({ evm, result }, .ok ())

def processTransactions :
    Processing π → List Transaction → Processing π × Except ProcessError Unit
  | s, [] => (s, .ok ())
  | s, transaction :: transactions =>
    match processTransaction rules m block s transaction with
    | (s, .error e) => (s, .error e)
    | (s, .ok ()) => processTransactions s transactions

def updateRewardsAndVotes (milestone : BlockMilestone) (evm : EvmInstance π) :
    Except InstanceError (EvmInstance π) :=
  evm.updateRewardsAndVotes m (commitKey block) milestone.evmSpec block.header.timestamp
    block.header.proposer milestone.reward

def updateValidatorRegistrationFee (milestone : BlockMilestone) (evm : EvmInstance π) :
    Except InstanceError (EvmInstance π) :=
  evm.updateValidatorRegistrationFee m (commitKey block) milestone.evmSpec block.header.timestamp
    block.header.proposer milestone.validatorRegistrationFee

def calculateRoundValidators (milestone : BlockMilestone) (evm : EvmInstance π) :
    Except InstanceError (EvmInstance π) :=
  evm.calculateRoundValidators m (commitKey block) milestone.evmSpec block.header.timestamp
    block.header.proposer milestone.roundValidators

/-- The calls of the consensus contract. -/
def endBlock (evm : EvmInstance π) : Except InstanceError (EvmInstance π) := do
  let evm ← updateRewardsAndVotes m block (rules.milestone block.header.number) evm
  if rules.isNewRound (block.header.number + 1) then
    let nextMilestone := rules.milestone (block.header.number + 1)
    let evm ← updateValidatorRegistrationFee m block nextMilestone evm
    calculateRoundValidators m block nextMilestone evm
  else return evm

def previousStateRoot : Bytes :=
  if block.header.number ≠ rules.genesisHeight then lastBlock.header.stateRoot
  else (rules.milestone block.header.number).snapshotHash.getD (replicate 32 0)

def verifyStateRoot (evm : EvmInstance π) : Except ProcessError (EvmInstance π) :=
  match evm.stateRoot m (commitKey block) (previousStateRoot rules lastBlock block) with
  | .error e => .error (.evm e)
  | .ok (stateRoot, evm) =>
    if block.header.stateRoot ≠ stateRoot then .error (.invalidStateRoot stateRoot) else .ok evm

def verifyLogsBloom (evm : EvmInstance π) : Except ProcessError Unit :=
  match evm.logsBloom m (commitKey block) with
  | .error e => .error (.evm e)
  | .ok logsBloom =>
    if block.header.logsBloom ≠ logsBloom then .error (.invalidLogsBloom logsBloom) else .ok ()

/-- What follows the transactions. The instance of a block that fails here is not used again. -/
def verifyBlock (s : Processing π) : Except ProcessError (EvmInstance π) := do
  if block.header.gasUsed ≠ s.result.gasUsed then .error (.invalidGasUsed s.result.gasUsed)
  else if s.result.feeUsed ≠ block.header.fee then .error (.invalidFee s.result.feeUsed)
  else
    let evm ← (endBlock rules m block s.evm).mapError .evm
    let evm ← verifyStateRoot rules m lastBlock block evm
    verifyLogsBloom m block evm
    return evm

/-- `process`, with the error that is logged. The block verifier comes first. -/
def process (verify : Block → Bool) (evm : EvmInstance π) : Processing π × Option ProcessError :=
  if verify block then
    let evm := evm.prepareNextCommit m (context rules lastBlock block)
    match processTransactions rules m block { evm } block.transactions with
    | (s, .error e) => (s, some e)
    | (s, .ok ()) =>
      match verifyBlock rules m lastBlock block s with
      | .error e => (s, some e)
      | .ok evm => ({ evm, result := { s.result with success := true } }, none)
  else ({ evm }, some .verification)

/-! ## Executing a run once more -/

variable {rules m lastBlock block} {p : PendingUnit π}

theorem processTransactions_append (s : Processing π) (transactions transactions' : List Transaction) :
    processTransactions rules m block s (transactions ++ transactions') =
      match processTransactions rules m block s transactions with
      | (s, .error e) => (s, .error e)
      | (s, .ok ()) => processTransactions rules m block s transactions' := by
  induction transactions generalizing s with
  | nil => rfl
  | cons transaction transactions ih =>
    rw [cons_append, processTransactions, processTransactions]
    split
    · rfl
    · exact ih _

variable {s : Processing π} {state : π} {results : Bytes → Option TransactionReceipt}

/-- A transaction that can be executed, within the gas and the fees of the block. -/
theorem processTransaction_of_executes {transaction : Transaction}
    {receipt : TransactionReceipt} {fee : Nat}
    (pending : s.evm.pendingCommits (commitKey block) = some p)
    (executes : m.Executes p.context.env (rules.milestone block.header.number).evmSpec
      transaction.data p.state receipt fee state)
    (gas : s.result.gasUsed + receipt.gasUsed ≤ block.header.gasUsed)
    (fees : s.result.feeUsed + fee ≤ block.header.fee) :
    ∃ s', processTransaction rules m block s transaction = (s', .ok ()) ∧
      s'.evm.pendingCommits (commitKey block) =
        some (p.executed transaction.data.hash receipt state) ∧
      s'.result.gasUsed = s.result.gasUsed + receipt.gasUsed ∧
      s'.result.feeUsed = s.result.feeUsed + fee := by
  obtain ⟨receipt', fee', state', executes', processed⟩ | ⟨threw, -⟩ :=
    process_cases pending m (rules.milestone block.header.number).evmSpec transaction.data
  · obtain ⟨rfl, rfl⟩ := Prod.mk.inj (some.inj
      (executes.process.symm.trans executes'.process))
    have enough : ¬ s.result.gasUsed + receipt.gasUsed > block.header.gasUsed := not_lt.mpr gas
    have paid : ¬ s.result.feeUsed + fee > block.header.fee := not_lt.mpr fees
    simp only [processTransaction, executeTransaction, processed, consumeGas, if_neg enough,
      consumeFee, executes.fee, if_neg paid]
    exact ⟨_, rfl, s.evm.pendingCommits_setPending .., rfl, rfl⟩
  · exact absurd executes (threw _ _ _)

/-- The transactions of a run are executed again, with the same pending state, gas and fees. -/
theorem processTransactions_of_runs {transactions : List Transaction} {gas fees : Nat}
    (runs : m.Runs (context rules lastBlock block).env (rules.milestone block.header.number).evmSpec
      transactions gas fees state results) (prepared : s.evm.pendingCommits (commitKey block) =
      some { context := context rules lastBlock block, state := m.fresh })
    (unused : s.result.gasUsed = 0 ∧ s.result.feeUsed = 0)
    (enough : gas ≤ block.header.gasUsed) (paid : fees ≤ block.header.fee) :
    ∃ s', processTransactions rules m block s transactions = (s', .ok ()) ∧
      s'.evm.pendingCommits (commitKey block) =
        some { context := context rules lastBlock block, state, results } ∧
      s'.result.gasUsed = gas ∧ s'.result.feeUsed = fees := by
  induction runs with
  | nil => exact ⟨s, rfl, prepared, unused⟩
  | snoc runs executes ih =>
    obtain ⟨s₁, done, pending, gas, fees⟩ :=
      ih ((Nat.le_add_right _ _).trans enough) ((Nat.le_add_right _ _).trans paid)
    obtain ⟨s₂, processed, pending, gas', fees'⟩ :=
      processTransaction_of_executes pending executes (gas ▸ enough) (fees ▸ paid)
    refine ⟨s₂, ?_, pending, by rw [gas', gas], by rw [fees', fees]⟩
    rw [processTransactions_append, done]
    simp only [processTransactions, processed]

/-- The checks after the transactions pass if the header has what the pending state leads to. -/
theorem verifyBlock_eq_ok {state' : π} (pending : s.evm.pendingCommits (commitKey block) =
      some { context := context rules lastBlock block, state, results })
    (gas : s.result.gasUsed = block.header.gasUsed) (fees : s.result.feeUsed = block.header.fee)
    (ends : m.endBlock rules (context rules lastBlock block).env
      (rules.milestone block.header.number) state = some state')
    (stateRoot : m.stateRoot block.header.number (previousStateRoot rules lastBlock block) state' =
      some block.header.stateRoot) (logsBloom : m.logsBloom results = block.header.logsBloom) :
    ∃ evm, verifyBlock rules m lastBlock block s = .ok evm := by
  have ended : endBlock rules m block s.evm = .ok (s.evm.setPending (commitKey block)
      { context := context rules lastBlock block, state := state', results }) := by
    have calls := endBlock_setPending (m := m)
      (p := { context := context rules lastBlock block, state, results }) rules s.evm
      (commitKey block) (rules.milestone block.header.number)
    rw [setPending_eq_self pending, ends] at calls
    exact calls
  have rooted : verifyStateRoot rules m lastBlock block (s.evm.setPending (commitKey block)
      { context := context rules lastBlock block, state := state', results }) = .ok
        (s.evm.setPending (commitKey block) (build m
          { context := context rules lastBlock block, state := state', results })) := by
    rw [verifyStateRoot, stateRoot_setPending rfl]
    simp only [context_blockNumber, stateRoot, ne_eq, not_true_eq_false, if_false]
  have bloomed : verifyLogsBloom m block (s.evm.setPending (commitKey block) (build m
      { context := context rules lastBlock block, state := state', results })) = .ok () := by
    rw [verifyLogsBloom, (logsBloom_setPending rfl).2]
    simp only [logsBloom, ne_eq, not_true_eq_false, if_false]
  rw [verifyBlock, if_neg (not_not.mpr gas.symm), if_neg (not_not.mpr fees), ended]
  simp only [Except.mapError, bind, Except.bind, rooted, bloomed]
  exact ⟨_, rfl⟩

/-- A forged block is within the gas limit, and every node on top of the same block that the verifier
lets through processes it with success. -/
theorem process_forgeBlock (metered : m.Metered fun _ => 0) {configuration : TransactionConfiguration}
    {request : ForgeRequest} {turn : Nat → Turn} {deliveries : List (Option Transaction)}
    (later : rules.genesisHeight ≤ lastBlock.header.number)
    (forged : forgeBlock rules configuration lastBlock request m turn deliveries =
      .ok block) (evm : EvmInstance π) (genesis : evm.genesisBlockNumber = rules.genesisHeight)
    (verify : Block → Bool) :
    block.header.gasUsed ≤ (rules.milestone block.header.number).maxGasLimit ∧
      (verify block = true → ∃ s, process rules m lastBlock block verify evm = (s, none) ∧
        s.result.success = true) := by
  obtain ⟨collated, collates, made⟩ := forgeBlock_eq_ok.mp forged
  obtain ⟨s, done, finished, included, gas, fees⟩ :=
    getTransactions_eq_ok.mp collates
  obtain ⟨header, transactions, -⟩ := makeBlock_eq_ok made
  have number : block.header.number = lastBlock.header.number + 1 := by
    rw [header]
    rfl
  have start := @sound_start π
    (transactionForger rules lastBlock request) rules m (Nat.lt_succ_of_le later).ne'
  have sound := start.loop (loop_of_processTransactions metered start done)
  obtain ⟨p, pending, forging, unbuilt, runs⟩ := sound.pending
  obtain ⟨state, ends, bloom, root⟩ :=
    (finish_eq_ok pending forging unbuilt rfl).mp finished
  have after : block.header.number ≠ rules.genesisHeight := by
    rw [number]
    exact (Nat.lt_succ_of_le later).ne'
  -- Both executions see the same block.
  have env : ((transactionForger rules lastBlock request).context rules).env =
      (context rules lastBlock block).env := by
    have randao : prevrandao rules lastBlock block = getPrevrandao rules lastBlock := if_neg after
    rw [context, randao]
    simp only [BlockContext.env, commitKey, header]
    rfl
  have milestone : (transactionForger rules lastBlock request).milestone =
      rules.milestone block.header.number := by
    rw [number]
    rfl
  have used : block.header.gasUsed = s.result.gasUsed := by
    rw [header]
    exact gas
  have paid : block.header.fee = s.result.fee := by
    rw [header]
    exact fees
  rw [env, milestone, ← included, ← transactions] at runs
  rw [env, milestone] at ends
  refine ⟨used ▸ milestone ▸ sound.gasUsed, fun passes => ?_⟩
  have prepared := pendingCommits_prepareNextCommit (m := m) (s := evm)
    (context rules lastBlock block) (genesis ▸ after)
  obtain ⟨s₁, processed, pending₁, gas₁, fees₁⟩ := processTransactions_of_runs
    (s := { evm := evm.prepareNextCommit m (context rules lastBlock block) }) runs prepared
    ⟨rfl, rfl⟩ used.ge paid.ge
  have parent : previousStateRoot rules lastBlock block = lastBlock.header.stateRoot := if_pos after
  obtain ⟨evm', verified⟩ := verifyBlock_eq_ok pending₁ (gas₁.trans used.symm)
    (fees₁.trans paid.symm) ends (by rw [parent, number, header]; exact root)
    (by rw [header]; exact bloom)
  refine ⟨{ evm := evm', result := { s₁.result with success := true } }, ?_, rfl⟩
  rw [process, if_pos passes]
  simp only [processed, verified]

/-- An EVM that refuses transactions with nonce 2 and counts the others, which use all of their gas. -/
def sampleMachine : Machine Nat where
  fresh := 0
  process _ _ transaction n :=
    if transaction.nonce = 2 then none
    else transaction.gasLimit.toBigInt.map fun gasLimit => (⟨gasLimit, []⟩, n + 1)
  systemCall _ _ _ n := some n
  stateRoot _ _ n := some (replicate 32 (UInt8.ofNat n))
  logsBloom _ := replicate 256 0

/-- A transfer that is included, one that fails, one of the same sender, and one of another sender that
exceeds the gas that is left. -/
def sampleDeliveries : List (Option Transaction) :=
  [some sampleTransaction,
    some { sampleTransaction with data := { sampleTransaction.data with nonce := 2 } },
    some { sampleTransaction with data := { sampleTransaction.data with nonce := 3 } },
    some { sampleTransaction with
      data := { sampleTransaction.data with
        senderPublicKey := replicate 33 3, gasLimit := .finite 9990000 } }]

theorem process_forgeBlock_sample :
    ∃ block s, forgeBlock (sampleRules 2097152) TransactionFactory.devnet sampleBlock
        ⟨replicate 20 1, 0, 5000, replicate 96 0⟩ sampleMachine
        (fun _ => ⟨false, false⟩) sampleDeliveries = .ok block ∧
      block.transactions = [sampleTransaction] ∧
      process (sampleRules 2097152) sampleMachine sampleBlock block (fun _ => true)
        { genesisBlockNumber := 0 } = (s, none) ∧ s.result.success = true := by
  have forged : (forgeBlock (sampleRules 2097152) TransactionFactory.devnet sampleBlock
      ⟨replicate 20 1, 0, 5000, replicate 96 0⟩ sampleMachine
      (fun _ => ⟨false, false⟩) sampleDeliveries).toOption.map (·.transactions) =
        some [sampleTransaction] := by
    decide +kernel
  obtain ⟨block, forged, transactions⟩ := map_eq_some_iff.mp forged
  rw [Except.toOption_eq_some] at forged
  have metered : sampleMachine.Metered fun _ => 0 := by
    intro env specId transaction n receipt n' executed
    obtain ⟨-, executed⟩ := ite_none_left_eq_some.mp executed
    obtain ⟨gasLimit, limit, same⟩ := map_eq_some_iff.mp executed
    obtain ⟨rfl, -⟩ := Prod.mk.inj same
    refine ⟨Nat.zero_le _, fun gasLimit' limit' => ?_⟩
    exact (some.inj (limit.symm.trans limit')).le
  obtain ⟨s, processed, success⟩ := (process_forgeBlock metered (by decide) forged
    { genesisBlockNumber := 0 } rfl fun _ => true).2 rfl
  exact ⟨block, s, forged, transactions, processed, success⟩

end BlockProcessor

end Mainsail
