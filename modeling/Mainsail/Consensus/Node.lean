import Mainsail.Consensus.Aggregator
import Mainsail.Consensus.Bootstrapper

/-!
# A node between two awaits

`consensus.ts` with the parts of the processors, the block processor and the bootstrapper
that it runs against, as one state machine. A step runs the program from one `await` to
the next. What is in flight is part of the state: the handler that holds the handler lock,
the calls of the message and proposal processors under the commit lock, the proposals that
are being built, the calls of `onTimeoutBlockPrepare`, and the transactions of the
consensus store. The environment chooses which of them goes on, and what an awaited call
outside this model returns, by the event.

Timeouts may fire at any time and with any arguments, and `handle` may be called for any
round state, so the scheduler and the set of pending jobs are left out. So are events and
log lines, apart from the `await` they cost. A call that returns without a change is not
a step.

A node also keeps three logs that no handler reads: the votes its validators signed, the
proposals that `onTimeoutBlockPrepare` handed to the proposal processor, and the blocks it
committed. They survive a crash.
-/

namespace Mainsail

/-- What a node reads and a run does not change. Validators are known by their index among
the round validators of a block number. -/
structure Env where
  /-- `getMilestone(blockNumber).roundValidators`. -/
  roundValidators : Nat → Nat
  /-- The indices of the round validators that are registered on this node. -/
  registered : Nat → List Nat
  /-- The proposer of a block number and round. -/
  proposerIndex : Nat → Nat → Nat
  /-- `timeouts.tolerance` of the milestone. -/
  tolerance : Nat
  /-- The signature of a vote under the hash of the previous block. -/
  sign : Message → Bytes → Bytes

/-- What an awaited call returns: it throws or gives a truth value. `now` is the clock at
the time the handler goes on. -/
structure Reply where
  threw : Bool
  value : Bool
  now : Nat
  deriving DecidableEq, Repr

/-- Where a handler goes on after `#persistState`. -/
inductive Next
  | beginRound
  | prevoteProposal (key : RoundKey)
  | prevoteLocked (key : RoundKey)
  | prevote (value : Option Bytes)
  | precommit (value : Option Bytes)
  | done
  deriving DecidableEq

/-- The innermost statement the handler is suspended in. -/
inductive Continuation
  /-- `await this.#persistState()`, until the transaction with this number is durable. -/
  | persisted (ticket : Nat) (next : Next)
  | next (next : Next)
  /-- The loop of `prevote` and `precommit`: the validators still to vote. -/
  | votes (type : MessageType) (value : Option Bytes) (indices : List Nat)
  | signed (message : Message) (indices : List Nat)
  | saved (ticket : Nat) (message : Message) (indices : List Nat)
  | beginRound
  /-- The rest of `#beginRound`, after the event. -/
  | roundStarted
  /-- The three awaits of `#processProposal`. -/
  | deserialize (key : RoundKey)
  | verifyLockProof (key : RoundKey)
  | process (key : RoundKey)
  /-- `#processBlock` in `handleCommitState`. -/
  | processBlock (commit : Commit)
  /-- `commitLock.runExclusive`, then the stages of `processor.commit`. -/
  | lockCommit (block : BlockHeader)
  | commitUnit (block : BlockHeader)
  | storeCommit (block : BlockHeader)
  | committed (block : BlockHeader)
  deriving DecidableEq

/-- The statements of `applyRules`. -/
inductive Rule
  | processProposal
  | onProposal
  | onProposalLocked
  | onMajorityPrevote
  | onMajorityPrevoteAny
  | onMajorityPrevoteNull
  | onMajorityPrecommitAny
  | onMajorityPrecommit
  | onMajorityPrecommitWithoutProposal
  | onMinorityWithHigherRound
  deriving DecidableEq

/-- What a handler still has before it, after its innermost statement. -/
inductive Statement
  | rule (rule : Rule) (key : RoundKey)
  /-- `applyRules` on the current round state, unless disposed. -/
  | applyCurrent
  | unlockCommit
  /-- The peer-to-peer layer is booted once `run` has returned. -/
  | boot
  deriving DecidableEq

/-- A call of a processor that holds the commit lock, not exclusively. -/
inductive Incoming
  | message (message : Message)
  | proposal (proposal : Proposal)
  | saving (ticket : Nat)
  deriving DecidableEq

/-- How far `#createProposal` has come. -/
inductive BuildStage
  | started
  | forging (number : Nat)
  | resolved (proposal : Option Proposal)
  deriving DecidableEq

/-- A proposal under construction. Its position and its valid value, with the block found
valid, are fixed at its start. -/
structure Build where
  id : Nat
  key : RoundKey
  validatorIndex : Nat
  validValue : Option (Nat × BlockHeader)
  stage : BuildStage
  deriving DecidableEq

/-- A call of `onTimeoutBlockPrepare`. -/
inductive Prepare
  | waiting (id : Nat)
  | saving (ticket : Nat) (proposal : Proposal)
  deriving DecidableEq

/-- What is durable, what is logged, and what the handlers decide on. -/
structure Core where
  /-- The last block of the database. A commit is durable when it returns. -/
  database : BlockHeader
  storage : Service
  /-- Votes signed, with the previous block hash they were signed under. -/
  signedVotes : List (Message × Bytes)
  handedProposals : List Proposal
  committedBlocks : List BlockHeader
  running : Bool
  -- The fields of `Consensus` and the statement it is suspended in.
  blockNumber : Nat
  round : Nat
  step : Step
  lockedValue : Option RoundKey
  validValue : Option RoundKey
  proposalPromise : Option Nat
  continuation : Option Continuation
  -- Other services, and calls in flight outside the handler lock.
  stateStore : BlockHeader
  roundStates : Repository
  /-- The commit lock is held exclusively. -/
  exclusive : Bool
  processing : List Incoming
  builds : List Build
  nextBuild : Nat
  prepares : List Prepare
  ownMessages : List Message
  ownProposals : List Proposal

/-- A node: with the flags of `Consensus`, the rest of the running handler, and whether peers
are connected. -/
structure Node extends Core where
  didMajorityPrevote : Bool
  didMajorityPrecommit : Bool
  didMajorityPrecommitWithoutProposal : Bool
  isDisposed : Bool
  todo : List Statement
  booted : Bool

namespace Core

variable (c : Core)

def current : RoundKey := ⟨c.blockNumber, c.round⟩

def position : Position := ⟨c.blockNumber, c.round, c.step⟩

def getState : StateData where
  blockNumber := c.blockNumber
  round := c.round
  step := c.step
  lockedRound := c.lockedValue.map (·.round)
  validRound := c.validValue.map (·.round)

/-- `#persistState` up to its `await`. -/
def persistState (next : Next) : Core :=
  { c with
    storage := c.storage.write (.state c.getState)
    continuation := some (.persisted (c.storage.write (.state c.getState)).issued next) }

/-- The vote of one validator, as its signer is called. -/
def vote (env : Env) (type : MessageType) (value : Option Bytes) (validatorIndex : Nat) : Message :=
  let unsigned : Message := ⟨type, c.blockNumber, c.round, value, validatorIndex, []⟩
  { unsigned with signature := env.sign unsigned c.stateStore.hash }

/-- `#getValidators`: the registered validators without a vote of this type. -/
def getValidators (env : Env) (type : MessageType) : List Nat :=
  (env.registered c.blockNumber).filter fun i =>
    match type with
    | .prevote => !(c.roundStates c.current).hasPrevote i
    | .precommit => !(c.roundStates c.current).hasPrecommit i

/-- `#isFromFuture`. -/
def isFromFuture (env : Env) (block : BlockHeader) (now : Nat) : Bool :=
  block.timestamp > now + env.tolerance

/-- What `onProposal` prevotes: nil while locked, for a block from the future, and for a
block the processor rejected. -/
def proposalValue (env : Env) (key : RoundKey) (now : Nat) : Option Bytes :=
  match (c.roundStates key).proposal with
  | none => none
  | some p =>
    if c.lockedValue.isSome then none
    else if isFromFuture env p.blockHeader now then none
    else if (c.roundStates key).processorResult = some true then some p.blockHeader.hash
    else none

/-- `isAllowedByLock` of `onProposalLocked`. -/
def isAllowedByLock (p : Proposal) (validRound : Nat) : Bool :=
  match c.lockedValue with
  | none => true
  | some locked =>
    locked.round ≤ validRound ||
      (c.roundStates locked).proposal.map (·.blockHeader.hash) = some p.blockHeader.hash

/-- What `onProposalLocked` prevotes. -/
def lockedProposalValue (key : RoundKey) : Option Bytes :=
  match (c.roundStates key).proposal with
  | none => none
  | some p =>
    match p.validRound with
    | none => none
    | some validRound =>
      if c.isAllowedByLock p validRound && (c.roundStates key).processorResult = some true then
        some p.blockHeader.hash
      else none

/-- `setProcessorResult` at the end of `#processProposal`. -/
def setResult (key : RoundKey) (success : Bool) : Core :=
  { c with
    roundStates := c.roundStates.set key ((c.roundStates key).setProcessorResult success)
    continuation := none }

/-- The process is down, with these durable contents and logs. -/
def off (database : BlockHeader) (tables : Tables) (signedVotes : List (Message × Bytes))
    (handedProposals : List Proposal) (committedBlocks : List BlockHeader) : Core where
  database := database
  storage := .initializeFrom tables
  signedVotes := signedVotes
  handedProposals := handedProposals
  committedBlocks := committedBlocks
  running := false
  blockNumber := 1
  round := 0
  step := .propose
  lockedValue := none
  validValue := none
  proposalPromise := none
  continuation := none
  stateStore := database
  roundStates := .empty
  exclusive := false
  processing := []
  builds := []
  nextBuild := 0
  prepares := []
  ownMessages := []
  ownProposals := []

/-- A crash after the first `kept` of the transactions on their way. -/
def crash (kept : Nat) : Core :=
  off c.database (c.storage.crash kept) c.signedVotes c.handedProposals c.committedBlocks

/-- What `run` starts from. -/
def restored (state : Bootstrapper.Restored) : Core :=
  { c with
    storage := if state.clears then c.storage.clear.settle else c.storage
    running := true
    blockNumber := state.blockNumber
    round := state.round
    step := state.step
    lockedValue := state.lockedValue
    validValue := state.validValue
    continuation := some .beginRound
    roundStates := state.roundStates }

/-- The build of `prepareProposal`. A valid value without its block makes it fail. -/
def build (env : Env) : Build :=
  let started : Build :=
    ⟨c.nextBuild, c.current, env.proposerIndex c.blockNumber c.round, none, .started⟩
  match c.validValue with
  | none => started
  | some key =>
    match (c.roundStates key).getBlock with
    | none => { started with stage := .resolved none }
    | some block => { started with validValue := some (key.round, block) }

def findBuild (id : Nat) : Option Build := c.builds.find? fun b => b.id == id

/-- The build with this id has come to this stage. -/
def setStage (id : Nat) (stage : BuildStage) : Core :=
  { c with builds := c.builds.map fun b => if b.id = id then { b with stage := stage } else b }

end Core

namespace Node

/-- A process that is down, and has nothing in memory. -/
def off (core : Core) : Node where
  toCore := core
  didMajorityPrevote := false
  didMajorityPrecommit := false
  didMajorityPrecommitWithoutProposal := false
  isDisposed := false
  todo := []
  booted := false

/-- A node that has never run: the consensus store is empty. -/
def start (database : BlockHeader) : Node := off (.off database .empty [] [] [])

variable (env : Env) (n : Node)

/-- An exception leaves the handler and frees the locks it holds. -/
def throw : Node := { n with continuation := none, todo := [], exclusive := false }

/-- `#persistState` up to its `await`. -/
def persistState (next : Next) : Node := { n with toCore := n.toCore.persistState next }

/-- `#beginRound` up to its first `await`. -/
def beginRound : Node :=
  { n with
    proposalPromise := none
    continuation := if n.isDisposed then none else some .roundStarted }

/-- The fields `startRound` sets at once. -/
def enterRound (round : Nat) : Node :=
  { n with
    round := round
    step := .propose
    didMajorityPrevote := false
    didMajorityPrecommit := false
    didMajorityPrecommitWithoutProposal := false
    todo := .applyCurrent :: n.todo }

/-- `startRound` up to its first `await`. Round 0 is the position the bootstrapper assumes
without a stored state. -/
def startRound (round : Nat) : Node :=
  if 0 < round then (n.enterRound round).persistState .beginRound
  else (n.enterRound round).beginRound

/-- `applyRules`, as the statements it consists of. -/
def applyRules (key : RoundKey) : Node :=
  if key.blockNumber = n.blockNumber then
    { n with todo :=
        .rule .processProposal key :: .rule .onProposal key :: .rule .onProposalLocked key ::
        .rule .onMajorityPrevote key :: .rule .onMajorityPrevoteAny key ::
        .rule .onMajorityPrevoteNull key :: .rule .onMajorityPrecommitAny key ::
        .rule .onMajorityPrecommit key :: .rule .onMajorityPrecommitWithoutProposal key ::
        .rule .onMinorityWithHigherRound key :: n.todo }
  else n

/-! ## Rules -/

/-- `#processProposal` up to its first `await`. -/
def processProposal (key : RoundKey) : Node :=
  if (n.roundStates key).processorResult = none ∧ (n.roundStates key).hasProposal then
    { n with continuation := some (.deserialize key) }
  else n

/-- Tendermint line 22. -/
def onProposal (key : RoundKey) : Node :=
  match (n.roundStates key).proposal with
  | none => n
  | some p =>
    if n.step = .propose ∧ key = n.current ∧ p.validRound = none ∧
        (n.roundStates key).processorResult.isSome then
      { n with step := .prevote }.persistState (.prevoteProposal key)
    else n

/-- Tendermint line 28. The lock proof was verified in `#processProposal`. -/
def onProposalLocked (key : RoundKey) : Node :=
  match (n.roundStates key).proposal with
  | none => n
  | some p =>
    match p.validRound with
    | none => n
    | some validRound =>
      if n.step = .propose ∧ key = n.current ∧ p.lockProof.isSome ∧ validRound < n.round ∧
          (n.roundStates key).processorResult.isSome then
        { n with step := .prevote }.persistState (.prevoteLocked key)
      else n

/-- Tendermint line 36. A round state without a result makes the handler throw. -/
def onMajorityPrevote (key : RoundKey) : Node :=
  if (n.roundStates key).hasMajorityPrevotes (env.roundValidators key.blockNumber) ∧
      n.didMajorityPrevote = false ∧ Step.prevote.toNat ≤ n.step.toNat ∧ key = n.current then
    match (n.roundStates key).proposal, (n.roundStates key).processorResult with
    | none, _ => n
    | some _, none => n.throw
    | some _, some false => n
    | some p, some true =>
      if n.step = .prevote then
        { n with
          didMajorityPrevote := true
          lockedValue := some key
          validValue := some key
          step := .precommit }.persistState (.precommit (some p.blockHeader.hash))
      else
        { n with didMajorityPrevote := true, validValue := some key }.persistState .done
  else n

/-- Tendermint line 44. -/
def onMajorityPrevoteNull (key : RoundKey) : Node :=
  if (n.roundStates key).hasMajorityPrevotesNull (env.roundValidators key.blockNumber) ∧
      n.step = .prevote ∧ key = n.current then
    { n with step := .precommit }.persistState (.precommit none)
  else n

/-- Tendermint line 49, for a round state of any round of the height. -/
def onMajorityPrecommit (key : RoundKey) : Node :=
  if (n.roundStates key).hasMajorityPrecommits (env.roundValidators key.blockNumber) ∧
      key.blockNumber = n.blockNumber ∧ n.didMajorityPrecommit = false then
    match (n.roundStates key).getBlock, (n.roundStates key).processorResult with
    | none, _ => { n with didMajorityPrecommit := true }.throw
    | some _, none => { n with didMajorityPrecommit := true }.throw
    | some _, some false => { n with didMajorityPrecommit := true }
    | some block, some true =>
      { n with didMajorityPrecommit := true, continuation := some (.lockCommit block) }
  else n

def onMajorityPrecommitWithoutProposal (key : RoundKey) : Node :=
  if (n.roundStates key).hasMajorityPrecommitsWithoutProposal
      (env.roundValidators key.blockNumber) ∧ key = n.current then
    { n with didMajorityPrecommitWithoutProposal := true }
  else n

/-- Tendermint line 55. -/
def onMinorityWithHigherRound (key : RoundKey) : Node :=
  if (n.roundStates key).hasMinorityPrevotesOrPrecommits (env.roundValidators key.blockNumber) ∧
      key.blockNumber = n.blockNumber ∧ n.round < key.round then
    n.startRound key.round
  else n

/-- The majorities of any votes only schedule a timeout. -/
def execRule (key : RoundKey) : Rule → Node
  | .processProposal => n.processProposal key
  | .onProposal => n.onProposal key
  | .onProposalLocked => n.onProposalLocked key
  | .onMajorityPrevote => n.onMajorityPrevote env key
  | .onMajorityPrevoteAny => n
  | .onMajorityPrevoteNull => n.onMajorityPrevoteNull env key
  | .onMajorityPrecommitAny => n
  | .onMajorityPrecommit => n.onMajorityPrecommit env key
  | .onMajorityPrecommitWithoutProposal => n.onMajorityPrecommitWithoutProposal env key
  | .onMinorityWithHigherRound => n.onMinorityWithHigherRound env key

/-! ## The running handler -/

/-- The rest of `#beginRound`: `prepareProposal`, unless the block number is pending. -/
def roundStarted (pendingCommit : Bool) : Node :=
  if n.step = .propose ∧ pendingCommit = false ∧ (n.roundStates n.current).hasProposal = false ∧
      env.proposerIndex n.blockNumber n.round ∈ env.registered n.blockNumber then
    { n with
      proposalPromise := some n.nextBuild
      builds := n.builds ++ [n.toCore.build env]
      nextBuild := n.nextBuild + 1
      continuation := none }
  else { n with continuation := none }

def exec : Statement → Node
  | .rule rule key => n.execRule env key rule
  | .applyCurrent => if n.isDisposed then n else n.applyRules n.current
  | .unlockCommit => { n with exclusive := false }
  | .boot => { n with booted := true }

/-- Where the handler goes on once its state is durable. -/
def execNext (reply : Reply) : Next → Node
  | .beginRound => n.beginRound
  | .prevoteProposal key => cast .prevote (n.proposalValue env key reply.now)
  | .prevoteLocked key => cast .prevote (n.lockedProposalValue key)
  | .prevote value => cast .prevote value
  | .precommit value => cast .precommit value
  | .done => { n with continuation := none }
where
  /-- `prevote` and `precommit` up to their loop. -/
  cast (type : MessageType) (value : Option Bytes) : Node :=
    { n with continuation := some (.votes type value (n.getValidators env type)) }

/-- The last part of `onMajorityPrecommit`: the next block number, in round 0. -/
def advance : Node :=
  { n with
    roundStates := .empty
    blockNumber := n.blockNumber + 1
    lockedValue := none
    validValue := none
    todo := .unlockCommit :: n.todo }.startRound 0

/-- Go on with the innermost statement. A failing commit ends in `app.fail`, which throws. -/
def resume (reply : Reply) : Continuation → Option Node
  | .persisted ticket next =>
    if ticket ≤ n.storage.flushed then some { n with continuation := some (.next next) } else none
  | .next next => some (n.execNext env reply next)
  | .votes _ _ [] => some { n with continuation := none }
  | .votes type value (i :: indices) => some { n with
      signedVotes := n.signedVotes ++ [(n.vote env type value i, n.stateStore.hash)]
      continuation := some (.signed (n.vote env type value i) indices) }
  | .signed m indices => some { n with
      storage := n.storage.write (.message m)
      continuation := some (.saved (n.storage.write (.message m)).issued m indices) }
  | .saved ticket m indices =>
    if ticket ≤ n.storage.flushed then some { n with
      ownMessages := n.ownMessages ++ [m]
      continuation := some (.votes m.type m.blockHash indices) }
    else none
  | .beginRound => some n.beginRound
  | .roundStarted => some (n.roundStarted env reply.value)
  | .deserialize key =>
    if reply.threw then some { n with toCore := n.setResult key false }
    else some { n with
      roundStates := n.roundStates.set key (n.roundStates key).deserializePayload
      continuation := some (.verifyLockProof key) }
  | .verifyLockProof key =>
    match (n.roundStates key).proposal with
    | none => some { n with toCore := n.setResult key false }
    | some p =>
      if !reply.threw && hasValidLockProof (fun _ _ => reply.value)
          (env.roundValidators p.blockHeader.number) p then
        some { n with continuation := some (.process key) }
      else some { n with toCore := n.setResult key false }
  | .process key => some { n with toCore := n.setResult key (!reply.threw && reply.value) }
  | .processBlock commit =>
    if !reply.threw && reply.value then
      some { n with continuation := some (.lockCommit commit.block) }
    else some { n with continuation := none }
  | .lockCommit block =>
    if n.exclusive then none
    else some { n with exclusive := true, continuation := some (.commitUnit block) }
  | .commitUnit block =>
    if n.processing = [] then
      if reply.threw then some n.throw
      else some { n with
        database := block
        committedBlocks := n.committedBlocks ++ [block]
        continuation := some (.storeCommit block) }
    else none
  | .storeCommit block =>
    if reply.threw then some n.throw
    else some { n with stateStore := block, continuation := some (.committed block) }
  | .committed _ => if reply.threw then some n.throw else some n.advance

/-- The handler that holds the lock goes on. -/
def goOn (reply : Reply) : Option Node :=
  match n.continuation with
  | some continuation => n.resume env reply continuation
  | none =>
    match n.todo with
    | [] => none
    | statement :: todo => some ({ n with todo := todo }.exec env statement)

/-- The handler lock is free. -/
def idle : Bool := n.continuation.isNone && n.todo.isEmpty

/-! ## Calls from outside -/

/-- What `#createProposal` waits for: the forged block or the lock proof, and the signature. -/
structure Built where
  hash : Bytes
  timestamp : Nat
  lockProof : AggregatedSignature
  signature : Bytes
  deriving DecidableEq

/-- The proposal a build ends with. A valid round that is not lower than the round does not
pass the factory. -/
def propose (b : Build) (built : Built) : Option Proposal :=
  match b.validValue, b.stage with
  | none, .forging number => some
      (.fresh ⟨number, built.hash, built.timestamp⟩ b.key.round b.validatorIndex built.signature)
  | some (validRound, block), .started =>
    if lower : validRound < b.key.round then some {
      blockHeader := block
      round := b.key.round
      validRound := some validRound
      lockProof := some built.lockProof
      validatorIndex := b.validatorIndex
      signature := built.signature
      paired := rfl
      validRound_lt := by simpa using lower }
    else none
  | _, _ => none

/-- The call of `forgeBlock`, which reads the last block of the state store. -/
def forgeBlock (id : Nat) : Option Node :=
  match n.findBuild id with
  | none => none
  | some b =>
    if b.stage = .started ∧ b.validValue = none then
      some { n with toCore := n.setStage id (.forging (n.stateStore.number + 1)) }
    else none

/-- The promise of a build resolves. It resolves to nothing where building failed. -/
def proposalBuilt (id : Nat) (built : Option Built) : Option Node :=
  match n.findBuild id with
  | none => none
  | some b =>
    match b.stage with
    | .resolved _ => none
    | _ => some { n with toCore := n.setStage id (.resolved (built.bind (propose b))) }

def onTimeoutBlockPrepare : Option Node :=
  n.proposalPromise.map fun id => { n with prepares := n.prepares ++ [.waiting id] }

/-- `onTimeoutBlockPrepare` after its first `await`: a stale promise is dropped. -/
def proposalAwaited (id : Nat) : Option Node :=
  if .waiting id ∈ n.prepares then
    match n.findBuild id with
    | some ⟨_, _, _, _, .resolved proposal⟩ =>
      let rest := n.prepares.erase (.waiting id)
      if n.isDisposed ∨ n.proposalPromise ≠ some id then some { n with prepares := rest }
      else
        match proposal with
        | none => some { n with proposalPromise := none, prepares := rest }
        | some p => some { n with
            proposalPromise := none
            storage := n.storage.write (.proposal p)
            prepares := rest ++ [.saving (n.storage.write (.proposal p)).issued p] }
    | _ => none
  else none

/-- The proposal is handed to the proposal processor once it is durable. -/
def proposalSaved (ticket : Nat) (p : Proposal) : Option Node :=
  if .saving ticket p ∈ n.prepares ∧ ticket ≤ n.storage.flushed then some { n with
    prepares := n.prepares.erase (.saving ticket p)
    handedProposals := n.handedProposals ++ [p]
    ownProposals := n.ownProposals ++ [p] }
  else none

/-- The checks of the processors up to their first `await`. Peers reach them once the
peer-to-peer layer is booted, the node's own votes and proposals before. -/
def accepts (own : Bool) (key : RoundKey) : Bool :=
  (n.booted || own) && !n.exclusive && !n.isDisposed && key.blockNumber = n.blockNumber &&
    n.round ≤ key.round

def processMessage (m : Message) : Option Node :=
  if n.accepts (m ∈ n.ownMessages) m.roundKey ∧ (n.roundStates m.roundKey).hasMessage m = false then
    some { n with processing := n.processing ++ [.message m] }
  else none

/-- `MessageProcessor.process` after the signature check: a duplicate is skipped. -/
def messageVerified (m : Message) (valid : Bool) : Option Node :=
  if .message m ∈ n.processing then
    let rest := n.processing.erase (.message m)
    match if valid then n.roundStates.addMessage m else none with
    | none => some { n with processing := rest }
    | some repo => some { n with
        roundStates := repo
        storage := n.storage.write (.message m)
        processing := rest ++ [.saving (n.storage.write (.message m)).issued] }
  else none

def receiveProposal (p : Proposal) : Option Node :=
  if n.accepts (p ∈ n.ownProposals) p.roundKey ∧
      p.validatorIndex = env.proposerIndex p.blockHeader.number p.round ∧
      (n.roundStates p.roundKey).hasProposal = false then
    some { n with processing := n.processing ++ [.proposal p] }
  else none

/-- `ProposalProcessor.process` after the signature check. -/
def proposalVerified (p : Proposal) (valid : Bool) : Option Node :=
  if .proposal p ∈ n.processing then
    let rest := n.processing.erase (.proposal p)
    match if valid then n.roundStates.addProposal p else none with
    | none => some { n with processing := rest }
    | some repo => some { n with
        roundStates := repo
        storage := n.storage.write (.proposal p)
        processing := rest ++ [.saving (n.storage.write (.proposal p)).issued] }
  else none

/-- The write of a processor is durable, and the processor returns. -/
def incomingSaved (ticket : Nat) : Option Node :=
  if .saving ticket ∈ n.processing ∧ ticket ≤ n.storage.flushed then
    some { n with processing := n.processing.erase (.saving ticket) }
  else none

/-- The handlers that take the handler lock. They do nothing once disposed. -/
def handle (key : RoundKey) : Option Node :=
  if n.idle ∧ n.isDisposed = false ∧ key.blockNumber = n.blockNumber then some (n.applyRules key)
  else none

def handleCommitState (commit : Commit) : Option Node :=
  if n.idle ∧ n.isDisposed = false ∧ commit.block.number = n.blockNumber then
    some { n with continuation := some (.processBlock commit) }
  else none

def onTimeoutPropose (blockNumber round : Nat) : Option Node :=
  if n.idle ∧ n.isDisposed = false ∧ n.step = .propose ∧ n.current = ⟨blockNumber, round⟩ then
    some ({ n with step := .prevote }.persistState (.prevote none))
  else none

def onTimeoutPrevote (blockNumber round : Nat) : Option Node :=
  if n.idle ∧ n.isDisposed = false ∧ n.step = .prevote ∧ n.current = ⟨blockNumber, round⟩ then
    some ({ n with step := .precommit }.persistState (.precommit none))
  else none

def onTimeoutPrecommit (blockNumber round : Nat) : Option Node :=
  if n.idle ∧ n.isDisposed = false ∧ n.current = ⟨blockNumber, round⟩ then
    some (n.startRound (n.round + 1))
  else none

/-- A start of the process. `none` where it throws; the store is as it was then. -/
def restart (readable : Bool) (parses : Bool) : Option Node :=
  match Bootstrapper.bootstrap env.roundValidators (fun _ => parses) n.database
      (if readable then some n.storage.tables else none) with
  | .error _ => none
  | .ok state => some { n with
      toCore := n.restored state
      todo := [.applyCurrent, .boot] }

end Node

/-- What can happen next. -/
inductive Event
  /-- The handler that holds the lock goes on. -/
  | resume (reply : Reply)
  /-- An awaited call throws and the handler leaves. -/
  | abort
  | handle (key : RoundKey)
  | handleCommitState (commit : Commit)
  | onTimeoutPropose (blockNumber round : Nat)
  | onTimeoutPrevote (blockNumber round : Nat)
  | onTimeoutPrecommit (blockNumber round : Nat)
  | onTimeoutBlockPrepare
  | forgeBlock (id : Nat)
  | proposalBuilt (id : Nat) (built : Option Node.Built)
  | proposalAwaited (id : Nat)
  | proposalSaved (ticket : Nat) (proposal : Proposal)
  | processMessage (message : Message)
  | messageVerified (message : Message) (valid : Bool)
  | receiveProposal (proposal : Proposal)
  | proposalVerified (proposal : Proposal) (valid : Bool)
  | incomingSaved (ticket : Nat)
  /-- The store makes its oldest transaction durable. -/
  | flush
  | dispose
  | crash (kept : Nat)
  | restart (readable parses : Bool)
  deriving DecidableEq

namespace Node

def stepRunning (env : Env) (n : Node) : Event → Option Node
  | .resume reply => n.goOn env reply
  | .abort => if n.idle then none else some n.throw
  | .handle key => n.handle key
  | .handleCommitState commit => n.handleCommitState commit
  | .onTimeoutPropose blockNumber round => n.onTimeoutPropose blockNumber round
  | .onTimeoutPrevote blockNumber round => n.onTimeoutPrevote blockNumber round
  | .onTimeoutPrecommit blockNumber round => n.onTimeoutPrecommit blockNumber round
  | .onTimeoutBlockPrepare => n.onTimeoutBlockPrepare
  | .forgeBlock id => n.forgeBlock id
  | .proposalBuilt id built => n.proposalBuilt id built
  | .proposalAwaited id => n.proposalAwaited id
  | .proposalSaved ticket p => n.proposalSaved ticket p
  | .processMessage m => n.processMessage m
  | .messageVerified m valid => n.messageVerified m valid
  | .receiveProposal p => n.receiveProposal env p
  | .proposalVerified p valid => n.proposalVerified p valid
  | .incomingSaved ticket => n.incomingSaved ticket
  | .flush => n.storage.flush.map fun storage => { n with storage := storage }
  | .dispose => some { n with isDisposed := true }
  | .crash kept => some (off (n.toCore.crash kept))
  | .restart .. => none

/-- The state machine. A process that is down can only be started. -/
def transition (env : Env) (n : Node) (e : Event) : Option Node :=
  if n.running then n.stepRunning env e
  else
    match e with
    | .restart readable parses => n.restart env readable parses
    | _ => none

end Node

end Mainsail
