import Mainsail.Consensus.Node
import Mainsail.Foundation.Transition

/-!
# What one step can do

A step of a node, seen from its core: what is durable, what is logged, and what the handlers
decide on. The control flow is gone here, so a move may be taken whenever its own conditions
hold. `transition_step` says that every step of the node is one of these moves. The
invariants of the following modules are proved of the moves and are invariants of the
node by that theorem.
-/

namespace Mainsail

open Option

/-- The changes of position and locks that a handler persists before it goes on. -/
inductive Shift (env : Env) (c : Core) :
    (round : Nat) → (step : Step) → (locked valid : Option RoundKey) → Next → Prop
  | proposal {p : Proposal} : c.step = .propose →
      (c.roundStates c.current).proposal = some p → p.validRound = none →
      (c.roundStates c.current).processorResult.isSome →
      Shift env c c.round .prevote c.lockedValue c.validValue (.prevoteProposal c.current)
  | proposalLocked {p : Proposal} {validRound : Nat} : c.step = .propose →
      (c.roundStates c.current).proposal = some p → p.validRound = some validRound →
      (c.roundStates c.current).processorResult.isSome →
      Shift env c c.round .prevote c.lockedValue c.validValue (.prevoteLocked c.current)
  | proposeTimeout : c.step = .propose →
      Shift env c c.round .prevote c.lockedValue c.validValue (.prevote none)
  | lock {p : Proposal} : c.step = .prevote →
      (c.roundStates c.current).hasMajorityPrevotes (env.roundValidators c.blockNumber) = true →
      (c.roundStates c.current).proposal = some p →
      (c.roundStates c.current).processorResult = some true →
      Shift env c c.round .precommit (some c.current) (some c.current)
        (.precommit (some p.blockHeader.hash))
  | valid : c.step = .precommit →
      (c.roundStates c.current).hasMajorityPrevotes (env.roundValidators c.blockNumber) = true →
      Shift env c c.round .precommit c.lockedValue (some c.current) .done
  | nil : c.step = .prevote →
      Shift env c c.round .precommit c.lockedValue c.validValue (.precommit none)
  | round {round : Nat} : c.round < round →
      Shift env c round .propose c.lockedValue c.validValue .beginRound

/-- The votes a handler casts once its state is durable. -/
inductive Casts (env : Env) (c : Core) : Next → MessageType → Option Bytes → Prop
  | proposal (key : RoundKey) (now : Nat) :
      Casts env c (.prevoteProposal key) .prevote (c.proposalValue env key now)
  | proposalLocked (key : RoundKey) :
      Casts env c (.prevoteLocked key) .prevote (c.lockedProposalValue key)
  | prevote (value : Option Bytes) : Casts env c (.prevote value) .prevote value
  | precommit (value : Option Bytes) : Casts env c (.precommit value) .precommit value

/-- The moves of a running node. -/
inductive Move (env : Env) (c : Core) : Event → Core → Prop
  | stay {e : Event} : Move env c e c
  | leave {e : Event} : Move env c e { c with continuation := none }
  | throw {e : Event} : Move env c e { c with continuation := none, exclusive := false }
  | unlockCommit {e : Event} : c.continuation = none → Move env c e { c with exclusive := false }
  | begin {e : Event} (disposed : Bool) :
      c.continuation = some .beginRound ∨ c.continuation = some (.next .beginRound) →
      Move env c e { c with
        proposalPromise := none
        continuation := if disposed then none else some .roundStarted }
  -- `#processProposal`
  | deserialize {e : Event} {key : RoundKey} : c.continuation = none →
      (c.roundStates key).hasProposal = true →
      Move env c e { c with continuation := some (.deserialize key) }
  | deserialized {e : Event} {key : RoundKey} : c.continuation = some (.deserialize key) →
      Move env c e { c with
        roundStates := c.roundStates.set key (c.roundStates key).deserializePayload
        continuation := some (.verifyLockProof key) }
  | lockProofVerified {reply : Reply} {key : RoundKey} {p : Proposal} :
      c.continuation = some (.verifyLockProof key) → (c.roundStates key).proposal = some p →
      hasValidLockProof (fun _ _ => reply.value) (env.roundValidators p.blockHeader.number) p =
        true →
      Move env c (.resume reply) { c with continuation := some (.process key) }
  | failed {e : Event} {key : RoundKey} :
      c.continuation = some (.deserialize key) ∨ c.continuation = some (.verifyLockProof key) →
      Move env c e (c.setResult key false)
  | processed {e : Event} {key : RoundKey} {success : Bool} :
      c.continuation = some (.process key) → Move env c e (c.setResult key success)
  -- State records and votes
  | persist {e : Event} {round : Nat} {step : Step} {locked valid : Option RoundKey}
      {next : Next} : c.continuation = none → Shift env c round step locked valid next →
      Move env c e ({ c with
        round := round
        step := step
        lockedValue := locked
        validValue := valid }.persistState next)
  | persisted {e : Event} {ticket : Nat} {next : Next} :
      c.continuation = some (.persisted ticket next) → ticket ≤ c.storage.flushed →
      Move env c e { c with continuation := some (.next next) }
  | cast {e : Event} {next : Next} {type : MessageType} {value : Option Bytes} :
      c.continuation = some (.next next) → Casts env c next type value →
      Move env c e { c with continuation := some (.votes type value (c.getValidators env type)) }
  | sign {e : Event} {type : MessageType} {value : Option Bytes} {i : Nat} {indices : List Nat} :
      c.continuation = some (.votes type value (i :: indices)) →
      Move env c e { c with
        signedVotes := c.signedVotes ++ [(c.vote env type value i, c.stateStore.hash)]
        continuation := some (.signed (c.vote env type value i) indices) }
  | saveVote {e : Event} {m : Message} {indices : List Nat} :
      c.continuation = some (.signed m indices) →
      Move env c e { c with
        storage := c.storage.write (.message m)
        continuation := some (.saved (c.storage.write (.message m)).issued m indices) }
  | voteSaved {e : Event} {ticket : Nat} {m : Message} {indices : List Nat} :
      c.continuation = some (.saved ticket m indices) → ticket ≤ c.storage.flushed →
      Move env c e { c with
        ownMessages := c.ownMessages ++ [m]
        continuation := some (.votes m.type m.blockHash indices) }
  -- Commits
  | processBlock {commit : Commit} : c.continuation = none → commit.block.number = c.blockNumber →
      Move env c (.handleCommitState commit) { c with continuation := some (.processBlock commit) }
  | decideCommit {e : Event} {commit : Commit} : c.continuation = some (.processBlock commit) →
      Move env c e { c with continuation := some (.lockCommit commit.block) }
  | decide {e : Event} {key : RoundKey} {block : BlockHeader} : c.continuation = none →
      key.blockNumber = c.blockNumber →
      (c.roundStates key).hasMajorityPrecommits (env.roundValidators key.blockNumber) = true →
      (c.roundStates key).getBlock = some block →
      Move env c e { c with continuation := some (.lockCommit block) }
  | lockCommit {e : Event} {block : BlockHeader} : c.continuation = some (.lockCommit block) →
      Move env c e { c with exclusive := true, continuation := some (.commitUnit block) }
  | commitUnit {e : Event} {block : BlockHeader} : c.continuation = some (.commitUnit block) →
      c.processing = [] →
      Move env c e { c with
        database := block
        committedBlocks := c.committedBlocks ++ [block]
        continuation := some (.storeCommit block) }
  | storeCommit {e : Event} {block : BlockHeader} : c.continuation = some (.storeCommit block) →
      Move env c e { c with
        stateStore := block
        continuation := some (.committed block) }
  | advance {e : Event} {block : BlockHeader} (disposed : Bool) :
      c.continuation = some (.committed block) →
      Move env c e { c with
        roundStates := .empty
        blockNumber := c.blockNumber + 1
        round := 0
        step := .propose
        lockedValue := none
        validValue := none
        proposalPromise := none
        continuation := if disposed then none else some .roundStarted }
  -- Calls of the processors
  | processMessage {m : Message} : c.exclusive = false → m.blockNumber = c.blockNumber →
      Move env c (.processMessage m) { c with processing := c.processing ++ [.message m] }
  | addMessage {m : Message} {repo : Repository} : .message m ∈ c.processing →
      c.roundStates.addMessage m = some repo →
      Move env c (.messageVerified m true) { c with
        roundStates := repo
        storage := c.storage.write (.message m)
        processing := c.processing.erase (.message m) ++
          [.saving (c.storage.write (.message m)).issued] }
  | receiveProposal {p : Proposal} : c.exclusive = false → p.blockHeader.number = c.blockNumber →
      p.validatorIndex = env.proposerIndex p.blockHeader.number p.round →
      Move env c (.receiveProposal p) { c with processing := c.processing ++ [.proposal p] }
  | addProposal {p : Proposal} {repo : Repository} : .proposal p ∈ c.processing →
      c.roundStates.addProposal p = some repo →
      Move env c (.proposalVerified p true) { c with
        roundStates := repo
        storage := c.storage.write (.proposal p)
        processing := c.processing.erase (.proposal p) ++
          [.saving (c.storage.write (.proposal p)).issued] }
  | dropIncoming {e : Event} (x : Incoming) :
      Move env c e { c with processing := c.processing.erase x }
  -- Proposals
  | build {e : Event} : c.continuation = some .roundStarted → c.step = .propose →
      (c.roundStates c.current).hasProposal = false →
      env.proposerIndex c.blockNumber c.round ∈ env.registered c.blockNumber →
      Move env c e { c with
        proposalPromise := some c.nextBuild
        builds := c.builds ++ [c.build env]
        nextBuild := c.nextBuild + 1
        continuation := none }
  | forge {id : Nat} {b : Build} : c.findBuild id = some b → b.stage = .started →
      b.validValue = none →
      Move env c (.forgeBlock id) (c.setStage id (.forging (c.stateStore.number + 1)))
  | built {e : Event} {id : Nat} {b : Build} {built : Option Node.Built} : c.findBuild id = some b →
      Move env c e (c.setStage id (.resolved (built.bind (Node.propose b))))
  | wait {e : Event} {id : Nat} : c.proposalPromise = some id →
      Move env c e { c with prepares := c.prepares ++ [.waiting id] }
  | stale {e : Event} (id : Nat) :
      Move env c e { c with prepares := c.prepares.erase (.waiting id) }
  | dropProposal {e : Event} (id : Nat) : Move env c e { c with
      proposalPromise := none
      prepares := c.prepares.erase (.waiting id) }
  | saveProposal {id : Nat} {b : Build} {p : Proposal} : c.findBuild id = some b →
      b.stage = .resolved (some p) → c.proposalPromise = some id →
      Move env c (.proposalAwaited id) { c with
        proposalPromise := none
        storage := c.storage.write (.proposal p)
        prepares := c.prepares.erase (.waiting id) ++
          [.saving (c.storage.write (.proposal p)).issued p] }
  | handOver {e : Event} {ticket : Nat} {p : Proposal} : .saving ticket p ∈ c.prepares →
      ticket ≤ c.storage.flushed →
      Move env c e { c with
        prepares := c.prepares.erase (.saving ticket p)
        handedProposals := c.handedProposals ++ [p]
        ownProposals := c.ownProposals ++ [p] }
  -- The store and the process
  | flush {e : Event} {storage : Service} : c.storage.flush = some storage →
      Move env c e { c with storage := storage }
  | crash {kept : Nat} : Move env c (.crash kept) (c.crash kept)

/-- A step: a move of a running process, or the start of one that is down. -/
inductive CoreStep (env : Env) (c : Core) (e : Event) (c' : Core) : Prop
  | move : c.running = true → Move env c e c' → CoreStep env c e c'
  | restart {readable parses : Bool} {state : Bootstrapper.Restored} : c.running = false →
      e = .restart readable parses →
      Bootstrapper.bootstrap env.roundValidators (fun _ => parses) c.database
        (if readable then some c.storage.tables else none) = .ok state →
      c' = c.restored state → CoreStep env c e c'

namespace Node

variable {env : Env} {n n' : Node} {e : Event}

/-! ## The handlers that persist the state -/

theorem move_startRound {round : Nat} (free : n.continuation = none) (higher : n.round < round) :
    Move env n.toCore e (n.startRound round).toCore := by
  have positive : 0 < round := by omega
  rw [startRound, if_pos positive]
  exact .persist free (.round higher)

variable {key : RoundKey}

section

variable (free : n.continuation = none)
include free

theorem move_onProposal : Move env n.toCore e (n.onProposal key).toCore := by
  unfold onProposal
  split
  · exact .stay
  · next p held =>
      split
      · next guard =>
          obtain ⟨proposing, rfl, fresh, known⟩ := guard
          exact .persist free (.proposal proposing held fresh known)
      · exact .stay

theorem move_onProposalLocked : Move env n.toCore e (n.onProposalLocked key).toCore := by
  unfold onProposalLocked
  split
  · exact .stay
  · next p held =>
      split
      · exact .stay
      · next validRound valid =>
          split
          · next guard =>
              obtain ⟨proposing, rfl, -, -, known⟩ := guard
              exact .persist free (.proposalLocked proposing held valid known)
          · exact .stay

theorem move_onMajorityPrevote : Move env n.toCore e (n.onMajorityPrevote env key).toCore := by
  unfold onMajorityPrevote
  split
  · next guard =>
      obtain ⟨majority, -, late, rfl⟩ := guard
      split
      · exact .stay
      · exact .throw
      · exact .stay
      · next p held known =>
          split
          · next prevoting => exact .persist free (.lock prevoting majority held known)
          · next notPrevoting =>
              have precommitting : n.step = .precommit := by
                revert late notPrevoting
                cases n.step <;> simp
              have shift : Shift env n.toCore _ _ _ _ _ := .valid precommitting majority
              rw [← precommitting] at shift
              exact .persist free shift
  · exact .stay

theorem move_onMajorityPrevoteNull :
    Move env n.toCore e (n.onMajorityPrevoteNull env key).toCore := by
  unfold onMajorityPrevoteNull
  split
  · next guard => exact .persist free (.nil guard.2.1)
  · exact .stay

theorem move_onMajorityPrecommit : Move env n.toCore e (n.onMajorityPrecommit env key).toCore := by
  unfold onMajorityPrecommit
  split
  · next guard =>
      obtain ⟨majority, same, -⟩ := guard
      split
      · exact .throw
      · exact .throw
      · exact .stay
      · next block held known => exact .decide free same majority held
  · exact .stay

theorem move_onMinorityWithHigherRound :
    Move env n.toCore e (n.onMinorityWithHigherRound env key).toCore := by
  unfold onMinorityWithHigherRound
  split
  · next guard => exact move_startRound free guard.2.2
  · exact .stay

theorem move_processProposal : Move env n.toCore e (n.processProposal key).toCore := by
  unfold processProposal
  split
  · next guard => exact .deserialize free guard.2
  · exact .stay

end

theorem move_onMajorityPrecommitWithoutProposal :
    Move env n.toCore e (n.onMajorityPrecommitWithoutProposal env key).toCore := by
  unfold onMajorityPrecommitWithoutProposal
  split <;> exact .stay

theorem move_execRule (free : n.continuation = none) (rule : Rule) :
    Move env n.toCore e (n.execRule env key rule).toCore := by
  cases rule with
  | processProposal => exact move_processProposal free
  | onProposal => exact move_onProposal free
  | onProposalLocked => exact move_onProposalLocked free
  | onMajorityPrevote => exact move_onMajorityPrevote free
  | onMajorityPrevoteAny | onMajorityPrecommitAny => exact .stay
  | onMajorityPrevoteNull => exact move_onMajorityPrevoteNull free
  | onMajorityPrecommit => exact move_onMajorityPrecommit free
  | onMajorityPrecommitWithoutProposal => exact move_onMajorityPrecommitWithoutProposal
  | onMinorityWithHigherRound => exact move_onMinorityWithHigherRound free

/-! ## The running handler -/

theorem move_beginRound
    (at_ : n.continuation = some .beginRound ∨ n.continuation = some (.next .beginRound)) :
    Move env n.toCore e n.beginRound.toCore := .begin n.isDisposed at_

theorem move_applyRules : Move env n.toCore e (n.applyRules key).toCore := by
  unfold applyRules
  split <;> exact .stay

theorem move_roundStarted {pendingCommit : Bool} (at_ : n.continuation = some .roundStarted) :
    Move env n.toCore e (n.roundStarted env pendingCommit).toCore := by
  unfold roundStarted
  split
  · next guard => exact .build at_ guard.1 guard.2.2.1 guard.2.2.2
  · exact .leave

theorem move_exec (free : n.continuation = none) (statement : Statement) :
    Move env n.toCore e (n.exec env statement).toCore := by
  cases statement with
  | rule rule key => exact move_execRule free rule
  | applyCurrent =>
    simp only [exec]
    split
    · exact .stay
    · exact move_applyRules
  | unlockCommit => exact .unlockCommit free
  | boot => exact .stay

variable {reply : Reply} {id : Nat} {valid : Bool}

theorem move_execNext {next : Next} (at_ : n.continuation = some (.next next)) :
    Move env n.toCore e (n.execNext env reply next).toCore := by
  cases next with
  | beginRound => exact move_beginRound (.inr at_)
  | prevoteProposal key => exact .cast at_ (.proposal key reply.now)
  | prevoteLocked key => exact .cast at_ (.proposalLocked key)
  | prevote value => exact .cast at_ (.prevote value)
  | precommit value => exact .cast at_ (.precommit value)
  | done => exact .leave

theorem move_resume {k : Continuation} (at_ : n.continuation = some k)
    (h : n.resume env reply k = some n') : Move env n.toCore (.resume reply) n'.toCore := by
  cases k with
  | persisted ticket next =>
    obtain ⟨durable, rfl⟩ := of_ite_eq_some h
    exact .persisted at_ durable
  | next next =>
    cases h
    exact move_execNext at_
  | votes type value indices =>
    cases indices with
    | nil =>
      cases h
      exact .leave
    | cons i indices =>
      cases h
      exact .sign at_
  | signed m indices =>
    cases h
    exact .saveVote at_
  | saved ticket m indices =>
    obtain ⟨durable, rfl⟩ := of_ite_eq_some h
    exact .voteSaved at_ durable
  | beginRound =>
    cases h
    exact move_beginRound (.inl at_)
  | roundStarted =>
    cases h
    exact move_roundStarted at_
  | deserialize key =>
    simp only [resume] at h
    split at h
    · cases h
      exact .failed (.inl at_)
    · cases h
      exact .deserialized at_
  | verifyLockProof key =>
    simp only [resume] at h
    split at h
    · cases h
      exact .failed (.inr at_)
    · next p held =>
        split at h
        · next verified =>
            cases h
            rw [Bool.and_eq_true] at verified
            exact .lockProofVerified at_ held verified.2
        · cases h
          exact .failed (.inr at_)
  | process key =>
    cases h
    exact .processed at_
  | processBlock commit =>
    simp only [resume] at h
    split at h
    · cases h
      exact .decideCommit at_
    · cases h
      exact .leave
  | lockCommit block =>
    obtain ⟨-, rfl⟩ := of_ite_none_eq_some h
    exact .lockCommit at_
  | commitUnit block =>
    obtain ⟨drained, h⟩ := ite_none_right_eq_some.mp h
    split at h
    · cases h
      exact .throw
    · cases h
      exact .commitUnit at_ drained
  | storeCommit block =>
    simp only [resume] at h
    split at h
    · cases h
      exact .throw
    · cases h
      exact .storeCommit at_
  | committed block =>
    simp only [resume] at h
    split at h
    · cases h
      exact .throw
    · cases h
      exact .advance n.isDisposed at_

theorem move_goOn (h : n.goOn env reply = some n') :
    Move env n.toCore (.resume reply) n'.toCore := by
  unfold goOn at h
  split at h
  · next k at_ => exact move_resume at_ h
  · next free =>
      split at h
      · contradiction
      · next statement todo _ =>
          cases h
          exact @move_exec env { n with todo := todo } _ free statement

/-! ## Calls from outside -/

theorem continuation_of_idle (h : n.idle = true) : n.continuation = none := by
  simp only [idle, Bool.and_eq_true, isNone_iff_eq_none] at h
  exact h.1

theorem move_forgeBlock (h : n.forgeBlock id = some n') :
    Move env n.toCore (.forgeBlock id) n'.toCore := by
  unfold forgeBlock at h
  split at h
  · contradiction
  · next b found =>
      obtain ⟨⟨started, fresh⟩, rfl⟩ := of_ite_eq_some h
      exact .forge found started fresh

theorem move_proposalBuilt {built : Option Built}
    (h : n.proposalBuilt id built = some n') : Move env n.toCore e n'.toCore := by
  unfold proposalBuilt at h
  split at h
  · contradiction
  · next b found =>
      split at h
      · contradiction
      · cases h
        exact .built found

theorem move_proposalAwaited (h : n.proposalAwaited id = some n') :
    Move env n.toCore (.proposalAwaited id) n'.toCore := by
  obtain ⟨-, h⟩ := ite_none_right_eq_some.mp h
  split at h
  · next found =>
      split at h
      · cases h
        exact .stale id
      · next live =>
          simp only [not_or, not_not] at live
          split at h
          · cases h
            exact .dropProposal id
          · cases h
            exact .saveProposal found rfl live.2
  · contradiction

theorem move_messageVerified {m : Message} (h : n.messageVerified m valid = some n') :
    Move env n.toCore (.messageVerified m valid) n'.toCore := by
  obtain ⟨member, h⟩ := ite_none_right_eq_some.mp h
  split at h
  · cases h
    exact .dropIncoming _
  · next repo added =>
      cases h
      cases valid with
      | false => contradiction
      | true => exact .addMessage member added

theorem move_proposalVerified {p : Proposal} (h : n.proposalVerified p valid = some n') :
    Move env n.toCore (.proposalVerified p valid) n'.toCore := by
  obtain ⟨member, h⟩ := ite_none_right_eq_some.mp h
  split at h
  · cases h
    exact .dropIncoming _
  · next repo added =>
      cases h
      cases valid with
      | false => contradiction
      | true => exact .addProposal member added

theorem of_accepts {own : Bool} (h : n.accepts own key = true) :
    n.exclusive = false ∧ key.blockNumber = n.blockNumber := by
  simp only [accepts, Bool.and_eq_true, Bool.not_eq_true', decide_eq_true_eq] at h
  exact ⟨h.1.1.1.2, h.1.2⟩

theorem move_stepRunning (h : n.stepRunning env e = some n') : Move env n.toCore e n'.toCore := by
  cases e with
  | resume reply => exact move_goOn h
  | abort =>
    obtain ⟨-, rfl⟩ := of_ite_none_eq_some h
    exact .throw
  | handle key =>
    obtain ⟨-, rfl⟩ := of_ite_eq_some h
    exact move_applyRules
  | handleCommitState commit =>
    obtain ⟨⟨idle, -, same⟩, rfl⟩ := of_ite_eq_some h
    exact .processBlock (continuation_of_idle idle) same
  | onTimeoutPropose blockNumber round =>
    obtain ⟨⟨idle, -, proposing, -⟩, rfl⟩ := of_ite_eq_some h
    exact .persist (continuation_of_idle idle) (.proposeTimeout proposing)
  | onTimeoutPrevote blockNumber round =>
    obtain ⟨⟨idle, -, prevoting, -⟩, rfl⟩ := of_ite_eq_some h
    exact .persist (continuation_of_idle idle) (.nil prevoting)
  | onTimeoutPrecommit blockNumber round =>
    obtain ⟨⟨idle, -, -⟩, rfl⟩ := of_ite_eq_some h
    exact move_startRound (continuation_of_idle idle) (Nat.lt_succ_self _)
  | onTimeoutBlockPrepare =>
    simp only [stepRunning, onTimeoutBlockPrepare, map_eq_some_iff] at h
    obtain ⟨id, pending, rfl⟩ := h
    exact .wait pending
  | forgeBlock id => exact move_forgeBlock h
  | proposalBuilt id built => exact move_proposalBuilt h
  | proposalAwaited id => exact move_proposalAwaited h
  | proposalSaved ticket p =>
    obtain ⟨⟨member, durable⟩, rfl⟩ := of_ite_eq_some h
    exact .handOver member durable
  | processMessage m =>
    obtain ⟨⟨accepted, -⟩, rfl⟩ := of_ite_eq_some h
    exact .processMessage (of_accepts accepted).1 (of_accepts accepted).2
  | messageVerified m valid => exact move_messageVerified h
  | receiveProposal p =>
    obtain ⟨⟨accepted, proposer, -⟩, rfl⟩ := of_ite_eq_some h
    exact .receiveProposal (of_accepts accepted).1 (of_accepts accepted).2 proposer
  | proposalVerified p valid => exact move_proposalVerified h
  | incomingSaved ticket =>
    obtain ⟨-, rfl⟩ := of_ite_eq_some h
    exact .dropIncoming _
  | flush =>
    simp only [stepRunning, map_eq_some_iff] at h
    obtain ⟨storage, flushed, rfl⟩ := h
    exact .flush flushed
  | dispose =>
    cases h
    exact .stay
  | crash kept =>
    cases h
    exact .crash
  | restart readable parses => contradiction

/-- Every step of the node is a step of its core. -/
theorem transition_step (h : n.transition env e = some n') : CoreStep env n.toCore e n'.toCore := by
  unfold transition at h
  split at h
  · next up => exact .move up (move_stepRunning h)
  · next down =>
      split at h
      · next readable parses =>
          unfold restart at h
          split at h
          · contradiction
          · next state booted =>
              cases h
              exact .restart (by simpa using down) rfl booted rfl
      · contradiction

end Node

end Mainsail
