import Mainsail.Consensus.Locks

/-!
# Headers

Every request and every reply carries a header of its sender: the position of its consensus, and which
validators have voted in its round. The downloaders decide from the header that they last got
from a peer. By the time a request is written both nodes may have gone on; the progress of a node is
a run of its state machine in which the process does not end.

The votes of a round are listed by the indices of the round validators.
-/

namespace Mainsail

open Node List

/-- Within a block number the round states only grow. -/
theorem Move.grows {env : Env} {c c' : Core} {e : Event} (move : Move env c e c')
    (survives : e.Survives) (same : c'.blockNumber = c.blockNumber) :
    c.roundStates.Grows c'.roundStates := by
  cases move with
  | deserialized => exact Repository.grows_set (RoundState.grows_deserializePayload _)
  | failed | processed => exact Repository.grows_set (RoundState.grows_setProcessorResult _ _)
  | addMessage _ added => exact Repository.grows_of_addMessage added
  | addProposal _ added => exact Repository.grows_of_addProposal added
  | advance => exact absurd same (Nat.succ_ne_self _)
  | crash => contradiction
  | _ => exact Repository.Grows.refl _

namespace P2P

/-- The second state is one of the same process, at the same time or later. -/
abbrev Later (env : Env) : Node → Node → Prop :=
  Transition.Reach (transition env) fun _ e => e.Survives

section Progress

variable {env : Env} {n n' : Node}

theorem Later.round_le (later : Later env n n') (up : n.running = true)
    (same : n'.blockNumber = n.blockNumber) : n.round ≤ n'.round := by
  have := Position.le_def.mp (position_le_of_survives later up).2
  simp only [Core.position] at this
  omega

theorem Later.blockNumber_pos (later : Later env n n')
    (up : n.running = true ∧ 1 ≤ n.blockNumber) : n'.running = true ∧ 1 ≤ n'.blockNumber := by
  obtain ⟨up', forward⟩ := position_le_of_survives later up.1
  have := Position.le_def.mp forward
  simp only [Core.position] at this
  exact ⟨up', by omega⟩

theorem Later.grows (later : Later env n n') (up : n.running = true)
    (same : n'.blockNumber = n.blockNumber) : n.roundStates.Grows n'.roundStates := by
  suffices n'.running = true ∧ n.blockNumber ≤ n'.blockNumber ∧
      (n'.blockNumber = n.blockNumber → n.roundStates.Grows n'.roundStates) from this.2.2 same
  refine later.invariant (P := fun x => x.running = true ∧ n.blockNumber ≤ x.blockNumber ∧
    (x.blockNumber = n.blockNumber → n.roundStates.Grows x.roundStates))
    ⟨up, Nat.le_refl _, fun _ => .refl _⟩ ?_
  rintro x e x' ⟨running, le, grows⟩ survives taken
  cases transition_step taken with
  | restart off => simp [running] at off
  | move _ move =>
    obtain ⟨running', forward⟩ := move.forward running survives
    have le' : x.blockNumber ≤ x'.blockNumber := by
      have := Position.le_def.mp forward
      simp only [Core.position] at this
      omega
    refine ⟨running', Nat.le_trans le le', fun back => ?_⟩
    -- The block number is back at the first one only if it never left it.
    have still : x'.blockNumber = x.blockNumber := by omega
    exact (grows (by omega)).trans (move.grows survives still)

end Progress

/-- `HeaderData`, without the step and the version. -/
structure HeaderData where
  blockNumber : Nat
  round : Nat
  proposedBlockHash : Option Bytes
  validatorsSignedPrevote : List Bool
  validatorsSignedPrecommit : List Bool
  deriving DecidableEq, Repr

/-- Which of the validators have voted. -/
def signed {type : MessageType} {key : RoundKey} (roundValidators : Nat) (votes : Votes type key) :
    List Bool :=
  (range roundValidators).map votes.has

section Signed

variable {type : MessageType} {key : RoundKey} {roundValidators i : Nat} {votes : Votes type key}

@[simp] theorem length_signed : (signed roundValidators votes).length = roundValidators := by
  simp [signed]

theorem getD_signed :
    (signed roundValidators votes).getD i false = (decide (i < roundValidators) && votes.has i) := by
  rw [getD_eq_getElem?_getD, signed, getElem?_map]
  by_cases bound : i < roundValidators
  · simp [bound]
  · rw [getElem?_eq_none (by simpa using bound)]
    simp [bound]

end Signed

/-- `Header.toData`: the header that a node makes at this moment. -/
def header (env : Env) (n : Node) : HeaderData where
  blockNumber := n.blockNumber
  round := n.round
  proposedBlockHash := (n.roundStates n.current).proposal.map (·.blockHeader.hash)
  validatorsSignedPrevote :=
    signed (env.roundValidators n.blockNumber) (n.roundStates n.current).prevotes
  validatorsSignedPrecommit :=
    signed (env.roundValidators n.blockNumber) (n.roundStates n.current).precommits

@[simp] theorem header_blockNumber (env : Env) (n : Node) :
    (header env n).blockNumber = n.blockNumber := rfl

@[simp] theorem header_round (env : Env) (n : Node) : (header env n).round = n.round := rfl

/-- The number of round validators of the milestone that the configuration is at: the one after the
last block of the state store. -/
def currentRoundValidators (env : Env) (n : Node) : Nat := env.roundValidators (n.stateStore.number + 1)

/-- `limitToRoundValidators` on a list of a reply. The schemas do not name a block number, so the
keyword takes the milestone of the node that checks. -/
def limitToRoundValidators (env : Env) (n : Node) (minimum : Option Nat) (length : Nat) : Bool :=
  minimum.getD (currentRoundValidators env n) ≤ length && length ≤ currentRoundValidators env n

/-- The schema `headers`. The round is not negative and the step is one of three by their types. -/
def validHeader (env : Env) (n : Node) (reply : HeaderData) : Bool :=
  1 ≤ reply.blockNumber &&
    limitToRoundValidators env n none reply.validatorsSignedPrecommit.length &&
    limitToRoundValidators env n none reply.validatorsSignedPrevote.length

theorem validHeader_header {env peerEnv : Env} {n peer : Node}
    (shared : peerEnv.roundValidators = env.roundValidators) (pos : 1 ≤ peer.blockNumber) :
    validHeader env n (header peerEnv peer) = true ↔
      env.roundValidators peer.blockNumber = currentRoundValidators env n := by
  simp only [validHeader, limitToRoundValidators, header, shared, length_signed, Option.getD_none,
    Bool.and_eq_true, decide_eq_true_eq]
  exact ⟨fun h => h.2.2.antisymm h.2.1, fun h => ⟨⟨pos, h.ge, h.le⟩, h.ge, h.le⟩⟩

/-- `ProcessorResult`. -/
inductive ProcessorResult
  | accepted
  | skipped
  | invalid
  deriving DecidableEq, Repr

/-- What the checks of the processors read besides the state of the node. -/
structure Intake where
  /-- The signature of a proposal, under the key of its validator. -/
  verifiesProposal : Proposal → Bool
  /-- The signature of a vote, under the key of its validator and the block before its block number. -/
  verifiesMessage : Message → Bool
  /-- `calculateMinimalTimestamp` after the last block, for a round. -/
  minimalTimestamp : BlockHeader → Nat → Nat

/-- `hasValidBlockNumberAndRound`. -/
def hasValidBlockNumberAndRound (n : Node) (key : RoundKey) : Bool :=
  key.blockNumber = n.blockNumber && n.round ≤ key.round

/-- `isRoundAheadOfTime`. -/
def isRoundAheadOfTime (env : Env) (intake : Intake) (n : Node) (round now : Nat) : Bool :=
  n.round < round && now + env.tolerance ≤ intake.minimalTimestamp n.stateStore round

/-! ## Exchanges -/

/-- The states of the two nodes of an exchange: of the one that asks when it chooses the peer, writes the
request and checks the reply; of the peer when it made the header it is chosen by, when it answers, and
when it makes the header of its answer. -/
structure Exchange (env peerEnv : Env) where
  chosen : Node
  written : Node
  received : Node
  known : Node
  answering : Node
  replying : Node
  up : chosen.running = true
  peerUp : known.running = true
  known_blockNumber : 1 ≤ known.blockNumber
  chosen_written : Later env chosen written
  written_received : Later env written received
  known_answering : Later peerEnv known answering
  answering_replying : Later peerEnv answering replying

theorem Exchange.validHeader_iff {env peerEnv : Env} (x : Exchange env peerEnv)
    (shared : peerEnv.roundValidators = env.roundValidators) :
    validHeader env x.received (header peerEnv x.replying) = true ↔
      env.roundValidators x.replying.blockNumber = currentRoundValidators env x.received :=
  validHeader_header shared (x.answering_replying.blockNumber_pos
    (x.known_answering.blockNumber_pos ⟨x.peerUp, x.known_blockNumber⟩)).2

/-! ## A network of four validators -/

namespace Quartet

/-- Four validators that propose in turn, none of them on the node. -/
def env : Env where
  roundValidators := fun _ => 4
  registered := fun _ => []
  proposerIndex := fun _ round => round % 4
  tolerance := 0
  sign := fun _ _ => []

/-- Every signature verifies, and no round is ahead of time. -/
def intake : Intake := ⟨fun _ => true, fun _ => true, fun _ _ => 0⟩

def after (n : Node) (events : List Event) : Node :=
  (Transition.run (transition env) n events).getD n

theorem later_after {n : Node} {events : List Event} (survive : ∀ e ∈ events, e.Survives)
    (runs : (Transition.run (transition env) n events).isSome = true) :
    Later env n (after n events) := by
  obtain ⟨n', ran⟩ := Option.isSome_iff_exists.mp runs
  have same : after n events = n' := by simp [after, ran]
  rw [same]
  exact Transition.Reach.of_run ran (.of_forall fun _ e member => survive e member)

/-- A node that has started, in round 0 of the first block. -/
def started : Node := after (start genesisHeader)
  (.restart true true :: replicate 14 succeeds)

theorem running_started : started.running = true := by decide +kernel

theorem later_started : Later env started started := .refl

end Quartet

end P2P

end Mainsail
