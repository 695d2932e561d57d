import Mainsail.Foundation.Quorum
import Mainsail.Serializer.ByteBuffer

/-!
# Consensus data

The messages, proposals and stored state that the consensus handlers exchange. Hashes,
keys and signatures are hex strings in the source; here they are the bytes they stand for.
Block numbers and rounds are natural numbers.

A proposal carries what `makeProposalFromBytes` checks before it lets one into the program:
a lock proof comes with a valid round and only with one, and the valid round is lower
than the round. Its payload is left out, apart from the block header it starts with.
-/

namespace Mainsail

/-- `Enums.Consensus.Step`. -/
inductive Step
  | propose
  | prevote
  | precommit
  deriving DecidableEq, Repr

/-- The numeric value of the enumeration, by which the handlers compare steps. -/
def Step.toNat : Step → Nat
  | .propose => 0
  | .prevote => 1
  | .precommit => 2

@[simp] theorem Step.toNat_propose : Step.propose.toNat = 0 := rfl
@[simp] theorem Step.toNat_prevote : Step.prevote.toNat = 1 := rfl
@[simp] theorem Step.toNat_precommit : Step.precommit.toNat = 2 := rfl

/-- `Enums.Crypto.MessageType`. -/
inductive MessageType
  | prevote
  | precommit
  deriving DecidableEq, Repr

/-- The step in which a node casts votes of this type. -/
def MessageType.step : MessageType → Step
  | .prevote => .prevote
  | .precommit => .precommit

@[simp] theorem MessageType.step_prevote : MessageType.prevote.step = .prevote := rfl
@[simp] theorem MessageType.step_precommit : MessageType.precommit.step = .precommit := rfl

/-- Where in the run of the protocol a round state, a vote or a proposal belongs. -/
structure RoundKey where
  blockNumber : Nat
  round : Nat
  deriving DecidableEq, Repr

structure Message where
  type : MessageType
  blockNumber : Nat
  round : Nat
  blockHash : Option Bytes
  validatorIndex : Nat
  signature : Bytes
  deriving DecidableEq, Repr

def Message.roundKey (m : Message) : RoundKey := ⟨m.blockNumber, m.round⟩

structure AggregatedSignature where
  signature : Bytes
  validators : List Bool
  deriving DecidableEq, Repr

structure BlockHeader where
  number : Nat
  hash : Bytes
  timestamp : Nat
  deriving DecidableEq, Repr

structure Proposal where
  blockHeader : BlockHeader
  round : Nat
  validRound : Option Nat
  lockProof : Option AggregatedSignature
  validatorIndex : Nat
  signature : Bytes
  paired : validRound.isSome = lockProof.isSome
  validRound_lt : ∀ v, validRound = some v → v < round
  deriving DecidableEq

/-- The proposal of a new block, which names no valid round. -/
def Proposal.fresh (blockHeader : BlockHeader) (round validatorIndex : Nat) (signature : Bytes) :
    Proposal where
  blockHeader := blockHeader
  round := round
  validRound := none
  lockProof := none
  validatorIndex := validatorIndex
  signature := signature
  paired := rfl
  validRound_lt := by simp

def Proposal.roundKey (p : Proposal) : RoundKey := ⟨p.blockHeader.number, p.round⟩

/-- The factory admits no re-proposal in round 0: there is no lower round to name. -/
theorem Proposal.validRound_of_round_zero (p : Proposal) (h : p.round = 0) :
    p.validRound = none := by
  cases hv : p.validRound with
  | none => rfl
  | some v =>
    have := p.validRound_lt v hv
    omega

structure CommitProof extends AggregatedSignature where
  round : Nat
  deriving DecidableEq, Repr

/-- A block with the aggregated precommits that decided it. -/
structure Commit where
  block : BlockHeader
  proof : CommitProof
  deriving DecidableEq, Repr

/-- `Contracts.Consensus.StateData`: the position and the locks, as stored. -/
structure StateData where
  blockNumber : Nat
  round : Nat
  step : Step
  lockedRound : Option Nat
  validRound : Option Nat
  deriving DecidableEq, Repr

/-- `isMajority` of `blockchain-utils`. -/
def isMajority (size roundValidators : Nat) : Bool := size * 3 > roundValidators * 2

/-- `isMinority` of `blockchain-utils`. -/
def isMinority (size roundValidators : Nat) : Bool := size * 3 > roundValidators

theorem isMajority_iff {size total : Nat} :
    isMajority size total = true ↔ Quorum.TwoThirds size total := by
  simp [isMajority, Quorum.TwoThirds]

/-- Block number, round and step, in the order in which a node moves through them. -/
structure Position where
  blockNumber : Nat
  round : Nat
  step : Step
  deriving DecidableEq, Repr

namespace Position

/-- The lexicographic order. -/
def le (p q : Position) : Prop :=
  p.blockNumber < q.blockNumber ∨ p.blockNumber = q.blockNumber ∧
    (p.round < q.round ∨ p.round = q.round ∧ p.step.toNat ≤ q.step.toNat)

instance : LE Position := ⟨le⟩

theorem le_def {p q : Position} : p ≤ q ↔
    p.blockNumber < q.blockNumber ∨ p.blockNumber = q.blockNumber ∧
      (p.round < q.round ∨ p.round = q.round ∧ p.step.toNat ≤ q.step.toNat) := Iff.rfl

instance (p q : Position) : Decidable (p ≤ q) := decidable_of_iff _ le_def.symm

theorem le_refl (p : Position) : p ≤ p :=
  .inr ⟨rfl, .inr ⟨rfl, Nat.le_refl _⟩⟩

theorem le_trans {p q r : Position} (hpq : p ≤ q) (hqr : q ≤ r) : p ≤ r := by
  simp only [le_def] at *
  omega

end Position

def Message.position (m : Message) : Position := ⟨m.blockNumber, m.round, m.type.step⟩

def StateData.position (s : StateData) : Position := ⟨s.blockNumber, s.round, s.step⟩

end Mainsail
