import Mainsail.Foundation.Quorum

/-!
# The locking argument

One instance of two-phase voting: in each round a voter may prevote a value and may
precommit one, and a value is decided in a round when a quorum precommitted it there.
The rules below say nothing about messages, clocks or states. They only relate the votes
that voters have cast:

* a voter prevotes one value in a round;
* a precommit rests on a quorum of prevotes of the same round;
* a voter that precommitted is locked: when it prevotes in a later round, it names a
  locked round in between that is itself backed by a quorum, and prevotes either the
  locked value or a value that a quorum prevoted since that round.

These are enough for agreement. The induction is on the round of the later quorum: the
voter that two quorums share carries the earlier decision into the later round.
-/

namespace Locking

open Quorum

variable {V α : Type*}

/-- A quorum of the voters, all of which cast this vote or are faulty. -/
def Backed (voters faulty : Finset V) (cast : V → Nat → α → Prop) (round : Nat)
    (value : α) : Prop :=
  ∃ quorum ⊆ voters, TwoThirds quorum.card voters.card ∧
    ∀ v ∈ quorum, v ∈ faulty ∨ cast v round value

/-- The voting rules of the voters that are not faulty. -/
structure Disciplined (voters faulty : Finset V)
    (prevoted precommitted : V → Nat → α → Prop) : Prop where
  prevote_unique : ∀ v ∉ faulty, ∀ r x y, prevoted v r x → prevoted v r y → x = y
  precommit_backed : ∀ v ∉ faulty, ∀ r x, precommitted v r x → Backed voters faulty prevoted r x
  prevote_locked : ∀ v ∉ faulty, ∀ r x r' y, precommitted v r x → prevoted v r' y → r < r' →
    ∃ locked z, r ≤ locked ∧ locked < r' ∧ Backed voters faulty prevoted locked z ∧
      (y = z ∨ ∃ proof, locked ≤ proof ∧ proof < r' ∧ Backed voters faulty prevoted proof y)

variable {voters faulty : Finset V} {prevoted precommitted : V → Nat → α → Prop}

variable {cast cast' : V → Nat → α → Prop} {r r' : Nat} {x y : α}

theorem Backed.mono (h : Backed voters faulty cast r x) (imp : ∀ v r x, cast v r x → cast' v r x) :
    Backed voters faulty cast' r x := by
  obtain ⟨quorum, sub, enough, votes⟩ := h
  refine ⟨quorum, sub, enough, ?_⟩
  intro v member
  exact (votes v member).imp_right (imp v r x)

variable [DecidableEq V]

/-- Two quorums share a voter that is not faulty and cast both votes. -/
theorem Backed.exists_honest (h : Backed voters faulty cast r x)
    (h' : Backed voters faulty cast' r' y) (few : faulty.card * 3 < voters.card) :
    ∃ v ∉ faulty, cast v r x ∧ cast' v r' y := by
  obtain ⟨first, hfirst, enough, votes⟩ := h
  obtain ⟨second, hsecond, enough', votes'⟩ := h'
  obtain ⟨v, inFirst, inSecond, honest⟩ :=
    exists_honest_mem_inter hfirst hsecond enough enough' few
  exact ⟨v, honest, (votes v inFirst).resolve_left honest, (votes' v inSecond).resolve_left honest⟩

namespace Disciplined

variable (rules : Disciplined voters faulty prevoted precommitted)
include rules

variable (few : faulty.card * 3 < voters.card)
include few

/-- Two prevote quorums of one round name the same value. -/
theorem prevote_backed_unique (hx : Backed voters faulty prevoted r x)
    (hy : Backed voters faulty prevoted r y) : x = y := by
  obtain ⟨v, honest, votedX, votedY⟩ := hx.exists_honest hy few
  exact rules.prevote_unique v honest r x y votedX votedY

/-- After a decision, no later round gathers a prevote quorum for another value. -/
theorem prevote_backed_of_decided (decided : Backed voters faulty precommitted r x) :
    ∀ r' y, r ≤ r' → Backed voters faulty prevoted r' y → x = y := by
  intro r'
  induction r' using Nat.strong_induction_on with
  | _ r' ih =>
    intro y le backed
    obtain ⟨v, honest, precommits, prevotes⟩ := decided.exists_honest backed few
    have base := rules.precommit_backed v honest r x precommits
    rcases Nat.eq_or_lt_of_le le with rfl | lt
    · exact rules.prevote_backed_unique few base backed
    · obtain ⟨locked, z, after, before, lockBacked, reason⟩ :=
        rules.prevote_locked v honest r x r' y precommits prevotes lt
      rcases reason with rfl | ⟨proof, afterLock, beforeVote, proofBacked⟩
      · exact ih locked before y after lockBacked
      · exact ih proof beforeVote y (Nat.le_trans after afterLock) proofBacked

/-- Agreement: every two decisions, of whatever rounds, name the same value. -/
theorem agreement (hx : Backed voters faulty precommitted r x)
    (hy : Backed voters faulty precommitted r' y) : x = y := by
  have prevotesOf : ∀ {r x}, Backed voters faulty precommitted r x →
      Backed voters faulty prevoted r x := by
    intro r x decided
    obtain ⟨v, honest, precommits, -⟩ := decided.exists_honest decided few
    exact rules.precommit_backed v honest r x precommits
  rcases Nat.le_total r r' with le | le
  · exact rules.prevote_backed_of_decided few hx r' y le (prevotesOf hy)
  · exact (rules.prevote_backed_of_decided few hy r x le (prevotesOf hx)).symm

end Disciplined

end Locking
