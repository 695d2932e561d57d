import Mathlib.Data.Finset.Card

/-!
# Two-thirds quorums

A quorum holds strictly more than two thirds of the voters. With fewer than one third of
them faulty, any two quorums share a voter that is not faulty.
-/

namespace Quorum

open Finset

/-- Strictly more than two thirds. -/
def TwoThirds (size total : Nat) : Prop := total * 2 < size * 3

instance (size total : Nat) : Decidable (TwoThirds size total) :=
  inferInstanceAs (Decidable (_ < _))

theorem TwoThirds.mono {size size' total : Nat} (h : TwoThirds size total)
    (le : size ≤ size') : TwoThirds size' total := by
  unfold TwoThirds at *
  omega

variable {V : Type*} [DecidableEq V]

/-- Quorum intersection: inclusion and exclusion leave more than a third of the voters in
both quorums, and the faulty ones are fewer than that. -/
theorem exists_honest_mem_inter {voters first second faulty : Finset V} (hfirst : first ⊆ voters)
    (hsecond : second ⊆ voters) (enough : TwoThirds first.card voters.card)
    (enough' : TwoThirds second.card voters.card) (few : faulty.card * 3 < voters.card) :
    ∃ v, v ∈ first ∧ v ∈ second ∧ v ∉ faulty := by
  have union : (first ∪ second).card ≤ voters.card :=
    card_le_card (union_subset hfirst hsecond)
  have split := card_union_add_card_inter first second
  have more : faulty.card < (first ∩ second).card := by
    unfold TwoThirds at enough enough'
    omega
  obtain ⟨v, both, honest⟩ := exists_mem_notMem_of_card_lt_card more
  exact ⟨v, (mem_inter.mp both).1, (mem_inter.mp both).2, honest⟩

end Quorum
