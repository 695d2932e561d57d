import Mainsail.Consensus.Data

/-!
# Aggregated signatures

`aggregator.ts` and the two checks that rest on it: the lock proof of a re-proposal and the
proof of a commit. The signature scheme is outside: `combine` aggregates signatures, and
`check` says whether an aggregated signature verifies under the public keys of the given
validator indices. The bytes that were signed are fixed by the caller and are part of `check`.
-/

namespace Mainsail

open List

/-- The validator indices flagged in the bitmap. -/
def AggregatedSignature.signers (signature : AggregatedSignature) : List Nat :=
  (range signature.validators.length).filter fun i => signature.validators.getD i false

namespace Aggregator

inductive AggregateError
  | majorityNotReached
  | indexOutOfRange (validatorIndex : Nat)
  deriving DecidableEq, Repr

/-- `aggregate`: signatures by validator index, in the order of the map. -/
def aggregate (combine : List Bytes → Bytes) (signatures : List (Nat × Bytes))
    (roundValidators : Nat) : Except AggregateError AggregatedSignature :=
  if isMajority signatures.length roundValidators then
    match signatures.find? fun s => roundValidators ≤ s.1 with
    | some s => .error (.indexOutOfRange s.1)
    | none => .ok {
        signature := combine (signatures.map (·.2))
        validators := (range roundValidators).map fun i => signatures.any fun s => s.1 == i }
  else .error .majorityNotReached

/-- `verify`. -/
def verify (check : List Nat → Bytes → Bool) (signature : AggregatedSignature)
    (roundValidators : Nat) : Bool :=
  if signature.validators.length ≠ roundValidators then false
  else if !isMajority signature.signers.length roundValidators then false
  else check signature.signers signature.signature

variable {check : List Nat → Bytes → Bool} {signature : AggregatedSignature} {n : Nat}

theorem verify_eq_true : verify check signature n = true ↔
      signature.validators.length = n ∧ isMajority signature.signers.length n = true ∧
        check signature.signers signature.signature = true := by
  unfold verify
  split <;> simp_all

end Aggregator

/-- `ProposalProcessor.hasValidLockProof`. -/
def hasValidLockProof (check : List Nat → Bytes → Bool) (roundValidators : Nat)
    (p : Proposal) : Bool :=
  match p.validRound, p.lockProof with
  | none, none => true
  | _, none => false
  | none, _ => false
  | some validRound, some lockProof =>
    if p.round ≤ validRound then false
    else Aggregator.verify check lockProof roundValidators

/-- `CommitProcessor.hasValidSignature`. -/
def hasValidSignature (check : List Nat → Bytes → Bool) (roundValidators : Nat)
    (commit : Commit) : Bool :=
  Aggregator.verify check commit.proof.toAggregatedSignature roundValidators

namespace AggregatedSignature

theorem signers_nodup (signature : AggregatedSignature) : signature.signers.Nodup :=
  nodup_range.filter _

variable {i : Nat}

theorem mem_signers {signature : AggregatedSignature} :
    i ∈ signature.signers ↔ signature.validators[i]? = some true := by
  simp only [signers, mem_filter, mem_range, getD_eq_getElem?_getD]
  constructor
  · rintro ⟨lt, flagged⟩
    simpa [getElem?_eq_getElem lt] using flagged
  · intro flagged
    obtain ⟨lt, -⟩ := List.getElem?_eq_some_iff.mp flagged
    exact ⟨lt, by simp [flagged]⟩

theorem lt_of_mem_signers {signature : AggregatedSignature}
    (h : i ∈ signature.signers) : i < signature.validators.length := by
  obtain ⟨lt, -⟩ := List.getElem?_eq_some_iff.mp (mem_signers.mp h)
  exact lt

end AggregatedSignature

namespace Aggregator

variable {signatures : List (Nat × Bytes)}

variable {combine : List Bytes → Bytes}

variable {proof : AggregatedSignature}

theorem aggregate_eq_ok {n : Nat} : aggregate combine signatures n = .ok proof ↔
      isMajority signatures.length n = true ∧ (∀ s ∈ signatures, s.1 < n) ∧
        proof = ⟨combine (signatures.map (·.2)),
          (range n).map fun i => signatures.any fun s => s.1 == i⟩ := by
  unfold aggregate
  split
  · next majority =>
      split
      · next s found =>
          have member := mem_of_find?_eq_some found
          have beyond := find?_some found
          simp only [decide_eq_true_eq] at beyond
          simp only [majority, reduceCtorEq, true_and, false_iff, not_and]
          intro below
          exact absurd (below s member) (Nat.not_lt.mpr beyond)
      · next none =>
          have below : ∀ s ∈ signatures, s.1 < n := by simpa using none
          simp only [majority, Except.ok.injEq, true_and, eq_comm (b := proof)]
          exact (and_iff_right below).symm
  · next minority => simp [minority]

/-- The flags of an aggregated signature are those of its signatures. -/
theorem signers_perm {n : Nat} (h : aggregate combine signatures n = .ok proof)
    (nodup : (signatures.map (·.1)).Nodup) : proof.signers.Perm (signatures.map (·.1)) := by
  obtain ⟨-, below, rfl⟩ := aggregate_eq_ok.mp h
  refine (perm_ext_iff_of_nodup (AggregatedSignature.signers_nodup _) nodup).mpr fun i => ?_
  rw [AggregatedSignature.mem_signers, getElem?_map, mem_map]
  constructor
  · intro flagged
    obtain ⟨j, found, signed⟩ := Option.map_eq_some_iff.mp flagged
    obtain ⟨below', same⟩ := List.getElem?_eq_some_iff.mp found
    rw [getElem_range] at same
    subst same
    simpa using signed
  · rintro ⟨s, member, rfl⟩
    rw [getElem?_range (below s member)]
    simp only [Option.map_some, Option.some.injEq, any_eq_true, beq_iff_eq]
    exact ⟨s, member, rfl⟩

/-- An aggregated signature passes its check, if the signature itself does. -/
theorem verify_of_aggregate {n : Nat} {check : List Nat → Bytes → Bool}
    (h : aggregate combine signatures n = .ok proof) (nodup : (signatures.map (·.1)).Nodup)
    (checked : check proof.signers proof.signature = true) : verify check proof n = true := by
  have length := (signers_perm h nodup).length_eq
  obtain ⟨majority, -, rfl⟩ := aggregate_eq_ok.mp h
  refine verify_eq_true.mpr ⟨by simp, ?_, checked⟩
  rwa [length, length_map]

end Aggregator

end Mainsail
