import Mainsail.Foundation.IndexedArray
import Mainsail.Contracts.Execution

/-!
# The active validators

The contract keeps the validators that can take part in rounds in an array, with the position of
each of them. They are the registered validators that have not resigned and have a key.
-/

namespace Mainsail.ConsensusV1

open IndexedArray List

variable {precompiles : Precompiles} {ok : Message → Prop} {owner : Address}
variable {registrationFee : Fin (2 ^ 128)} {x : Execution} {s s' : State} {m : Message}

namespace State

/-- The validators that should be active. -/
def IsEligible (s : State) (a : Address) : Prop :=
  s.hasValidator a ∧ (s.validatorsData a).isResigned = false ∧
    (s.validatorsData a).blsPublicKey ≠ []

structure Active (s : State) : Prop where
  indexed : Indexed s.activeValidators s.activeValidatorIndex
  mem : ∀ a, a ∈ s.activeValidators ↔ s.IsEligible a

section

variable (h : Indexed s.activeValidators s.activeValidatorIndex)
include h

theorem isActiveValidator_iff
    (addr : Address) : s.isActiveValidator addr ↔ addr ∈ s.activeValidators := by
  rw [h.mem_iff, isActiveValidator, decide_eq_true_iff]

/-- The removal from the array, whose last address may have moved. -/
theorem removeActiveValidator_spec (addr : Address) :
    Indexed (s.removeActiveValidator addr).activeValidators
        (s.removeActiveValidator addr).activeValidatorIndex ∧
      (s.removeActiveValidator addr).activeValidators.Perm (s.activeValidators.erase addr) := by
  unfold removeActiveValidator
  split
  · next active =>
      obtain ⟨before, after, split⟩ :=
        append_of_mem ((isActiveValidator_iff h addr).mp active)
      rw [split] at h
      have index := h.index_eq
      have fresh : addr ∉ before := by
        intro member
        exact (nodup_append.mp h.nodup).2.2 addr member addr (mem_cons_self ..) rfl
      rw [split, erase_append_right _ fresh, erase_cons_head]
      obtain rfl | ⟨after, last, rfl⟩ := after.eq_nil_or_concat
      · simp only [index, length_append, length_singleton, Nat.add_sub_cancel,
          ne_eq, not_true_eq_false, if_false, dropLast_concat, append_nil]
        exact ⟨h.pop 0, .refl _⟩
      · rw [concat_eq_append] at *
        have inner : before.length ≠ (before ++ addr :: (after ++ [last])).length - 1 := by
          simp
        have lastValidator : (before ++ addr :: (after ++ [last])).getD
            ((before ++ addr :: (after ++ [last])).length - 1) 0 = last := by
          simp [getD_eq_getElem?_getD]
        have moved : ((before ++ addr :: (after ++ [last])).set before.length last).dropLast =
            before ++ last :: after := by
          rw [set_append_right _ _ le_rfl, Nat.sub_self, set_cons_zero,
            ← cons_append, ← append_assoc, dropLast_concat]
        simp only [index, ne_eq, inner, not_false_eq_true, if_true, lastValidator, moved]
        refine ⟨h.swap 0, perm_middle.trans ?_⟩
        rw [← append_assoc]
        exact (perm_append_singleton ..).symm
  · next inactive =>
      rw [isActiveValidator_iff h] at inactive
      rw [erase_of_not_mem inactive]
      exact ⟨h, .refl _⟩

theorem resign_spec (sender : Address) :
    Indexed (s.resign sender).activeValidators (s.resign sender).activeValidatorIndex ∧
      (s.resign sender).activeValidators.Perm (s.activeValidators.erase sender) :=
  removeActiveValidator_spec (s := { s.setData sender _ with resignedValidatorsCount := _ }) h
    sender

end

namespace Active

theorem of_sameRegistry (h : s.Active) (same : SameRegistry s s') : s'.Active := by
  refine ⟨?_, ?_⟩
  · rw [same.activeValidators, same.activeValidatorIndex]
    exact h.indexed
  · intro a
    rw [same.activeValidators, h.mem, IsEligible, IsEligible, same.hasValidator, same.isResigned,
      same.blsPublicKey]

variable {addr sender : Address} {blsPublicKey proofOfPossession : Bytes}

variable (h : s.Active)
include h

/-- An address joins the array when it becomes eligible. -/
theorem addActiveValidator (new : addr ∉ s.activeValidators)
    (array : s'.activeValidators = s.activeValidators)
    (index : s'.activeValidatorIndex = s.activeValidatorIndex)
    (eligible : s'.IsEligible addr) (others : ∀ a, a ≠ addr → (s'.IsEligible a ↔ s.IsEligible a)) :
    (s'.addActiveValidator addr).Active := by
  refine ⟨?_, ?_⟩
  · change Indexed (s'.activeValidators ++ [addr])
      (Function.update s'.activeValidatorIndex addr s'.activeValidators.length)
    rw [array, index]
    exact h.indexed.push new
  · intro a
    change a ∈ s'.activeValidators ++ [addr] ↔ s'.IsEligible a
    rw [array, mem_append, mem_singleton]
    by_cases same : a = addr
    · simp [same, eligible]
    · simp [same, others a same, h.mem]

/-- The array is right as it is. -/
theorem of_eligible (array : s'.activeValidators = s.activeValidators)
    (index : s'.activeValidatorIndex = s.activeValidatorIndex)
    (eligible : ∀ a, s'.IsEligible a ↔ s.IsEligible a) : s'.Active := by
  refine ⟨?_, ?_⟩
  · rw [array, index]
    exact h.indexed
  · intro a
    rw [array, eligible, h.mem]

theorem registered {value : Nat} (new : s.hasValidator sender = false)
    (length : blsPublicKey.length = 48) :
    (s.registered precompiles sender value blsPublicKey).Active := by
  refine h.addActiveValidator ?_ rfl rfl ?_ ?_
  · rw [h.mem]
    simp [IsEligible, new]
  · simp [IsEligible, ne_nil_of_length_eq_add_one length]
  · intro a other
    simp [IsEligible, other]

theorem updateValidator (registered : s.hasValidator sender = true)
    (length : blsPublicKey.length = 48) :
    (if (s.validatorsData sender).isResigned = false ∧ s.isActiveValidator sender = false
      then (s.rekeyed precompiles sender blsPublicKey).addActiveValidator sender
      else s.rekeyed precompiles sender blsPublicKey).Active := by
  have nonempty := ne_nil_of_length_eq_add_one length
  have others : ∀ a, a ≠ sender →
      ((s.rekeyed precompiles sender blsPublicKey).IsEligible a ↔ s.IsEligible a) := by
    intro a other
    simp [IsEligible, rekeyed, other]
  split
  · next joins =>
      refine h.addActiveValidator ?_ rfl rfl ?_ others
      · rw [← isActiveValidator_iff h.indexed, joins.2]
        exact Bool.false_ne_true
      · simp [IsEligible, rekeyed, registered, joins.1, nonempty]
  · next stays =>
      refine h.of_eligible rfl rfl ?_
      intro a
      by_cases same : a = sender
      · -- It has resigned, or was active with another key.
        subst same
        cases resigned : (s.validatorsData a).isResigned with
        | true => simp [IsEligible, rekeyed, resigned]
        | false =>
          have active : s.isActiveValidator a := by
            rw [← Bool.not_eq_false]
            exact fun inactive => stays ⟨resigned, inactive⟩
          rw [← h.mem, ← isActiveValidator_iff h.indexed]
          simp [IsEligible, rekeyed, registered, resigned, nonempty, active]
      · exact others a same

end Active

end State

theorem Change.active (change : Change precompiles m s s') (h : s.Active) : s'.Active := by
  cases change with
  | owner | fee => exact ⟨h.indexed, h.mem⟩
  | @addValidator addr _ _ new =>
    refine h.of_eligible rfl rfl fun a => ?_
    by_cases same : a = addr
    · subst same
      simp [State.IsEligible, new]
    · simp [State.IsEligible, same]
  | registerValidator _ _ new _ length => exact h.registered new length
  | updateValidator registered _ length => exact h.updateValidator registered length
  | resignValidator =>
    obtain ⟨indexed, perm⟩ := State.resign_spec h.indexed m.sender
    refine ⟨indexed, fun a => ?_⟩
    rw [perm.mem_iff, h.indexed.nodup.mem_erase_iff, h.mem]
    by_cases same : a = m.sender
    · subst same
      simp [State.IsEligible]
    · simp [State.IsEligible, same]
  | votes change => exact h.of_sameRegistry (.of_votes change)
  | calculateRoundValidators => exact ⟨h.indexed, h.mem⟩

theorem initial_active : (initial owner registrationFee).Active where
  indexed := ⟨nodup_nil, by simp [initial]⟩
  mem a := by simp [initial, State.IsEligible]

theorem Reachable.active (h : Reachable precompiles ok owner registrationFee x) : x.state.Active :=
  h.keeps initial_active fun _ _ _ _ => Change.active

/-- The array has no address twice, holds the validators that are registered, have not resigned
and have a key, and the index is the position of each of them. -/
theorem active_validators (h : Reachable precompiles (fun _ => True) owner registrationFee x) :
    x.state.activeValidators.Nodup ∧ (∀ a, a ∈ x.state.activeValidators ↔
        x.state.hasValidator a ∧ (x.state.validatorsData a).isResigned = false ∧
          (x.state.validatorsData a).blsPublicKey ≠ []) ∧
      ∀ a ∈ x.state.activeValidators,
        x.state.activeValidators[x.state.activeValidatorIndex a]? = some a :=
  ⟨h.active.indexed.nodup, h.active.mem, h.active.indexed.position⟩

/-- Of three validators the first resigns, and the last takes its place. -/
theorem active_validators_sample : ∃ x, Reachable Sample.precompiles (fun _ => True) 1 0 x ∧
      x.state.activeValidators = [4, 3] ∧
      x.state.activeValidators[x.state.activeValidatorIndex 4]? = some 4 := by
  obtain ⟨x, reached, active⟩ := Sample.exists_reachable (fun _ => True) 0 [
      .call (Sample.register 2 (by decide) 2 0),
      .call (Sample.register 3 (by decide) 3 0),
      .call (Sample.register 4 (by decide) 4 0),
      .call (Sample.message 2 (by decide) .resignValidator 0)]
    (fun x => x.state.activeValidators) [4, 3] (by decide +kernel) (by simp [Frames.Event.Sends])
  exact ⟨x, reached, active, (active_validators reached).2.2 4 (by simp [active])⟩

end Mainsail.ConsensusV1
