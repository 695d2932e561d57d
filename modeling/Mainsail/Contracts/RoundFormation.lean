import Mainsail.Contracts.RoundSelection

/-!
# Rounds can be formed again

A validator can resign only while there are more active validators than the last round has. No
other call removes one, so a round of that size can always be formed.
-/

namespace Mainsail.ConsensusV1

variable {precompiles : Precompiles} {owner : Address} {registrationFee : Fin (2 ^ 128)}
variable {x : Execution} {s s' : State} {m : Message} {log : List Message} {n : UInt8}

/-- The argument of the last call of `calculateRoundValidators` that has not been reverted. -/
def lastRound (log : List Message) : Option UInt8 :=
  log.foldl (fun last m =>
    match m.call with
    | .calculateRoundValidators n => some n
    | _ => last) none

theorem lastRound_of_calculate (call : m.call = .calculateRoundValidators n) :
    lastRound (log ++ [m]) = some n := by
  simp [lastRound, call]

theorem lastRound_of_other (other : ∀ n, m.call ≠ .calculateRoundValidators n) :
    lastRound (log ++ [m]) = lastRound log := by
  unfold lastRound
  rw [List.foldl_append, List.foldl_cons, List.foldl_nil]
  split
  · next n call => exact absurd call (other n)
  · rfl

namespace State

/-- There are enough active validators for a round of `n`, and none of these may resign. -/
structure Formable (s : State) (n : Nat) : Prop where
  selectable : s.Selectable
  minValidators : s.minValidators = n
  enough : n ≤ s.activeValidators.length

/-- Only a resignation makes the array shorter. -/
theorem Formable.change {n : Nat} (h : s.Formable n)
    (other : ∀ n, m.call ≠ .calculateRoundValidators n) (change : Change precompiles m s s') :
    s'.Formable n := by
  obtain ⟨selectable, rfl, enough⟩ := h
  have next := change.selectable selectable
  cases change with
  | owner | fee | addValidator => exact ⟨next, rfl, enough⟩
  | registerValidator =>
    refine ⟨next, rfl, ?_⟩
    simpa [State.registered, addActiveValidator] using Nat.le_succ_of_le enough
  | updateValidator =>
    refine ⟨next, ?_, ?_⟩
    · split <;> rfl
    · split
      · simpa [rekeyed, addActiveValidator] using Nat.le_succ_of_le enough
      · exact enough
  | resignValidator _ _ more =>
    obtain ⟨-, perm⟩ := resign_spec selectable.active.indexed m.sender
    refine ⟨next, rfl, ?_⟩
    have length := perm.length_eq
    rw [List.length_erase] at length
    change s.minValidators ≤ (s.resign m.sender).activeValidators.length
    split at length <;> omega
  | votes change =>
    have same := SameRegistry.of_votes change
    exact ⟨next, same.minValidators, by rwa [same.activeValidators]⟩
  | calculateRoundValidators call _ => exact absurd call (other _)

end State

/-- A round of the last size can be formed. -/
theorem Reachable.formable (h : Reachable precompiles (fun _ => True) owner registrationFee x) :
    ∀ n, lastRound x.log = some n → x.state.Formable n.toNat := by
  have kept : x.state.Selectable ∧ ∀ n, lastRound x.log = some n → x.state.Formable n.toNat := by
    refine h.keeps_history (P := fun log s => s.Selectable ∧
      ∀ n, lastRound log = some n → s.Formable n.toNat) ⟨initial_selectable, by simp [lastRound]⟩ ?_
    rintro log m s s' - taken ⟨selectable, formable⟩
    have next := step_keeps (fun _ _ => Change.selectable) taken selectable
    refine ⟨next, ?_⟩
    by_cases calculates : ∃ n, m.call = .calculateRoundValidators n
    · obtain ⟨n, call⟩ := calculates
      rw [lastRound_of_calculate call]
      rintro _ ⟨⟩
      have calculated := dispatch_calculateRoundValidators call (dispatch_of_step taken)
      have enough := (selectable.best calculated).1
      obtain ⟨-, -, rfl⟩ := State.calculateRoundValidators_eq_ok.mp calculated
      exact ⟨next, rfl, enough⟩
    · rw [not_exists] at calculates
      rw [lastRound_of_other calculates]
      intro n last
      exact step_keeps (P := fun s => s.Formable n.toNat)
        (fun s s' change holds => holds.change calculates change) taken (formable n last)
  exact kept.2

/-- After a round of `n` there are always `n` active validators, and the owner can form a round of
as many or fewer. -/
theorem round_formable (h : Reachable precompiles (fun _ => True) owner registrationFee x)
    (last : lastRound x.log = some n) :
    (x.state.activeValidators.Nodup ∧ n.toNat ≤ x.state.activeValidators.length ∧
      ∀ a ∈ x.state.activeValidators, x.state.hasValidator a ∧
        (x.state.validatorsData a).isResigned = false ∧
        (x.state.validatorsData a).blsPublicKey ≠ []) ∧
    ∀ (m : Message) (k : UInt8), m.call = .calculateRoundValidators k →
      m.sender = x.state.owner → m.value = 0 → 0 < k → k ≤ n →
      ∃ s', step precompiles x.state m = .ok s' := by
  obtain ⟨selectable, -, enough⟩ := h.formable n last
  refine ⟨⟨selectable.active.indexed.nodup, enough,
    fun a member => (selectable.active.mem a).mp member⟩, ?_⟩
  intro m k call sender unpaid positive small
  rw [step_calculateRoundValidators call sender unpaid]
  rw [UInt8.lt_iff_toNat_lt] at positive
  rw [UInt8.le_iff_toNat_le] at small
  exact ⟨_, selectable.calculateRoundValidators (Nat.pos_iff_ne_zero.mp positive)
    (small.trans enough) m.random⟩

/-- After a round of two, one of three validators resigns. When its refund arrives, it lets the
next one try to resign, too. -/
theorem round_formable_sample :
    ∃ x s', Reachable Sample.precompiles (fun _ => True) 1 7 x ∧ x.frames.length = 1 ∧
      x.state.activeValidators = [4, 3] ∧ step Sample.precompiles x.state
        (Sample.message 1 (by decide) (.calculateRoundValidators 2) 0) = .ok s' := by
  obtain ⟨x, reached, found⟩ := Sample.exists_reachable (fun _ => True) 7 [
      .call (Sample.register 2 (by decide) 2 7),
      .call (Sample.register 3 (by decide) 3 7),
      .call (Sample.register 4 (by decide) 4 7),
      .call (Sample.message 1 (by decide) (.calculateRoundValidators 2) 0),
      .suspend (Sample.message 2 (by decide) .resignValidator 0),
      .call (Sample.message 3 (by decide) .resignValidator 0)]
    (fun x => (x.frames.length, x.state.activeValidators, x.state.owner, lastRound x.log))
    (1, [4, 3], 1, some 2) (by decide +kernel)
    (by simp [Frames.Event.Sends])
  simp only [Prod.mk.injEq] at found
  obtain ⟨frames, active, owner, last⟩ := found
  obtain ⟨s', formed⟩ := (round_formable reached last).2
    (Sample.message 1 (by decide) (.calculateRoundValidators 2) 0) 2 rfl owner.symm rfl
    (by decide) (by decide)
  exact ⟨x, s', reached, frames, active, formed⟩

end Mainsail.ConsensusV1
