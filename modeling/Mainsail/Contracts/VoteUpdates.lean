import Mainsail.Contracts.VoteAccounting

/-!
# The update at the end of a block

The owner passes the accounts that a block has touched, in the order of a hash map. What an update
makes of a voter depends on the voter alone, and the sums follow the records, so that neither the
order of the accounts nor their repetition matters.
-/

namespace Mainsail.ConsensusV1

open State Function Except

variable {precompiles : Precompiles} {ok : Message → Prop} {owner : Address}
variable {registrationFee : Fin (2 ^ 128)} {x : Execution} {s s' s₁ s₂ : State} {m : Message}
variable {balances : Address → Nat} {voters voters' : List Address}

/-- The sum of the balances recorded for the voters of a validator. -/
def State.recorded (s : State) (v : Address) : Nat :=
  ∑ a with (s.voters a).validator = v, (s.voters a).balance

/-- What becomes of the storage when the balances of some accounts are brought up to date. -/
structure Updates (balances : Address → Nat) (voters : List Address) (s s' : State) : Prop where
  rest : s' = { s with voters := s'.voters, validatorsData := s'.validatorsData }
  voters : ∀ a, s'.voters a =
    if a ∈ voters ∧ (s.voters a).validator ≠ 0 then { s.voters a with balance := balances a }
    else s.voters a
  data : ∀ v, s'.validatorsData v =
    { s.validatorsData v with voteBalance := (s'.validatorsData v).voteBalance }
  zero : (s'.validatorsData 0).voteBalance = (s.validatorsData 0).voteBalance
  sums : ∀ v, v ≠ 0 → (s'.validatorsData v).voteBalance + s.recorded v =
    (s.validatorsData v).voteBalance + s'.recorded v

namespace Updates

theorem nil : Updates balances [] s s :=
  ⟨rfl, by simp, fun _ => rfl, rfl, fun _ _ => rfl⟩

theorem validator (h : Updates balances voters s s') (a : Address) :
    (s'.voters a).validator = (s.voters a).validator := by
  rw [h.voters]
  split <;> rfl

theorem append (first : Updates balances voters s s') (second : Updates balances voters' s' s₂) :
    Updates balances (voters ++ voters') s s₂ := by
  refine ⟨?_, ?_, ?_, second.zero.trans first.zero, ?_⟩
  · rw [second.rest, first.rest]
  · intro a
    rw [second.voters, first.validator, first.voters]
    by_cases voter : (s.voters a).validator = 0
    · simp [voter]
    · by_cases before : a ∈ voters <;> by_cases after : a ∈ voters' <;>
        simp [voter, before, after]
  · intro v
    rw [second.data, first.data]
  · intro v nonzero
    have := first.sums v nonzero
    have := second.sums v nonzero
    omega

/-- The update of one voter. -/
theorem single {addr : Address} (h : s.updateVoter balances addr = .ok s') :
    Updates balances [addr] s s' := by
  by_cases voter : (s.voters addr).validator = 0
  · rw [updateVoter_of_not_voter voter] at h
    obtain rfl := ok.inj h
    refine ⟨rfl, ?_, fun _ => rfl, rfl, fun _ _ => rfl⟩
    intro a
    rw [if_neg]
    rintro ⟨member, other⟩
    obtain rfl := List.mem_singleton.mp member
    exact other voter
  · obtain ⟨enough, -, rfl⟩ := (updateVoter_eq_ok voter).mp h
    refine ⟨rfl, ?_, ?_, ?_, ?_⟩
    · intro a
      by_cases same : a = addr
      · subst same
        simp [updated, voter]
      · simp [updated, same]
    · intro v
      by_cases same : v = (s.voters addr).validator
      · subst same
        simp [updated]
      · simp [updated, same]
    · simp [updated, Ne.symm voter]
    · intro v nonzero
      have others := others_of_content (updated_content (s := s) balances addr)
      have changed := changed_of_content (updated_content (s := s) balances addr)
      have sum := Tally.sum_filter_replace addr (p := fun a => (s.voters a).validator = v)
        (q := fun a => ((s.updated balances addr).voters a).validator = v)
        (w := fun a => (s.voters a).balance)
        (u := fun a => ((s.updated balances addr).voters a).balance)
        (fun a other => by rw [(others a other).1]) fun a other => (others a other).2
      rw [changed.1, changed.2] at sum
      unfold recorded
      by_cases same : v = (s.voters addr).validator
      · subst same
        simp only [updated, update_self, if_true] at sum ⊢
        omega
      · simp only [updated, update_of_ne same, Ne.symm same, if_false] at sum ⊢
        omega

theorem of_updateVoters (h : s.updateVoters balances voters = .ok s') :
    Updates balances voters s s' := by
  induction voters generalizing s with
  | nil =>
    obtain rfl := ok.inj h
    exact nil
  | cons addr voters ih =>
    obtain ⟨middle, updated, h⟩ := bind_eq_ok.mp h
    exact (single updated).append (ih h)

/-- The storage is determined by the set of the accounts. -/
theorem unique (same : ∀ a, a ∈ voters ↔ a ∈ voters') (first : Updates balances voters s s₁)
    (second : Updates balances voters' s s₂) : s₁ = s₂ := by
  have records : s₁.voters = s₂.voters := by
    funext a
    rw [first.voters, second.voters]
    simp only [same]
  have sums : ∀ v, (s₁.validatorsData v).voteBalance = (s₂.validatorsData v).voteBalance := by
    intro v
    by_cases zero : v = 0
    · rw [zero, first.zero, second.zero]
    · have equal : s₁.recorded v = s₂.recorded v := by simp only [recorded, records]
      have := first.sums v zero
      have := second.sums v zero
      omega
  have data : s₁.validatorsData = s₂.validatorsData := by
    funext v
    rw [first.data, second.data, sums]
  rw [first.rest, second.rest, records, data]

end Updates

/-- The call that updates the voters. -/
def Message.updating (m : Message) (voters : List Address) : Message :=
  { m with call := .updateVoters voters }

theorem step_updating : step precompiles s (m.updating voters) =
      if m.value ≠ 0 then .error .nonPayable
      else s.onlyOwner m.sender >>= fun _ => s.updateVoters m.balances voters := by
  simp [step, dispatch, Message.updating, Call.isPayable]

theorem step_updating_eq_ok (h : step precompiles s (m.updating voters) = .ok s') :
    s.updateVoters m.balances voters = .ok s' := by
  rw [step_updating] at h
  split at h
  · cases h
  · obtain ⟨_, _, h⟩ := bind_eq_ok.mp h
    exact h

/-- Two lists of the same accounts that are both taken lead to the same storage. In the storages
that calls lead to, either both are taken or neither, as long as the balances are those of a
network. -/
theorem updateVoters_unordered (same : ∀ a, a ∈ voters ↔ a ∈ voters') (m : Message) :
    (∀ s s₁ s₂, step precompiles s (m.updating voters) = .ok s₁ →
      step precompiles s (m.updating voters') = .ok s₂ → s₁ = s₂) ∧
    ∀ x, Reachable precompiles ok owner registrationFee x →
      ∑ a, max (x.state.voters a).balance (m.balances a) < 2 ^ 256 →
      step precompiles x.state (m.updating voters) =
        step precompiles x.state (m.updating voters') := by
  constructor
  · intro s s₁ s₂ first second
    exact Updates.unique same (.of_updateVoters (step_updating_eq_ok first))
      (.of_updateVoters (step_updating_eq_ok second))
  · intro x reached small
    obtain ⟨s₁, first⟩ := reached.balanced.updateVoters small (fun _ => le_max_left ..)
      (fun _ => le_max_right ..) voters
    obtain ⟨s₂, second⟩ := reached.balanced.updateVoters small (fun _ => le_max_left ..)
      (fun _ => le_max_right ..) voters'
    have equal := Updates.unique same (.of_updateVoters first) (.of_updateVoters second)
    rw [step_updating, step_updating, first, second, equal]

namespace Sample

def funded (balances : Address → Nat) (sender : Address) (nonzero : sender ≠ 0) (call : Call) :
    Message :=
  { message sender nonzero call 0 with balances }

end Sample

/-- Two voters and another account, one voter twice. -/
theorem updateVoters_unordered_sample : ∃ x, Reachable Sample.precompiles (fun _ => True) 1 0 x ∧
      (x.state.validatorsData 2).voteBalance = 9 ∧ ∃ (m : Message) (s' : State),
        step Sample.precompiles x.state (m.updating [5, 4, 6, 5]) = .ok s' ∧
        step Sample.precompiles x.state (m.updating [6, 4, 5]) = .ok s' ∧
        (s'.validatorsData 2).voteBalance = 7 := by
  have same : ∀ b c d a : Address, a ∈ [b, c, d, b] ↔ a ∈ [d, c, b] := by
    intro b c d a
    simp only [List.mem_cons, List.not_mem_nil, or_false]
    tauto
  let m := Sample.funded (fun a => if a = 5 then 7 else 0) 1 (by decide) .unvote
  obtain ⟨x, reached, found⟩ := Sample.exists_reachable (fun _ => True) 0 [
      .call (Sample.register 2 (by decide) 2 0),
      .call (Sample.message 4 (by decide) (.vote 2) 0),
      .call (Sample.message 5 (by decide) (.vote 2) 0)]
    (fun x => ((x.state.validatorsData 2).voteBalance, x.state.voters,
      (step Sample.precompiles x.state (m.updating [5, 4, 6, 5])).toOption.map fun s =>
        (s.validatorsData 2).voteBalance))
    (9, update (update (update (update (fun _ => {})
      4 ⟨2, 4, 0, 0⟩) 5 ⟨2, 5, 0, 0⟩) 4 ⟨2, 4, 0, 5⟩) 5 ⟨2, 5, 4, 0⟩, some 7)
    rfl (by simp [Frames.Event.Sends])
  simp only [Prod.mk.injEq] at found
  obtain ⟨before, records, after⟩ := found
  obtain ⟨s', updated, sum⟩ := Option.map_eq_some_iff.mp after
  have small : ∑ a, max (x.state.voters a).balance (m.balances a) ≤ 2 ^ 160 * 7 := by
    have := Finset.sum_le_card_nsmul Finset.univ
      (fun a => max (x.state.voters a).balance (m.balances a)) 7 fun a _ => by
        by_cases four : a = 4 <;> by_cases five : a = 5 <;>
          simp [records, m, Sample.funded, four, five]
    simpa using this
  have equal : step Sample.precompiles x.state (m.updating [5, 4, 6, 5]) =
      step Sample.precompiles x.state (m.updating [6, 4, 5]) :=
    (updateVoters_unordered (same 5 4 6) m).2 x reached (by omega)
  have first := toOption_eq_some.mp updated
  exact ⟨x, reached, before, m, s', first, equal ▸ first, sum⟩

/-- The sum of a validator overflows in one order of its voters only. -/
theorem updateVoters_overflow :
    ∃ x, Reachable Sample.precompiles (fun _ => True) 1 0 x ∧ ∃ m : Message,
      (∃ s', step Sample.precompiles x.state (m.updating [2, 3]) = .ok s') ∧
      step Sample.precompiles x.state (m.updating [3, 2]) = .error .overflow := by
  let balances : Address → Nat := fun a => if a = 2 then 2 ^ 256 - 1 else 0
  let m := Sample.funded (fun a => if a = 3 then 1 else 0) 1 (by decide) .unvote
  obtain ⟨x, reached, found⟩ := Sample.exists_reachable (fun _ => True) 0 [
      .call (Sample.register 9 (by decide) 9 0),
      .call (Sample.funded balances 2 (by decide) (.vote 9)),
      .call (Sample.funded balances 3 (by decide) (.vote 9))]
    (fun x =>
      ((step Sample.precompiles x.state (m.updating [2, 3])).toOption.isSome,
        match step Sample.precompiles x.state (m.updating [3, 2]) with
        | .error r => some r
        | .ok _ => none))
    (true, some .overflow) (by decide +kernel) (by simp [Frames.Event.Sends])
  obtain ⟨taken, refused⟩ := Prod.mk.inj found
  obtain ⟨s', updated⟩ := Option.isSome_iff_exists.mp taken
  refine ⟨x, reached, m, ⟨s', toOption_eq_some.mp updated⟩, ?_⟩
  split at refused
  · next failed => rw [failed, Option.some.inj refused]
  · cases refused

end Mainsail.ConsensusV1
