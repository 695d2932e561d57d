import Mathlib.Algebra.BigOperators.Group.Finset.Piecewise
import Mainsail.Foundation.Tally
import Mainsail.Contracts.Voters

/-!
# The sums of the votes

For each validator the contract keeps the sum of the balances that its voters had when they were
last looked at, and their number. Every change of a vote changes the sums by what the voter
contributes before and after, so they agree with the votes, and what is taken off was put on.
-/

namespace Mainsail.ConsensusV1

open State Function Finset Except

variable {precompiles : Precompiles} {owner : Address} {registrationFee : Fin (2 ^ 128)}
variable {x : Execution} {s s' : State} {m : Message}

namespace State

/-- The sums of the balances agree with the votes, which are for registered validators. An account
whose validator is the zero address has no vote. -/
structure Balanced (s : State) : Prop where
  registered : ∀ a, (s.voters a).validator ≠ 0 → s.hasValidator (s.voters a).validator
  voteBalance : ∀ v, v ≠ 0 → (s.validatorsData v).voteBalance =
    ∑ a with (s.voters a).validator = v, (s.voters a).balance

/-- So do the numbers of voters, if nobody can vote for the zero address. -/
structure Accounted (s : State) : Prop extends Balanced s where
  zero : s.hasValidator 0 = false
  votersCount : ∀ v, v ≠ 0 → (s.validatorsData v).votersCount =
    (univ.filter fun a => (s.voters a).validator = v).card
  count : s.votersCount = (univ.filter fun a => (s.voters a).validator ≠ 0).card

/-! ## Contents -/

theorem content_setVote (addr : Address) (vote : Vote) :
    (s.setVote addr vote).content = update s.content addr (vote.validator, vote.balance) := by
  funext a
  by_cases same : a = addr
  · subst same
    simp [content]
  · simp [content, setVote_voters_of_ne same, same]

theorem voted_content (voter validator : Address) (balance : Nat) :
    (s.voted voter validator balance).content = update s.content voter (validator, balance) :=
  (content_of_voters_eq rfl).trans ((content_linkVoter voter).trans (content_setVote voter _))

theorem unvoted_content (sender : Address) :
    (s.unvoted sender).content = update s.content sender (0, 0) := by
  refine (content_of_voters_eq (s := (s.unlinkVoter sender).setVote sender {}) rfl).trans ?_
  rw [content_setVote, content_unlinkVoter]

theorem updated_content (balances : Address → Nat) (addr : Address) :
    (s.updated balances addr).content =
      update s.content addr ((s.voters addr).validator, balances addr) :=
  (content_of_voters_eq rfl).trans (content_setVote (s := s) addr _)

/-! ## Changes of one vote -/

variable {addr validator v : Address} {balance : Nat}

section

variable (content : s'.content = update s.content addr (validator, balance))
include content

theorem changed_of_content :
    (s'.voters addr).validator = validator ∧ (s'.voters addr).balance = balance := by
  have := congrFun content addr
  rwa [update_self, State.content, Prod.mk.injEq] at this

theorem others_of_content :
    ∀ a, a ≠ addr → (s'.voters a).validator = (s.voters a).validator ∧
      (s'.voters a).balance = (s.voters a).balance := by
  intro a other
  have := congrFun content a
  rwa [update_of_ne other, State.content, State.content, Prod.mk.injEq] at this

end

/-- A validator that is not registered has no voters. -/
theorem no_voters (registered : ∀ a, (s.voters a).validator ≠ 0 →
    s.hasValidator (s.voters a).validator) (nonzero : v ≠ 0) (unknown : s.hasValidator v = false) :
    (univ.filter fun a => (s.voters a).validator = v) = ∅ := by
  refine filter_eq_empty_iff.mpr ?_
  rintro a - rfl
  exact ne_of_registered (registered a nonzero) unknown rfl

namespace Balanced

/-- The sums follow the change of one vote. -/
theorem replace (h : s.Balanced) (content : s'.content = update s.content addr (validator, balance))
    (has : s'.hasValidator = s.hasValidator) (registered : validator ≠ 0 → s.hasValidator validator)
    (voteBalance : ∀ v, v ≠ 0 → (s'.validatorsData v).voteBalance +
        (if (s.voters addr).validator = v then (s.voters addr).balance else 0) =
      (s.validatorsData v).voteBalance + if validator = v then balance else 0) : s'.Balanced := by
  have changed := changed_of_content content
  have others := others_of_content content
  constructor
  · intro a voter
    rw [has]
    by_cases same : a = addr
    · subst same
      rw [changed.1] at voter ⊢
      exact registered voter
    · rw [(others a same).1] at voter ⊢
      exact h.registered a voter
  · intro v nonzero
    have sum := Tally.sum_filter_replace addr
      (p := fun a => (s.voters a).validator = v) (q := fun a => (s'.voters a).validator = v)
      (w := fun a => (s.voters a).balance) (u := fun a => (s'.voters a).balance)
      (fun a other => by rw [(others a other).1]) fun a other => (others a other).2
    rw [changed.1, changed.2, ← h.voteBalance v nonzero] at sum
    have := voteBalance v nonzero
    omega

/-- What a voter contributes is part of the sum. -/
theorem contribution (h : s.Balanced) (voter : (s.voters addr).validator ≠ 0) :
    (s.voters addr).balance ≤ (s.validatorsData (s.voters addr).validator).voteBalance := by
  rw [h.voteBalance _ voter]
  exact Tally.le_sum_filter (p := fun a => (s.voters a).validator = (s.voters addr).validator)
    (w := fun a => (s.voters a).balance) rfl

variable {voter sender : Address}

variable (h : s.Balanced)
include h

theorem voted (new : (s.voters voter).validator = 0) (registered : s.hasValidator validator) :
    (s.voted voter validator balance).Balanced := by
  refine h.replace (voted_content ..) (voted_hasValidator ..) (fun _ => registered) ?_
  intro v nonzero
  by_cases same : v = validator
  · subst same
    simp [State.voted, new, nonzero.symm]
  · simp [State.voted, new, nonzero.symm, same, Ne.symm same]

theorem unvoted (voter : (s.voters sender).validator ≠ 0) : (s.unvoted sender).Balanced := by
  have balance_le := h.contribution voter
  refine h.replace (unvoted_content _) (unvoted_hasValidator _) (by simp) ?_
  intro v nonzero
  by_cases same : v = (s.voters sender).validator
  · subst same
    simp [State.unvoted, nonzero.symm, Nat.sub_add_cancel balance_le]
  · simp [State.unvoted, nonzero.symm, same, Ne.symm same]

theorem updated (voter : (s.voters addr).validator ≠ 0)
    (balances : Address → Nat) : (s.updated balances addr).Balanced := by
  have balance_le := h.contribution voter
  refine h.replace (updated_content ..) rfl (fun _ => h.registered addr voter) ?_
  intro v nonzero
  by_cases same : v = (s.voters addr).validator
  · subst same
    simp only [State.updated, update_self, if_true]
    omega
  · simp [State.updated, same, Ne.symm same]

theorem of_sameVotes (same : SameVotes s s') : s'.Balanced := by
  have voters : ∀ a, s'.voters a = s.voters a := congrFun same.voters
  constructor
  · intro a
    rw [voters]
    exact fun voter => same.hasValidator _ (h.registered a voter)
  · intro v nonzero
    simp only [voters]
    obtain ⟨kept, -⟩ | ⟨unknown, -, zero, -⟩ := same.sums v
    · rw [kept, h.voteBalance v nonzero]
    · rw [zero, no_voters h.registered nonzero unknown, sum_empty]

theorem votes (change : VoteChange m s s') : s'.Balanced := by
  cases change with
  | recordVote _ new registered => exact h.voted new registered
  | unvote voter => exact h.unvoted voter
  | updateVoter voter => exact h.updated voter m.balances

end Balanced

namespace Accounted

variable (h : s.Accounted)
include h

/-- The numbers follow the change of one vote, besides the sums. -/
theorem replace (balanced : s'.Balanced)
    (content : s'.content = update s.content addr (validator, balance))
    (has : s'.hasValidator = s.hasValidator)
    (votersCount : ∀ v, v ≠ 0 → (s'.validatorsData v).votersCount +
        (if (s.voters addr).validator = v then 1 else 0) =
      (s.validatorsData v).votersCount + if validator = v then 1 else 0)
    (count : s'.votersCount + (if (s.voters addr).validator ≠ 0 then 1 else 0) =
      s.votersCount + if validator ≠ 0 then 1 else 0) : s'.Accounted := by
  have changed := changed_of_content content
  have others := others_of_content content
  refine ⟨balanced, has ▸ h.zero, ?_, ?_⟩
  · intro v nonzero
    have sum := Tally.card_filter_replace addr
      (p := fun a => (s.voters a).validator = v) (q := fun a => (s'.voters a).validator = v)
      fun a other => by rw [(others a other).1]
    rw [changed.1, ← h.votersCount v nonzero] at sum
    have := votersCount v nonzero
    omega
  · have sum := Tally.card_filter_replace addr
      (p := fun a => (s.voters a).validator ≠ 0) (q := fun a => (s'.voters a).validator ≠ 0)
      fun a other => by rw [(others a other).1]
    rw [changed.1, ← h.count] at sum
    omega

/-- A voter is one of those that are counted. -/
theorem counted (voter : (s.voters addr).validator ≠ 0) :
    1 ≤ (s.validatorsData (s.voters addr).validator).votersCount ∧ 1 ≤ s.votersCount := by
  constructor
  · rw [h.votersCount _ voter]
    exact card_pos.mpr ⟨addr, by simp⟩
  · rw [h.count]
    exact card_pos.mpr ⟨addr, by simp [voter]⟩

theorem voted {voter : Address} (new : (s.voters voter).validator = 0)
    (registered : s.hasValidator validator) : (s.voted voter validator balance).Accounted := by
  have validator_ne := ne_of_registered registered h.zero
  refine h.replace (h.toBalanced.voted new registered) (voted_content ..) (voted_hasValidator ..)
    ?_ ?_
  · intro v nonzero
    by_cases same : v = validator
    · subst same
      simp [State.voted, new, nonzero.symm]
    · simp [State.voted, new, nonzero.symm, same, Ne.symm same]
  · simp [State.voted, new, validator_ne]

theorem unvoted {sender : Address} (voter : (s.voters sender).validator ≠ 0) :
    (s.unvoted sender).Accounted := by
  obtain ⟨count_pos, total_pos⟩ := h.counted voter
  refine h.replace (h.toBalanced.unvoted voter) (unvoted_content _) (unvoted_hasValidator _) ?_ ?_
  · intro v nonzero
    by_cases same : v = (s.voters sender).validator
    · subst same
      simp [State.unvoted, nonzero.symm, Nat.sub_add_cancel count_pos]
    · simp [State.unvoted, nonzero.symm, same, Ne.symm same]
  · simp [State.unvoted, voter, Nat.sub_add_cancel total_pos]

theorem updated (voter : (s.voters addr).validator ≠ 0)
    (balances : Address → Nat) : (s.updated balances addr).Accounted := by
  refine h.replace (h.toBalanced.updated voter balances) (updated_content ..) rfl ?_ rfl
  intro v nonzero
  by_cases same : v = (s.voters addr).validator
  · subst same
    simp [State.updated]
  · simp [State.updated, same]

theorem of_sameVotes (zero : s'.hasValidator 0 = false) (same : SameVotes s s') : s'.Accounted := by
  have voters : ∀ a, s'.voters a = s.voters a := congrFun same.voters
  refine ⟨h.toBalanced.of_sameVotes same, zero, ?_, ?_⟩
  · intro v nonzero
    simp only [voters]
    obtain ⟨-, kept⟩ | ⟨unknown, -, -, zero⟩ := same.sums v
    · rw [kept, h.votersCount v nonzero]
    · rw [zero, no_voters h.registered nonzero unknown, card_empty]
  · simp only [voters, same.votersCount, h.count]

theorem votes (change : VoteChange m s s') : s'.Accounted := by
  cases change with
  | recordVote _ new registered => exact h.voted new registered
  | unvote voter => exact h.unvoted voter
  | updateVoter voter => exact h.updated voter m.balances

end Accounted

end State

theorem State.balanced_initial : (initial owner registrationFee).Balanced :=
  ⟨by simp [initial], fun v nonzero => by simp [initial]⟩

/-- The sums are right whatever the calls were. -/
theorem Reachable.balanced {ok : Message → Prop}
    (h : Reachable precompiles ok owner registrationFee x) : x.state.Balanced := by
  refine h.keeps (P := Balanced) balanced_initial ?_
  intro m s s' _ change holds
  obtain same | votes := change.sameVotes_or_votes
  · exact holds.of_sameVotes same
  · exact holds.votes votes

theorem Reachable.accounted
    (h : Reachable precompiles Message.NonzeroValidator owner registrationFee x) :
    x.state.Accounted := by
  refine h.keeps (P := Accounted) ⟨balanced_initial, rfl, ?_, by simp [initial]⟩ ?_
  · intro v nonzero
    simp [initial, nonzero.symm]
  · intro m s s' sent change holds
    obtain same | votes := change.sameVotes_or_votes
    · exact holds.of_sameVotes (change.hasValidator_zero sent holds.zero) same
    · exact holds.votes votes

/-! ## Panics -/

variable {y : Nat} {r : Revert}

theorem add256_eq_error {x : Nat} (h : add256 x y = .error r) : r = .overflow := by
  unfold add256 at h
  split at h
  · cases h
  · exact (error.inj h).symm

theorem add64_eq_error {x : Nat} (h : add64 x y = .error r) : r = .overflow := by
  unfold add64 at h
  split at h
  · cases h
  · exact (error.inj h).symm

theorem State.recordVote_eq_error {voter validator : Address} {balance : Nat}
    (h : s.recordVote voter validator balance = .error r) : r = .overflow := by
  unfold recordVote at h
  obtain failed | ⟨_, _, h⟩ := bind_eq_error.mp h
  · exact add256_eq_error failed
  obtain failed | ⟨_, _, h⟩ := bind_eq_error.mp h
  · exact add64_eq_error failed
  · cases h

namespace State.Balanced

variable (h : s.Balanced)
include h

theorem updateVoter_eq_error {balances : Address → Nat} {addr : Address}
    (failed : s.updateVoter balances addr = .error r) : r = .overflow := by
  by_cases voter : (s.voters addr).validator = 0
  · rw [updateVoter_of_not_voter voter] at failed
    cases failed
  · have balance_le := h.contribution voter
    simp only [updateVoter, voter, if_false] at failed
    split at failed
    · obtain failed | ⟨_, _, failed⟩ := bind_eq_error.mp failed
      · exact add256_eq_error failed
      · cases failed
    · rw [sub_eq_ok.mpr ⟨by omega, rfl⟩] at failed
      cases failed

theorem updateVoters_eq_error {voters : List Address}
    (failed : s.updateVoters m.balances voters = .error r) : r = .overflow := by
  induction voters generalizing s with
  | nil => cases failed
  | cons addr voters ih =>
    obtain failed | ⟨middle, updated, later⟩ := bind_eq_error.mp failed
    · exact h.updateVoter_eq_error failed
    · obtain rfl | ⟨voter, rfl⟩ := updateVoter_cases updated
      · exact ih h later
      · exact ih (h.updated voter m.balances) later

/-- The sums of balances that have been seen. -/
theorem voteBalance_lt {bound : Address → Nat} (small : ∑ a, bound a < 2 ^ 256)
    (seen : ∀ a, (s.voters a).balance ≤ bound a) {v : Address} (nonzero : v ≠ 0) :
    (s.validatorsData v).voteBalance < 2 ^ 256 := by
  rw [h.voteBalance v nonzero]
  exact (Tally.sum_filter_le seen).trans_lt small

end State.Balanced

namespace State.Accounted

theorem unvote (h : s.Accounted) {sender : Address} (voter : (s.voters sender).validator ≠ 0) :
    s.unvote sender = .ok (s.unvoted sender) := by
  obtain ⟨count_pos, total_pos⟩ := h.counted voter
  exact unvote_eq_ok.mpr ⟨voter, h.toBalanced.contribution voter, count_pos, total_pos, rfl⟩

theorem votersCount_le (h : s.Accounted) {v : Address} (nonzero : v ≠ 0) :
    (s.validatorsData v).votersCount ≤ s.votersCount := by
  rw [h.votersCount v nonzero, h.count]
  refine card_le_card (monotone_filter_right _ ?_)
  rintro a - rfl
  exact nonzero

end State.Accounted

/-- A vote that is replaced has a balance that has been seen. -/
theorem State.seen_replace {bound : Address → Nat} {addr validator : Address} {balance : Nat}
    (content : s'.content = update s.content addr (validator, balance))
    (seen : ∀ a, (s.voters a).balance ≤ bound a) (new : balance ≤ bound addr) :
    ∀ a, (s'.voters a).balance ≤ bound a := by
  intro a
  have := congrArg Prod.snd (congrFun content a)
  by_cases same : a = addr
  · subst same
    rw [update_self] at this
    exact this.trans_le new
  · rw [update_of_ne same] at this
    exact this.trans_le (seen a)

section

variable {bound balances : Address → Nat}

theorem State.Accounted.recordVote (h : s.Accounted) {voter validator : Address}
    (new : (s.voters voter).validator = 0) (registered : s.hasValidator validator)
    (small : ∑ a, bound a < 2 ^ 256) (seen : ∀ a, (s.voters a).balance ≤ bound a)
    {balance : Nat} (balance_le : balance ≤ bound voter) (few : s.votersCount + 1 < 2 ^ 64) :
    s.recordVote voter validator balance = .ok (s.voted voter validator balance) := by
  have validator_ne := ne_of_registered registered h.zero
  have next : (s.voted voter validator balance).Balanced := h.toBalanced.voted new registered
  have sum := next.voteBalance_lt small (seen_replace (voted_content ..) seen balance_le)
    validator_ne
  have number := h.votersCount_le validator_ne
  simp only [State.voted, update_self] at sum
  exact recordVote_eq_ok.mpr ⟨sum, by omega, rfl⟩

/-- The owner can always bring the recorded balances up to date. -/
theorem State.Balanced.updateVoters (h : s.Balanced) (small : ∑ a, bound a < 2 ^ 256)
    (seen : ∀ a, (s.voters a).balance ≤ bound a) (current : ∀ a, balances a ≤ bound a)
    (voters : List Address) : ∃ s', s.updateVoters balances voters = .ok s' := by
  induction voters generalizing s with
  | nil => exact ⟨s, rfl⟩
  | cons addr voters ih =>
    by_cases voter : (s.voters addr).validator = 0
    · obtain ⟨s', updated⟩ := ih h seen
      exact ⟨s', bind_eq_ok.mpr ⟨s, updateVoter_of_not_voter voter, updated⟩⟩
    · have next := h.updated voter balances
      have seen' := seen_replace (updated_content balances addr) seen (current addr)
      have balance_le := h.contribution voter
      have sum := next.voteBalance_lt small seen' voter
      simp only [State.updated, update_self] at sum
      obtain ⟨s', updated⟩ := ih next seen'
      exact ⟨s', bind_eq_ok.mpr ⟨_, (updateVoter_eq_ok voter).mpr
        ⟨by omega, fun _ => sum, rfl⟩, updated⟩⟩

end

/-- The storage before the new vote of a sender is recorded. -/
def State.withdrawn (s : State) (sender : Address) : State :=
  if (s.voters sender).validator ≠ 0 then s.unvoted sender else s

namespace State

theorem withdrawn_validator (sender : Address) :
    ((s.withdrawn sender).voters sender).validator = 0 := by
  unfold withdrawn
  split
  · simp
  · next none => exact not_not.mp none

theorem withdrawn_hasValidator (sender : Address) :
    (s.withdrawn sender).hasValidator = s.hasValidator := by
  unfold withdrawn
  split
  · exact unvoted_hasValidator sender
  · rfl

theorem withdrawn_votersCount_le (sender : Address) :
    (s.withdrawn sender).votersCount ≤ s.votersCount := by
  unfold withdrawn
  split
  · exact Nat.sub_le ..
  · exact le_rfl

theorem withdrawn_seen {bound : Address → Nat} (seen : ∀ a, (s.voters a).balance ≤ bound a)
    (sender : Address) : ∀ a, ((s.withdrawn sender).voters a).balance ≤ bound a := by
  unfold withdrawn
  split
  · exact seen_replace (unvoted_content sender) seen (Nat.zero_le _)
  · exact seen

end State

namespace State.Accounted

theorem withdrawn (h : s.Accounted) (sender : Address) : (s.withdrawn sender).Accounted := by
  unfold State.withdrawn
  split
  · next voter => exact h.unvoted voter
  · exact h

/-- A vote fails for another reason, or is recorded after the old one has been taken back. -/
theorem vote (h : s.Accounted) (sender : Address) (balance : Nat) (addr : Address) :
    (∃ r, s.vote sender balance addr = .error r ∧ r ≠ .underflow ∧ r ≠ .overflow) ∨
      s.hasValidator addr ∧
        s.vote sender balance addr = (s.withdrawn sender).recordVote sender addr balance := by
  unfold State.vote
  split
  · exact .inl ⟨_, rfl, by decide, by decide⟩
  next registered =>
  split
  · exact .inl ⟨_, rfl, by decide, by decide⟩
  split
  · exact .inl ⟨_, rfl, by decide, by decide⟩
  split
  · exact .inl ⟨_, rfl, by decide, by decide⟩
  refine .inr ⟨by simpa [isValidatorRegistered] using registered, ?_⟩
  unfold State.withdrawn
  dsimp only
  split
  · next voter => rw [h.unvote voter]; rfl
  · rfl

end State.Accounted

/-- The calls that change votes once the rounds have begun. -/
def Call.isVoting : Call → Bool
  | vote _ | unvote | updateVoters _ => true
  | _ => false

/-- With sums that are right, no subtraction fails. Neither do the additions, as long as the
balances that have been seen are those of a network. -/
theorem State.Accounted.step_eq_error (h : s.Accounted) (voting : m.call.isVoting)
    (failed : step precompiles s m = .error r) :
    r ≠ .underflow ∧ (∑ a, max (s.voters a).balance (m.balances a) < 2 ^ 256 →
      s.votersCount + 1 < 2 ^ 64 → r ≠ .overflow) := by
  have seen : ∀ a, (s.voters a).balance ≤ max (s.voters a).balance (m.balances a) :=
    fun a => le_max_left ..
  have current : ∀ a, m.balances a ≤ max (s.voters a).balance (m.balances a) :=
    fun a => le_max_right ..
  unfold step at failed
  split at failed
  · obtain rfl := error.inj failed
    simp
  unfold dispatch at failed
  cases call : m.call with
  | vote addr =>
    simp only [call] at failed
    obtain ⟨r', other, noUnderflow, noOverflow⟩ | ⟨registered, recorded⟩ :=
      h.vote m.sender (m.balances m.sender) addr
    · obtain rfl := error.inj (other.symm.trans failed)
      exact ⟨noUnderflow, fun _ _ => noOverflow⟩
    · rw [recorded] at failed
      refine ⟨by rw [recordVote_eq_error failed]; decide, fun small few => ?_⟩
      have := withdrawn_votersCount_le (s := s) m.sender
      rw [(h.withdrawn m.sender).recordVote (withdrawn_validator _)
        (by rwa [withdrawn_hasValidator]) small (withdrawn_seen seen _) (current _)
        (by omega)] at failed
      cases failed
  | unvote =>
    simp only [call] at failed
    by_cases voter : (s.voters m.sender).validator = 0
    · simp only [State.unvote, voter, if_true] at failed
      obtain rfl := error.inj failed
      simp
    · rw [h.unvote voter] at failed
      cases failed
  | updateVoters voters =>
    simp only [call] at failed
    obtain failed | ⟨_, _, failed⟩ := bind_eq_error.mp failed
    · unfold onlyOwner at failed
      split at failed
      · cases failed
      · obtain rfl := error.inj failed
        simp
    · refine ⟨by rw [h.toBalanced.updateVoters_eq_error failed]; decide, fun small _ => ?_⟩
      obtain ⟨s', updated⟩ := h.toBalanced.updateVoters small seen current voters
      rw [updated] at failed
      cases failed
  | _ =>
    rw [call] at voting
    cases voting

/-- The sums of each validator agree with the votes, so the calls that change votes cannot take
off what is not there. -/
theorem votes_accounted
    (h : Reachable precompiles Message.NonzeroValidator owner registrationFee x) :
    (∀ v, x.state.hasValidator v →
      (x.state.validatorsData v).voteBalance =
          ∑ a with (x.state.voters a).validator = v, (x.state.voters a).balance ∧
        (x.state.validatorsData v).votersCount =
          (univ.filter fun a => (x.state.voters a).validator = v).card) ∧
    ∀ m : Message, m.call.isVoting →
      step precompiles x.state m ≠ .error .underflow ∧
      (∑ a, max (x.state.voters a).balance (m.balances a) < 2 ^ 256 →
        x.state.votersCount + 1 < 2 ^ 64 → step precompiles x.state m ≠ .error .overflow) := by
  have accounted := h.accounted
  constructor
  · intro v registered
    have nonzero := ne_of_registered registered accounted.zero
    exact ⟨accounted.voteBalance v nonzero, accounted.votersCount v nonzero⟩
  · intro m voting
    constructor
    · intro failed
      exact (accounted.step_eq_error voting failed).1 rfl
    · intro small few failed
      exact (accounted.step_eq_error voting failed).2 small few rfl

/-- A validator with two voters, one of whom has voted again. -/
theorem votes_accounted_sample : ∃ x, Reachable Sample.precompiles Message.NonzeroValidator 1 0 x ∧
      x.state.hasValidator 2 = true ∧ (x.state.validatorsData 2).voteBalance = 9 ∧
      ∑ a with (x.state.voters a).validator = 2, (x.state.voters a).balance = 9 := by
  obtain ⟨x, reached, found⟩ := Sample.exists_reachable Message.NonzeroValidator 0 [
      .call (Sample.register 2 (by decide) 2 0),
      .call (Sample.register 3 (by decide) 3 0),
      .call (Sample.message 4 (by decide) (.vote 3) 0),
      .call (Sample.message 5 (by decide) (.vote 2) 0),
      .call (Sample.message 4 (by decide) (.vote 2) 0)]
    (fun x => (x.state.hasValidator 2, (x.state.validatorsData 2).voteBalance)) (true, 9)
    (by decide +kernel)
    (by simp [Frames.Event.Sends, Message.NonzeroValidator, Sample.register, Sample.message])
  obtain ⟨registered, sum⟩ := Prod.mk.inj found
  exact ⟨x, reached, registered, sum, ((votes_accounted reached).1 2 registered).1.symm.trans sum⟩

/-- An account with a balance of two votes for the zero address twice. Whoever is counted as its
voter, the sum is too high. -/
theorem votes_for_zero_counted_twice :
    ∃ x, Reachable Sample.precompiles (fun m => ∑ a, m.balances a < 2 ^ 256) 1 0 x ∧
      x.state.hasValidator 0 ∧ ∀ voters : Finset Address,
        (x.state.validatorsData 0).voteBalance ≠ ∑ a ∈ voters, (x.state.voters a).balance := by
  let balances : Address → Nat := Pi.single 2 2
  obtain ⟨x, reached, found⟩ := Sample.exists_reachable (fun m => ∑ a, m.balances a < 2 ^ 256) 0 [
      .call { Sample.message 1 (by decide) (.addValidator 0 false) 0 with balances },
      .call { Sample.message 1 (by decide) (.addVotes [2, 2] [0, 0]) 0 with balances }]
    (fun x => (x.state.hasValidator 0, (x.state.validatorsData 0).voteBalance, x.state.voters))
    (true, 4, update (update (update (update (fun _ => {})
        2 ⟨0, 2, 0, 0⟩) 2 ⟨0, 2, 0, 0⟩) 2 ⟨0, 2, 0, 2⟩) 2 ⟨0, 2, 2, 2⟩)
    rfl (by simp [Frames.Event.Sends, balances])
  simp only [Prod.mk.injEq] at found
  obtain ⟨registered, sum, records⟩ := found
  refine ⟨x, reached, registered, ?_⟩
  intro voters
  have recorded : ∀ a, (x.state.voters a).balance = if a = 2 then 2 else 0 := by
    intro a
    by_cases same : a = 2 <;> simp [records, same]
  have atMost : ∑ a ∈ voters, (x.state.voters a).balance ≤ 2 := by
    simp only [recorded, sum_ite_eq']
    split <;> simp
  omega

end Mainsail.ConsensusV1
