import Mainsail.Foundation.Tally
import Mainsail.Contracts.Execution

/-!
# Refunds of the registration fee

The contract holds the fees of the validators that have not resigned. A resignation marks the
validator before the fee is transferred, so that the receiver finds the storage and the ether in
agreement when it calls the contract again.
-/

namespace Mainsail.ConsensusV1

open State List

variable {precompiles : Precompiles} {ok : Message → Prop} {owner : Address}
variable {registrationFee : Fin (2 ^ 128)} {x : Execution} {s s' : State} {m : Message}
variable {log : List Message}

/-- The validators whose fee has not been returned. -/
def State.IsHeld (s : State) (a : Address) : Prop :=
  s.hasValidator a ∧ (s.validatorsData a).isResigned = false

instance (s : State) : DecidablePred s.IsHeld := fun _ => inferInstanceAs (Decidable (_ ∧ _))

/-- The ether of the contract is the fees that it holds. -/
def State.Funded (s : State) : Prop :=
  s.balance = ∑ a with s.IsHeld a, ((s.validatorsData a).fee : Nat)

namespace State.Funded

/-- One validator changes, and with it the ether. -/
theorem replace (h : s.Funded) (addr : Address)
    (others : ∀ a, a ≠ addr → (s'.IsHeld a ↔ s.IsHeld a) ∧
      (s'.validatorsData a).fee = (s.validatorsData a).fee)
    (balance : s'.balance + (if s.IsHeld addr then ((s.validatorsData addr).fee : Nat) else 0) =
      s.balance + if s'.IsHeld addr then ((s'.validatorsData addr).fee : Nat) else 0) :
    s'.Funded := by
  have sum := Tally.sum_filter_replace addr (p := s.IsHeld) (q := s'.IsHeld)
    (w := fun a => ((s.validatorsData a).fee : Nat))
    (u := fun a => ((s'.validatorsData a).fee : Nat))
    (fun a other => (others a other).1) fun a other => by rw [(others a other).2]
  unfold Funded at h ⊢
  omega

theorem congr (h : s.Funded) (held : ∀ a, s'.IsHeld a ↔ s.IsHeld a)
    (fee : ∀ a, (s'.validatorsData a).fee = (s.validatorsData a).fee)
    (balance : s'.balance = s.balance) : s'.Funded := by
  refine h.replace 0 (fun a _ => ⟨held a, fee a⟩) ?_
  simp only [held, fee, balance]

end State.Funded

/-- The recorded fee is what has been paid. -/
theorem State.registered_fee {sender : Address} {value : Nat} {blsPublicKey : Bytes}
    (paid : value = s.fee) :
    (((s.registered precompiles sender value blsPublicKey).validatorsData sender).fee : Nat) =
      value := by
  have small : value < 2 ^ 128 := paid ▸ s.fee.isLt
  change ((Function.update s.validatorsData sender _ sender).fee : Nat) = value
  rw [Function.update_self]
  exact Nat.mod_eq_of_lt small

theorem Change.funded (change : Change precompiles m s s') (h : s.Funded) : s'.Funded := by
  cases change with
  | owner | fee | calculateRoundValidators => exact h
  | @addValidator addr _ _ new =>
    refine h.replace addr ?_ ?_
    · intro a other
      simp [State.IsHeld, other]
    · simp [State.IsHeld, new]
  | registerValidator _ paid new =>
    refine h.replace m.sender ?_ ?_
    · intro a other
      simp [State.registered, State.addActiveValidator, State.IsHeld, other]
    · rw [State.registered_fee paid]
      simp [State.registered, State.addActiveValidator, State.IsHeld, new]
  | @updateValidator blsPublicKey =>
    have held : ∀ a, (s.rekeyed precompiles m.sender blsPublicKey).IsHeld a ↔ s.IsHeld a := by
      intro a
      by_cases same : a = m.sender <;> simp [State.rekeyed, State.IsHeld, same]
    have fee : ∀ a, ((s.rekeyed precompiles m.sender blsPublicKey).validatorsData a).fee =
        (s.validatorsData a).fee := by
      intro a
      by_cases same : a = m.sender <;> simp [State.rekeyed, same]
    split <;> exact h.congr held fee rfl
  | resignValidator registered current _ enough =>
    refine h.replace m.sender ?_ ?_
    · intro a other
      simp [State.IsHeld, other]
    · simpa [State.IsHeld, registered, current] using Nat.sub_add_cancel enough
  | votes change =>
    have same := SameRegistry.of_votes change
    refine h.congr (fun a => ?_) same.data_fee same.balance
    rw [State.IsHeld, State.IsHeld, same.hasValidator, same.isResigned]

/-! ## Deposits -/

/-- The ether an address has sent with its registration. -/
def deposited (log : List Message) (a : Address) : Nat :=
  ((log.filter fun m => m.sender = a && m.call.isPayable).map Message.value).sum

theorem deposited_append (a : Address) : deposited (log ++ [m]) a =
    deposited log a + if m.sender = a ∧ m.call.isPayable then m.value else 0 := by
  unfold deposited
  rw [filter_append, map_append, sum_append]
  split
  · next paid => simp [paid.1, paid.2]
  · next other => simp [other]

/-- The fees are the deposits, of which there is none without a registration. -/
def State.Deposits (s : State) (deposit : Address → Nat) : Prop :=
  ∀ a, ((s.validatorsData a).fee : Nat) = deposit a ∧ (s.hasValidator a = false → deposit a = 0)

theorem Change.deposits {deposit : Address → Nat} (change : Change precompiles m s s')
    (unpaid : m.call.isPayable = false) (h : s.Deposits deposit) : s'.Deposits deposit := by
  cases change with
  | owner | fee | calculateRoundValidators => exact h
  | @addValidator addr _ _ new =>
    intro a
    by_cases same : a = addr
    · subst same
      simp [(h a).2 new]
    · simpa [same] using h a
  | registerValidator call =>
    rw [call] at unpaid
    cases unpaid
  | updateValidator =>
    intro a
    by_cases same : a = m.sender
    · split <;> simpa [rekeyed, addActiveValidator, same] using h a
    · split <;> simpa [rekeyed, addActiveValidator, same] using h a
  | resignValidator =>
    intro a
    by_cases same : a = m.sender
    · simpa [same] using h a
    · simpa [same] using h a
  | votes change =>
    have same := SameRegistry.of_votes change
    intro a
    rw [same.data_fee, same.hasValidator]
    exact h a

theorem step_deposits (h : s.Deposits (deposited log)) (taken : step precompiles s m = .ok s') :
    s'.Deposits (deposited (log ++ [m])) := by
  cases paid : m.call.isPayable with
  | false =>
    have same : deposited (log ++ [m]) = deposited log := by
      funext a
      simp [deposited_append, paid]
    rw [same]
    exact step_keeps (fun _ _ change => change.deposits paid) taken h
  | true =>
    have dispatched := dispatch_of_step taken
    cases call : m.call with
    | registerValidator blsPublicKey proofOfPossession =>
      simp only [dispatch, call] at dispatched
      obtain ⟨value, new, -, -, rfl⟩ := registerValidator_eq_ok dispatched
      intro a
      rw [deposited_append, paid]
      by_cases same : a = m.sender
      · subst same
        rw [registered_fee value]
        simp [registered, addActiveValidator, (h m.sender).2 new]
      · simpa [registered, addActiveValidator, same, Ne.symm same] using h a
    | _ =>
      rw [call] at paid
      cases paid

/-! ## Resignations -/

/-- A resignation is for ever. -/
theorem Change.resigned (change : Change precompiles m s s') {a : Address}
    (h : s.hasValidator a ∧ (s.validatorsData a).isResigned) :
    s'.hasValidator a ∧ (s'.validatorsData a).isResigned := by
  cases change with
  | owner | fee | calculateRoundValidators => exact h
  | addValidator _ new =>
    have other := ne_of_registered h.1 new
    simpa [other] using h
  | registerValidator _ _ new =>
    have other := ne_of_registered h.1 new
    simpa [State.registered, State.addActiveValidator, other] using h
  | updateValidator =>
    by_cases same : a = m.sender
    · subst same
      split <;> simpa [rekeyed, addActiveValidator] using h
    · split <;> simpa [rekeyed, addActiveValidator, same] using h
  | resignValidator =>
    by_cases same : a = m.sender
    · subst same
      simp [h.1]
    · simpa [same] using h
  | votes change =>
    have same := SameRegistry.of_votes change
    rwa [same.hasValidator, same.isResigned]

theorem step_resignValidator (call : m.call = .resignValidator) (unpaid : m.value = 0) :
    step precompiles s m = s.resignValidator m.sender := by
  rw [step_of_unpaid unpaid]
  simp only [dispatch, call]

/-- Whoever has resigned stays resigned. -/
theorem Reachable.resigned (h : Reachable precompiles ok owner registrationFee x) :
    ∀ m ∈ x.log, m.call = .resignValidator →
      x.state.hasValidator m.sender ∧ (x.state.validatorsData m.sender).isResigned := by
  refine h.keeps_history (P := fun log s => ∀ m ∈ log, m.call = .resignValidator →
    s.hasValidator m.sender ∧ (s.validatorsData m.sender).isResigned) (by simp) ?_
  intro log m s s' _ taken holds m' member call
  obtain old | new := mem_append.mp member
  · exact step_keeps (P := fun s => s.hasValidator m'.sender ∧
      (s.validatorsData m'.sender).isResigned) (fun _ _ change => change.resigned) taken
      (holds m' old call)
  · obtain rfl := mem_singleton.mp new
    have dispatched := dispatch_of_step taken
    simp only [dispatch, call] at dispatched
    obtain ⟨registered, -, -, -, rfl⟩ := resignValidator_eq_ok.mp dispatched
    simp [registered]

/-- The ether of the contract is the sum of the fees of the validators that have not resigned. A
resignation that is permitted succeeds and pays what the validator has deposited, and it can
happen only once. -/
theorem fees_refundable (h : Reachable precompiles (fun _ => True) owner registrationFee x) :
    x.state.balance = ∑ a with x.state.hasValidator a ∧
        (x.state.validatorsData a).isResigned = false, ((x.state.validatorsData a).fee : Nat) ∧
    (∀ m : Message, m.call = .resignValidator → m.value = 0 → x.state.hasValidator m.sender →
      (x.state.validatorsData m.sender).isResigned = false →
      x.state.minValidators < x.state.activeValidators.length →
      ∃ s', step precompiles x.state m = .ok s' ∧
        s'.balance + deposited x.log m.sender = x.state.balance) ∧
    ∀ m ∈ x.log, m.call = .resignValidator → ∀ m' : Message, m'.call = .resignValidator →
      m'.sender = m.sender → ∃ r, step precompiles x.state m' = .error r := by
  have funded : x.state.Funded :=
    h.keeps (P := Funded) (by simp [Funded, IsHeld, initial])
      fun _ _ _ _ => Change.funded
  have deposits : x.state.Deposits (deposited x.log) :=
    h.keeps_history (P := fun log s => s.Deposits (deposited log))
      (by simp [Deposits, deposited, initial]) fun _ _ _ _ _ taken holds =>
        step_deposits holds taken
  refine ⟨funded, ?_, ?_⟩
  · intro m call unpaid registered current more
    have enough : ((x.state.validatorsData m.sender).fee : Nat) ≤ x.state.balance := by
      rw [funded]
      exact Tally.le_sum_filter (p := x.state.IsHeld)
        (w := fun a => ((x.state.validatorsData a).fee : Nat)) ⟨registered, current⟩
    have resigned := resignValidator_eq_ok.mpr ⟨registered, current, more, enough, rfl⟩
    refine ⟨_, (step_resignValidator call unpaid).trans resigned, ?_⟩
    rw [← (deposits m.sender).1]
    exact Nat.sub_add_cancel enough
  · intro m member call m' call' sender
    cases taken : step precompiles x.state m' with
    | error r => exact ⟨r, rfl⟩
    | ok s' =>
      have dispatched := dispatch_of_step taken
      simp only [dispatch, call'] at dispatched
      have current := (resignValidator_eq_ok.mp dispatched).2.1
      rw [sender] at current
      exact absurd (current.symm.trans (h.resigned m member call).2) Bool.false_ne_true

/-- The fee changes between two registrations. A validator that is being refunded finds the fee
of the other one untouched. -/
theorem fees_refundable_sample :
    ∃ x s', Reachable Sample.precompiles (fun _ => True) 1 7 x ∧ x.frames.length = 1 ∧
      x.state.balance = 16 ∧ step Sample.precompiles x.state
        (Sample.message 3 (by decide) .resignValidator 0) = .ok s' ∧ s'.balance = 9 := by
  obtain ⟨x, reached, found⟩ := Sample.exists_reachable (fun _ => True) 7 [
      .call (Sample.register 2 (by decide) 2 7),
      .call (Sample.register 3 (by decide) 3 7),
      .call (Sample.message 1 (by decide) (.setFee 9) 0),
      .call (Sample.register 4 (by decide) 4 9),
      .suspend (Sample.message 2 (by decide) .resignValidator 0),
      .call (Sample.message 2 (by decide) .resignValidator 0)]
    (fun x => (x.frames.length, x.state.balance, deposited x.log 3,
      x.state.hasValidator 3, (x.state.validatorsData 3).isResigned,
      decide (x.state.minValidators < x.state.activeValidators.length)))
    (1, 16, 7, true, false, true) (by decide +kernel)
    (by simp [Frames.Event.Sends])
  simp only [Prod.mk.injEq, decide_eq_true_iff] at found
  obtain ⟨frames, balance, deposit, registered, current, more⟩ := found
  obtain ⟨s', taken, paid⟩ := (fees_refundable reached).2.1
    (Sample.message 3 (by decide) .resignValidator 0) rfl rfl registered current more
  refine ⟨x, s', reached, frames, balance, taken, ?_⟩
  have : deposited x.log (Sample.message 3 (by decide) .resignValidator 0).sender = 7 := deposit
  omega

end Mainsail.ConsensusV1
