import Mainsail.Contracts.Execution

/-!
# The keys of the validators

A key is reserved when a validator takes it, and stays reserved when the validator takes another
one or resigns.
-/

namespace Mainsail.ConsensusV1

open State Transition

variable {precompiles : Precompiles} {ok : Message → Prop} {owner : Address}
variable {registrationFee : Fin (2 ^ 128)} {x : Execution} {s s' : State} {m : Message}

/-- No two validators have a key in common, and those they have are reserved. -/
structure State.Keys (precompiles : Precompiles) (s : State) : Prop where
  reserved : ∀ a, (s.validatorsData a).blsPublicKey ≠ [] →
    s.blsPublicKeys (precompiles.keccak256 (s.validatorsData a).blsPublicKey)
  unique : ∀ a b, (s.validatorsData a).blsPublicKey = (s.validatorsData b).blsPublicKey →
    (s.validatorsData a).blsPublicKey ≠ [] → a = b

namespace State.Keys

variable (h : s.Keys precompiles)
include h

/-- The keys and what is reserved are the same. -/
theorem congr (same : ∀ a, (s'.validatorsData a).blsPublicKey = (s.validatorsData a).blsPublicKey)
    (reserved : s'.blsPublicKeys = s.blsPublicKeys) : s'.Keys precompiles := by
  constructor
  · intro a
    rw [same, reserved]
    exact h.reserved a
  · intro a b
    rw [same, same]
    exact h.unique a b

/-- A validator begins without a key. -/
theorem clear (addr : Address) (none : (s'.validatorsData addr).blsPublicKey = [])
    (others : ∀ a, a ≠ addr →
      (s'.validatorsData a).blsPublicKey = (s.validatorsData a).blsPublicKey)
    (reserved : s'.blsPublicKeys = s.blsPublicKeys) : s'.Keys precompiles := by
  have held : ∀ a, (s'.validatorsData a).blsPublicKey ≠ [] → a ≠ addr := by
    rintro a nonempty rfl
    exact nonempty none
  constructor
  · intro a nonempty
    have same := others a (held a nonempty)
    rw [same] at nonempty ⊢
    rw [reserved]
    exact h.reserved a nonempty
  · intro a b equal nonempty
    have same := others a (held a nonempty)
    rw [others b (held b (equal ▸ nonempty)), same] at equal
    rw [same] at nonempty
    exact h.unique a b equal nonempty

/-- A validator takes a key that nobody has. -/
theorem take (addr : Address) {key : Bytes}
    (free : s.blsPublicKeys (precompiles.keccak256 key) = false)
    (taken : (s'.validatorsData addr).blsPublicKey = key) (others : ∀ a, a ≠ addr →
      (s'.validatorsData a).blsPublicKey = (s.validatorsData a).blsPublicKey)
    (reserved : s'.blsPublicKeys =
      Function.update s.blsPublicKeys (precompiles.keccak256 key) true) :
    s'.Keys precompiles := by
  have fresh : ∀ a, (s.validatorsData a).blsPublicKey = key → key = [] := by
    rintro a rfl
    by_contra nonempty
    exact Bool.false_ne_true (free.symm.trans (h.reserved a nonempty))
  have stays : ∀ k, s.blsPublicKeys k → s'.blsPublicKeys k := by
    intro k before
    rw [reserved]
    by_cases same : k = precompiles.keccak256 key
    · simp [same]
    · simpa [same] using before
  constructor
  · intro a nonempty
    by_cases same : a = addr
    · rw [same, taken, reserved, Function.update_self]
    · rw [others a same] at nonempty ⊢
      exact stays _ (h.reserved a nonempty)
  · intro a b equal nonempty
    by_cases first : a = addr <;> by_cases second : b = addr
    · rw [first, second]
    · subst first
      rw [taken, others b second] at equal
      rw [taken] at nonempty
      exact absurd (fresh b equal.symm) nonempty
    · subst second
      rw [taken] at equal
      rw [equal] at nonempty
      rw [others a first] at equal
      exact absurd (fresh a equal) nonempty
    · rw [others a first, others b second] at equal
      rw [others a first] at nonempty
      exact h.unique a b equal nonempty

end State.Keys

/-- What is reserved stays reserved. -/
theorem Change.reserved (change : Change precompiles m s s') {hash : Bytes}
    (h : s.blsPublicKeys hash) : s'.blsPublicKeys hash := by
  have update : ∀ other, Function.update s.blsPublicKeys other true hash := by
    intro other
    by_cases same : hash = other
    · simp [same]
    · simpa [same] using h
  cases change with
  | owner | fee | addValidator | resignValidator | calculateRoundValidators => exact h
  | registerValidator => exact update _
  | updateValidator => split <;> exact update _
  | votes change => rwa [(SameRegistry.of_votes change).blsPublicKeys]

theorem Change.keys (change : Change precompiles m s s') (h : s.Keys precompiles) :
    s'.Keys precompiles := by
  cases change with
  | owner | fee | calculateRoundValidators => exact h.congr (fun _ => rfl) rfl
  | @addValidator addr =>
    refine h.clear addr ?_ ?_ rfl
    · simp
    · intro a other
      simp [other]
  | registerValidator _ _ _ free =>
    refine h.take m.sender free ?_ ?_ rfl
    · simp [State.registered, State.addActiveValidator]
    · intro a other
      simp [State.registered, State.addActiveValidator, other]
  | updateValidator _ free =>
    split <;>
    · refine h.take m.sender free ?_ ?_ rfl
      · simp [rekeyed, addActiveValidator]
      · intro a other
        simp [rekeyed, addActiveValidator, other]
  | resignValidator =>
    refine h.congr ?_ rfl
    intro a
    by_cases same : a = m.sender
    · simp [same]
    · simp [same]
  | votes change =>
    have same := SameRegistry.of_votes change
    exact h.congr same.blsPublicKey same.blsPublicKeys

theorem initial_keys : (initial owner registrationFee).Keys precompiles :=
  ⟨fun _ nonempty => absurd rfl nonempty, fun _ _ _ nonempty => absurd rfl nonempty⟩

/-- What changes keep, the calls of a log keep. -/
theorem run_keeps {P : State → Prop} {log : List Message}
    (keep : ∀ m s s', Change precompiles m s s' → P s → P s') (start : P s)
    (ran : run (answer precompiles) s log = some s') : P s' := by
  have reach : Reach (answer precompiles) (fun _ _ => True) s s' :=
    .of_run ran (.of_forall fun _ _ _ => trivial)
  refine reach.invariant start ?_
  intro s m s' holds _ answered
  exact step_keeps (keep m) (answer_eq_some.mp answered) holds

/-- A key that is reserved cannot be taken. -/
theorem step_of_reserved {key proofOfPossession : Bytes}
    (h : s.blsPublicKeys (precompiles.keccak256 key))
    (call : m.call = .registerValidator key proofOfPossession ∨
      m.call = .updateValidator key proofOfPossession) :
    ∃ r, step precompiles s m = .error r := by
  cases taken : step precompiles s m with
  | error r => exact ⟨r, rfl⟩
  | ok s' =>
    have dispatched := dispatch_of_step taken
    obtain call | call := call
    · simp only [dispatch, call] at dispatched
      obtain ⟨-, -, free, -, -⟩ := registerValidator_eq_ok dispatched
      exact absurd (free.symm.trans h) Bool.false_ne_true
    · simp only [dispatch, call] at dispatched
      obtain ⟨-, free, -, -⟩ := updateValidator_eq_ok dispatched
      exact absurd (free.symm.trans h) Bool.false_ne_true

/-- No two validators hold the same key, and nobody can take a key that a validator has held
after any of the calls so far. -/
theorem bls_keys_unique (h : Reachable precompiles (fun _ => True) owner registrationFee x) :
    (∀ a b, (x.state.validatorsData a).blsPublicKey = (x.state.validatorsData b).blsPublicKey →
      (x.state.validatorsData a).blsPublicKey ≠ [] → a = b) ∧
    ∀ before after s a, x.log = before ++ after →
      run (answer precompiles) (initial owner registrationFee) before = some s →
      (s.validatorsData a).blsPublicKey ≠ [] →
      ∀ (m : Message) (proofOfPossession : Bytes),
        m.call = .registerValidator (s.validatorsData a).blsPublicKey proofOfPossession ∨
        m.call = .updateValidator (s.validatorsData a).blsPublicKey proofOfPossession →
        ∃ r, step precompiles x.state m = .error r := by
  have keep : ∀ m s s', Change precompiles m s s' → s.Keys precompiles → s'.Keys precompiles :=
    fun _ _ _ change => change.keys
  have ran := Frames.Reach.run h
  constructor
  · exact (run_keeps keep initial_keys ran).unique
  · intro before after s a log reached nonempty m proofOfPossession call
    rw [log, run_append, reached] at ran
    have reserved := (run_keeps keep initial_keys reached).reserved a nonempty
    have still := run_keeps (P := fun s' => s'.blsPublicKeys
      (precompiles.keccak256 (s.validatorsData a).blsPublicKey))
      (fun _ _ _ change => change.reserved) reserved ran
    exact step_of_reserved still call

/-- A validator replaces its key and resigns, and another one wants the old key. -/
theorem bls_keys_unique_sample :
    ∃ x r, Reachable Sample.precompiles (fun _ => True) 1 0 x ∧ x.log.length = 4 ∧
      step Sample.precompiles x.state (Sample.register 4 (by decide) 2 0) = .error r := by
  let first := Sample.register 2 (by decide) 2 0
  let later := [ Sample.register 3 (by decide) 3 0,
    Sample.message 2 (by decide) (.updateValidator (Sample.key 5) (List.replicate 96 5)) 0,
    Sample.message 2 (by decide) .resignValidator 0]
  obtain ⟨x, reached, log⟩ := Sample.exists_reachable (fun _ => True) 0
    ((first :: later).map .call) (fun x => x.log) ([first] ++ later) rfl
    (by simp [Frames.Event.Sends])
  obtain ⟨s, ran, held⟩ : ∃ s, run (answer Sample.precompiles) (initial 1 0) [first] =
      some s ∧ (s.validatorsData 2).blsPublicKey = Sample.key 2 :=
    Option.map_eq_some_iff.mp (by decide +kernel)
  obtain ⟨r, rejected⟩ := (bls_keys_unique reached).2 [first] later s 2 log ran
    (by rw [held]; decide) (Sample.register 4 (by decide) 2 0) (List.replicate 96 2)
    (.inl (by rw [held]; rfl))
  exact ⟨x, r, reached, by rw [log]; rfl, rejected⟩

end Mainsail.ConsensusV1
