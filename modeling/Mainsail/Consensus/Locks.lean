import Mainsail.Consensus.Voting

/-!
# Position and locks

The invariant of a consensus instance: its position only moves forward, its locked round is
at most its valid round and that at most its round, and the round states it is locked on
and found valid belong to its block number and hold the proof. The proof is what re-proposing
and the refusal of the bootstrapper rest on. It is kept because round states only grow
until the block number changes, and the locks are dropped with it.
-/

namespace Mainsail

open Bootstrapper Option Nat

/-- The order of the rounds of a state. -/
structure StateData.Ordered (s : StateData) : Prop where
  locked_le : ∀ l, s.lockedRound = some l → ∃ v, s.validRound = some v ∧ l ≤ v
  valid_le : ∀ v, s.validRound = some v → v ≤ s.round
  valid_lt : ∀ v, s.validRound = some v → s.step ≠ .precommit → v < s.round

namespace Core

variable {env : Env} {c c' : Core} {e : Event}

/-- This round state is of the current block number and shows more than two thirds prevotes
for its parsed proposal. -/
def Proven (env : Env) (c : Core) (key : RoundKey) : Prop :=
  key.blockNumber = c.blockNumber ∧
    (c.roundStates key).hasMajorityPrevotes (env.roundValidators key.blockNumber) = true

structure Locks (env : Env) (c : Core) : Prop where
  stored : c.storage.Always fun t => ∀ s, t.state = some s → s.Ordered
  ordered : c.running = true → c.getState.Ordered
  locked : c.running = true → ∀ key, c.lockedValue = some key → c.Proven env key
  valid : c.running = true → ∀ key, c.validValue = some key → c.Proven env key

theorem locks_off {database : BlockHeader} {tables : Tables} {votes : List (Message × Bytes)}
    {proposals : List Proposal} {blocks : List BlockHeader}
    (h : ∀ s, tables.state = some s → s.Ordered) :
    (off database tables votes proposals blocks).Locks env where
  stored := h
  ordered := by simp [off]
  locked := by simp [off]
  valid := by simp [off]

theorem Locks.write (h : c.Locks env) {r : Record} (notState : r.key ≠ .state) :
    (c.storage.write r).Always fun t => ∀ s, t.state = some s → s.Ordered := by
  refine Service.always_write.mpr ⟨h.stored, ?_⟩
  intro s present
  rw [Service.state_latest_write_of_ne notState] at present
  split at present
  · contradiction
  · exact h.stored.latest s present

/-- The round states grow, and the locks stay. -/
theorem Locks.grow (h : c.Locks env) {repo : Repository} (grows : c.roundStates.Grows repo) :
    Locks env { c with roundStates := repo } :=
  { h with
    locked := fun up key held => by
      obtain ⟨number, majority⟩ := h.locked up key held
      exact ⟨number, (grows key).hasMajorityPrevotes majority⟩
    valid := fun up key held => by
      obtain ⟨number, majority⟩ := h.valid up key held
      exact ⟨number, (grows key).hasMajorityPrevotes majority⟩ }

variable {round : Nat} {locked valid : Option RoundKey} {next : Next}

/-- The rounds of a persisted state are in order. -/
theorem StateData.Ordered.shift (h : c.getState.Ordered) {step : Step}
    (shift : Shift env c round step locked valid next) :
    StateData.Ordered ⟨c.blockNumber, round, step, locked.map (·.round), valid.map (·.round)⟩ := by
  cases shift with
  | proposal at_ | proposalLocked at_ | proposeTimeout at_ =>
    exact { h with valid_lt := fun v valid _ => h.valid_lt v valid (by simp [getState, at_]) }
  | nil => exact { h with valid_lt := by simp }
  | lock =>
    exact {
      locked_le := fun l locked => ⟨c.round, rfl, le_of_eq (some.inj locked).symm⟩
      valid_le := fun v valid => le_of_eq (some.inj valid).symm
      valid_lt := by simp }
  | valid =>
    exact {
      locked_le := fun l locked => by
        obtain ⟨v, valid, le⟩ := h.locked_le l locked
        exact ⟨c.round, rfl, le_trans le (h.valid_le v valid)⟩
      valid_le := fun v valid => le_of_eq (some.inj valid).symm
      valid_lt := by simp }
  | round higher =>
    exact { h with
      valid_le := fun v valid => le_trans (h.valid_le v valid) (le_of_lt higher)
      valid_lt := fun v valid _ => lt_of_le_of_lt (h.valid_le v valid) higher }

section

variable (h : c.Locks env)
include h

theorem Locks.persist (up : c.running = true) {step : Step}
    (shift : Shift env c round step locked valid next) :
    Locks env ({ c with
      round := round
      step := step
      lockedValue := locked
      validValue := valid }.persistState next) := by
  have ordered := StateData.Ordered.shift (h.ordered up) shift
  constructor
  · refine Service.always_write.mpr ⟨h.stored, ?_⟩
    intro s present
    rw [Service.state_latest_write] at present
    cases present
    exact ordered
  · exact fun _ => ordered
  · intro _ key held
    cases shift with
    | lock _ majority =>
      cases held
      exact ⟨rfl, majority⟩
    | _ => exact h.locked up key held
  · intro _ key held
    cases shift with
    | lock _ majority | valid _ majority =>
      cases held
      exact ⟨rfl, majority⟩
    | _ => exact h.valid up key held

theorem Locks.move (up : c.running = true) (move : Move env c e c') :
    c'.Locks env := by
  cases move with
  | persist _ shift => exact h.persist up shift
  | deserialized =>
    exact { h.grow (Repository.grows_set (RoundState.grows_deserializePayload _)) with }
  | failed | processed =>
    exact { h.grow (Repository.grows_set (RoundState.grows_setProcessorResult _ _)) with }
  | saveVote => exact { h with stored := h.write (Record.key_message_ne _) }
  | addMessage _ added =>
    exact { h.grow (Repository.grows_of_addMessage added) with
      stored := h.write (Record.key_message_ne _) }
  | addProposal _ added =>
    exact { h.grow (Repository.grows_of_addProposal added) with
      stored := h.write (Record.key_proposal_ne _) }
  | saveProposal => exact { h with stored := h.write (Record.key_proposal_ne _) }
  | advance =>
    exact {
      stored := h.stored
      ordered := fun _ => ⟨by simp [getState], by simp [getState], by simp [getState]⟩
      locked := by simp
      valid := by simp }
  | flush flushed => exact { h with stored := h.stored.flush flushed }
  | crash => exact locks_off (h.stored.crash _)
  | _ => exact { h with }

/-- A restart takes over the locks of the stored state, with the proof it has checked. -/
theorem Locks.restart {readable parses : Bool} {state : Restored}
    (booted : bootstrap env.roundValidators (fun _ => parses) c.database
      (if readable then some c.storage.tables else none) = .ok state) :
    (c.restored state).Locks env := by
  have stored := always_restored h.stored (by simp [Tables.empty]) state
  have fresh (repo : Repository) (clears : Bool)
      (is : state = initialState (c.database.number + 1) repo clears) :
      (c.restored state).Locks env := by
    refine ⟨stored, fun _ => ⟨?_, ?_, ?_⟩, ?_, ?_⟩ <;> simp [getState, restored, initialState, is]
  cases readable with
  | false => exact fresh _ _ (Except.ok.inj booted).symm
  | true =>
    obtain ⟨repo, -, ⟨data, present, same, restoring⟩ | ⟨-, clears, is, -⟩⟩ :=
      bootstrap_eq_ok booted
    · obtain ⟨repo₁, repo₂, first, second, rfl⟩ := restoreState_eq_ok restoring
      obtain ⟨-, validMajority⟩ := restoreLock_eq_ok first
      obtain ⟨grows, lockedMajority⟩ := restoreLock_eq_ok second
      have ordered : data.Ordered := WriteQueue.Always.here h.stored data present
      have rounds (o : Option Nat) :
          (o.map (RoundKey.mk (c.database.number + 1))).map (·.round) = o := by
        cases o <;> rfl
      refine ⟨stored, fun _ => ?_, fun _ key held => ?_, fun _ key held => ?_⟩
      · constructor
        · simpa only [getState, restored, rounds] using ordered.locked_le
        · simpa only [getState, restored, rounds] using ordered.valid_le
        · simpa only [getState, restored, rounds] using ordered.valid_lt
      · obtain ⟨r, round, rfl⟩ := map_eq_some_iff.mp held
        exact ⟨same.symm, lockedMajority r round⟩
      · obtain ⟨r, round, rfl⟩ := map_eq_some_iff.mp held
        exact ⟨same.symm, (grows _).hasMajorityPrevotes (validMajority r round)⟩
    · exact fresh _ _ is

theorem Locks.step (step : CoreStep env c e c') : c'.Locks env := by
  cases step with
  | move up move => exact h.move up move
  | restart off same booted restored =>
    subst same restored
    exact h.restart booted

end

theorem locks_start (database : BlockHeader) : (Node.start database).Locks env :=
  locks_off (by simp [Tables.empty])

end Core

/-- The event does not end the process. -/
def Event.Survives : Event → Prop
  | .crash _ => False
  | _ => True

/-- A move that does not end the process takes its position forward. -/
theorem Move.forward {env : Env} {c c' : Core} {e : Event} (move : Move env c e c')
    (up : c.running = true) (survives : e.Survives) :
    c'.running = true ∧ c.position ≤ c'.position := by
  cases move with
  | persist _ shift => exact ⟨up, shift.position_le⟩
  | advance => exact ⟨up, .inl (lt_succ_self _)⟩
  | crash => contradiction
  | _ => exact ⟨up, Position.le_refl _⟩

namespace Node

variable {env : Env} {database : BlockHeader} {n n' : Node}

/-- Over the life of one process the position never decreases. -/
theorem position_le_of_survives
    (run : Transition.Reach (Node.transition env) (fun _ e => e.Survives) n n')
    (up : n.running = true) : n'.running = true ∧ n.position ≤ n'.position := by
  refine run.invariant (P := fun x => x.running = true ∧ n.position ≤ x.position)
    ⟨up, Position.le_refl _⟩ ?_
  rintro x e x' ⟨running, le⟩ survives taken
  cases transition_step taken with
  | move _ move =>
    obtain ⟨running', forward⟩ := move.forward running survives
    exact ⟨running', Position.le_trans le forward⟩
  | restart off => simp [running] at off

theorem locks_of_runs {ok : Node → Event → Prop} (run : Runs env ok database n) : n.Locks env :=
  run.invariant (P := fun n => n.Locks env) (Core.locks_start database)
    fun _ _ _ locks _ taken => locks.step (transition_step taken)

/-- The invariant of a consensus instance, in every state of every run: from here on its
position does not decrease, its rounds are in order, and what it is locked on and found
valid is of its block number and proven. -/
theorem consensus_invariant (run : Runs env (fun _ _ => True) database n) (up : n.running = true) :
    (∀ n', Transition.Reach (Node.transition env) (fun _ e => e.Survives) n n' →
      n.position ≤ n'.position) ∧
    n.getState.Ordered ∧
    ∀ key, n.lockedValue = some key ∨ n.validValue = some key →
      key.blockNumber = n.blockNumber ∧ ∃ p, (n.roundStates key).proposal = some p ∧
        (n.roundStates key).isDataDeserialized = true ∧
        isMajority ((n.roundStates key).prevotes.count (some p.blockHeader.hash))
          (env.roundValidators n.blockNumber) = true := by
  have locks := locks_of_runs run
  refine ⟨fun n' later => (position_le_of_survives later up).2, locks.ordered up, ?_⟩
  intro key held
  have proven : n.Proven env key := held.elim (locks.locked up key) (locks.valid up key)
  refine ⟨proven.1, ?_⟩
  rw [← proven.1]
  exact RoundState.hasMajorityPrevotes_iff.mp proven.2

/-- The block of the single validator in round 0. -/
def soloProposal : Proposal := .fresh ⟨1, [7], 0⟩ 0 0 []

def soloPrevote : Message := ⟨.prevote, 1, 0, some [7], 0, []⟩

/-- The single validator builds its proposal and hands it over. -/
def proposes : List Event :=
  [.restart true true, succeeds, .resume ⟨false, false, 0⟩, .abort, .forgeBlock 0,
    .proposalBuilt 0 (some ⟨[7], 0, ⟨[], []⟩, []⟩), .onTimeoutBlockPrepare, .proposalAwaited 0,
    .flush, .proposalSaved 1 soloProposal]

/-- It prevotes its proposal, and its own prevote is the majority it locks on. -/
def locksRoundZero : List Event :=
  proposes ++
  [.receiveProposal soloProposal, .proposalVerified soloProposal true, .handle ⟨1, 0⟩] ++
  List.replicate 5 succeeds ++ [.flush, .flush] ++ List.replicate 4 succeeds ++
  [.flush, succeeds, succeeds, .processMessage soloPrevote, .messageVerified soloPrevote true,
    .abort, .handle ⟨1, 0⟩] ++ List.replicate 4 succeeds

theorem consensus_invariant_locksRoundZero :
    ∃ n, Runs soloEnv (fun _ _ => True) genesisHeader n ∧ n.lockedValue = some ⟨1, 0⟩ ∧
      n.getState.Ordered ∧ ∃ p, (n.roundStates ⟨1, 0⟩).proposal = some p ∧
        (n.roundStates ⟨1, 0⟩).isDataDeserialized = true ∧
        isMajority ((n.roundStates ⟨1, 0⟩).prevotes.count (some p.blockHeader.hash)) 1 = true := by
  have evaluated : (Transition.run (Node.transition soloEnv) (Node.start genesisHeader)
      locksRoundZero).map (fun n => (n.running, n.lockedValue)) = some (true, some ⟨1, 0⟩) := by
    decide +kernel
  obtain ⟨n, run, observed⟩ := Transition.Reach.exists_of_run evaluated
    (.of_forall fun _ _ _ => trivial)
  obtain ⟨up, locked⟩ := Prod.mk.inj observed
  obtain ⟨-, ordered, proven⟩ := consensus_invariant run up
  exact ⟨n, run, locked, ordered, (proven _ (.inl locked)).2⟩

end Node

end Mainsail
