import Mainsail.Consensus.Heights

/-!
# The stored state

What a crash can leave of the state record. No stored state is beyond the block number of a
restart, and the block number of the store never falls behind the state handed over last.
So a write of a proposal or a vote leaves the position of a restart as it is: where it
clears the tables, the state it clears was of an earlier block number.
-/

namespace Mainsail

open Tables Service Position

namespace Service

variable {s s' : Service} {r : Record} {blockNumber : Nat}

/-- `#blockNumber` is at or above the state handed over last. -/
def Covers (s : Service) : Prop :=
  ∀ stored, s.latest.state = some stored → stored.blockNumber ≤ s.blockNumber

theorem covers_initializeFrom (t : Tables) : (initializeFrom t).Covers := by
  intro stored present
  have : t.state = some stored := present
  simp [initializeFrom, this]

theorem Covers.flush (h : s.Covers) (flushed : s.flush = some s') : s'.Covers := by
  unfold Covers
  rw [latest_flush flushed, blockNumber_flush flushed]
  exact h

/-- The state record after a write. -/
theorem state_latest_write : (s.write r).latest.state =
    match r with
    | .state data => some data
    | _ => if s.blockNumber < r.blockNumber then none else s.latest.state := by
  rw [latest_write]
  by_cases gt : s.blockNumber < r.blockNumber <;>
    cases r <;> simp [apply, put, gt, empty]

/-- A write that is no state record keeps the state or clears it. -/
theorem state_latest_write_of_ne (notState : r.key ≠ .state) : (s.write r).latest.state =
    if s.blockNumber < r.blockNumber then none else s.latest.state := by
  rw [state_latest_write]
  cases r with
  | state data => exact absurd rfl notState
  | proposal | message => rfl

theorem Covers.write (h : s.Covers) : (s.write r).Covers := by
  intro stored present
  change stored.blockNumber ≤ max s.blockNumber r.blockNumber
  rw [state_latest_write] at present
  split at present
  · cases present
    exact Nat.le_max_right ..
  · split at present
    · contradiction
    · exact Nat.le_trans (h stored present) (Nat.le_max_left ..)

/-- A proposal or a vote up to the block number of a restart does not change where the
restart comes back to. -/
theorem Covers.restorePosition_write (h : s.Covers) (notState : r.key ≠ .state)
    (le : r.blockNumber ≤ blockNumber) :
    (s.write r).latest.restorePosition blockNumber = s.latest.restorePosition blockNumber := by
  have state := state_latest_write_of_ne (s := s) notState
  split at state
  · next clears =>
      -- The state that is cleared belongs to a lower block number.
      rw [restorePosition_of_ne (by simp [state]), restorePosition_of_ne]
      intro stored present
      have := h stored present
      omega
  · simp only [restorePosition, state]

/-- Nor does it change the lock the restart comes back with. -/
theorem Covers.restoreLock_write (h : s.Covers) (notState : r.key ≠ .state)
    (le : r.blockNumber ≤ blockNumber) :
    (s.write r).latest.restoreLock blockNumber = s.latest.restoreLock blockNumber := by
  have state := state_latest_write_of_ne (s := s) notState
  split at state
  · rw [restoreLock_of_ne (by simp [state]), restoreLock_of_ne]
    intro stored present
    have := h stored present
    omega
  · simp only [restoreLock, state]

/-- A state record up to the block number of a restart brings the restart at least to its
own position. -/
theorem position_le_restorePosition_write {data : StateData} (le : data.blockNumber ≤ blockNumber) :
    data.position ≤ (s.write (.state data)).latest.restorePosition blockNumber := by
  have state : (s.write (.state data)).latest.state = some data := state_latest_write
  by_cases same : data.blockNumber = blockNumber
  · rw [restorePosition_of_eq state same]
    exact le_refl _
  · rw [restorePosition_of_ne]
    · exact .inl (by
        change data.blockNumber < blockNumber
        omega)
    · intro stored present
      obtain rfl := Option.some.inj (state.symm.trans present)
      exact same

end Service

/-- A persisted change moves the position forward. -/
theorem Shift.position_le {env : Env} {c : Core} {round : Nat} {step : Step}
    {locked valid : Option RoundKey} {next : Next} (h : Shift env c round step locked valid next) :
    c.position ≤ ⟨c.blockNumber, round, step⟩ := by
  cases h <;> simp_all [le_def, Core.position]

namespace Core

/-- No content a crash can leave has a state beyond the block number of the restart. -/
structure Recorded (c : Core) : Prop where
  state_le : c.storage.Always fun t => ∀ stored, t.state = some stored → stored.blockNumber ≤ c.next
  covers : c.storage.Covers

variable {env : Env} {c c' : Core} {e : Event}

theorem recorded_off {database : BlockHeader} {tables : Tables} {votes : List (Message × Bytes)}
    {proposals : List Proposal} {blocks : List BlockHeader}
    (h : ∀ stored, tables.state = some stored → stored.blockNumber ≤ database.number + 1) :
    (off database tables votes proposals blocks).Recorded where
  state_le := h
  covers := covers_initializeFrom tables

theorem Recorded.write (h : c.Recorded) {r : Record} (le : r.blockNumber ≤ c.next) :
    Recorded { c with storage := c.storage.write r } where
  state_le := by
    refine always_write.mpr ⟨h.state_le, ?_⟩
    intro stored present
    rw [state_latest_write] at present
    split at present
    · cases present
      exact le
    · split at present
      · contradiction
      · exact h.state_le.latest stored present
  covers := h.covers.write

theorem Recorded.move (h : c.Recorded) (heights : c.Heights) (up : c.running = true)
    (move : Move env c e c') : c'.Recorded := by
  have bound := heights.blockNumber_le up
  cases move with
  | @persist _ round step locked valid next =>
    let moved :=
      { c with round := round, step := step, lockedValue := locked, validValue := valid }
    have stored := h.write (r := .state moved.getState) bound
    exact { stored with }
  | saveVote at_ => exact { h.write (r := .message _) (heights.signed_le up at_) with }
  | addMessage member => exact { h.write (r := .message _) (heights.message_le up member) with }
  | addProposal member => exact { h.write (r := .proposal _) (heights.proposal_le up member) with }
  | saveProposal found resolved =>
    exact { h.write (r := .proposal _)
      (heights.resolved_le _ (mem_of_findBuild found).1 _ resolved) with }
  | @commitUnit _ block at_ =>
    have le := heights.next_le up at_
    exact { h with
      state_le := h.state_le.imp fun t bounded stored present =>
        Nat.le_trans (bounded stored present) le }
  | flush flushed =>
    exact { state_le := h.state_le.flush flushed, covers := h.covers.flush flushed }
  | crash => exact recorded_off (h.state_le.crash _)
  | _ => exact { h with }

/-- The state record of a handler brings a restart at least to the position it has moved to. -/
theorem Heights.reached (heights : c.Heights) (up : c.running = true) (round : Nat) (step : Step)
    (locked valid : Option Nat) : (⟨c.blockNumber, round, step⟩ : Position) ≤
      (c.storage.write (.state ⟨c.blockNumber, round, step, locked, valid⟩)).latest.restorePosition
        c.next :=
  @position_le_restorePosition_write _ _ ⟨c.blockNumber, round, step, locked, valid⟩
    (heights.blockNumber_le up)

/-- A crash does not take the node back before this position. -/
def Safe (c : Core) (position : Position) : Prop :=
  c.storage.Always fun t => position ≤ t.restorePosition c.next

theorem Safe.write {position : Position} (h : c.Safe position) (recorded : c.Recorded) {r : Record}
    (notState : r.key ≠ .state) (le : r.blockNumber ≤ c.next) :
    Safe { c with storage := c.storage.write r } position := by
  refine always_write.mpr ⟨h, ?_⟩
  change position ≤ (c.storage.write r).latest.restorePosition c.next
  rw [recorded.covers.restorePosition_write notState le]
  exact h.latest

/-- What is safe stays safe: a state record of the node is at or after its position, and a
commit brings a restart to the next block number. -/
theorem Safe.move {position : Position} (h : c.Safe position) (le : position ≤ c.position)
    (heights : c.Heights) (recorded : c.Recorded) (up : c.running = true)
    (move : Move env c e c') (up' : c'.running = true) : c'.Safe position := by
  cases move with
  | @persist _ round step locked valid next _ shift =>
    refine always_write.mpr ⟨h, ?_⟩
    exact le_trans (le_trans le shift.position_le) (heights.reached up round step _ _)
  | saveVote at_ =>
    exact h.write recorded (r := .message _) (Record.key_message_ne _) (heights.signed_le up at_)
  | addMessage member =>
    exact h.write recorded (r := .message _) (Record.key_message_ne _)
      (heights.message_le up member)
  | addProposal member =>
    exact h.write recorded (r := .proposal _) (Record.key_proposal_ne _)
      (heights.proposal_le up member)
  | saveProposal found resolved =>
    exact h.write recorded (r := .proposal _) (Record.key_proposal_ne _)
      (heights.resolved_le _ (mem_of_findBuild found).1 _ resolved)
  | @commitUnit _ block at_ =>
    have known := heights.commitUnit_eq at_
    refine h.imp ?_
    intro t _
    refine .inl ?_
    rw [restorePosition_blockNumber]
    change position.blockNumber < block.number + 1
    simp only [le_def, Core.position] at le
    omega
  | flush flushed => exact h.flush flushed
  | crash => contradiction
  | _ => exact h

open Bootstrapper

/-- A restart keeps the store, or clears it and waits until that is durable. -/
theorem restored_storage (state : Restored) : (c.restored state).storage = c.storage ∨
      (c.restored state).storage.tables = .empty ∧ (c.restored state).storage.queue = [] := by
  by_cases clears : state.clears = true
  · refine .inr ⟨?_, ?_⟩ <;>
      simp [Core.restored, clears, settle, clear, latest, apply]
  · exact .inl (by simp [Core.restored, clears])

theorem always_restored {P : Tables → Prop} (h : c.storage.Always P) (empty : P .empty)
    (state : Restored) : (c.restored state).storage.Always P := by
  obtain kept | ⟨tables, queue⟩ := restored_storage (c := c) state
  · rwa [kept]
  · rw [Always, tables, queue]
    exact empty

theorem Recorded.restored (h : c.Recorded) (state : Restored) : (c.restored state).Recorded := by
  refine ⟨always_restored h.state_le (by simp [empty]) state, ?_⟩
  obtain kept | ⟨tables, queue⟩ := restored_storage (c := c) state
  · rw [kept]
    exact h.covers
  · intro stored present
    simp [latest, tables, queue, empty] at present

/-- Without a stored state beyond its block number, a restart over a readable store does not
clear it. -/
theorem Recorded.storage_restored (h : c.Recorded) {parses : Bool}
    {state : Restored}
    (booted : bootstrap env.roundValidators (fun _ => parses) c.database
      (some c.storage.tables) = .ok state) : (c.restored state).storage = c.storage := by
  have kept : state.clears = false := by
    obtain ⟨repo, -, ⟨stored, -, -, restored⟩ | ⟨-, clears, rfl, ahead⟩⟩ :=
      bootstrap_eq_ok booted
    · obtain ⟨_, _, -, -, rfl⟩ := restoreState_eq_ok restored
      rfl
    · by_contra clearing
      obtain ⟨stored, present, beyond⟩ :=
        ahead (by simpa [initialState] using clearing)
      have bounded : stored.blockNumber ≤ c.next :=
        WriteQueue.Always.here h.state_le stored present
      unfold next at bounded
      omega
  simp [Core.restored, kept]

end Core

end Mainsail
