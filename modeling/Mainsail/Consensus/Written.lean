import Mainsail.Consensus.Building

/-!
# What a process has written

`initialize` takes the block number of the store from the state record alone, so a process
may restart in a block number whose proposal is stored while the store still stands at a
lower one. Then the first write of the process clears that proposal. The facts here say
what such a process looks like: it has not left the beginning of its block number, and it
holds the stored proposal in memory.
-/

namespace Mainsail

open Service Bootstrapper Nat

namespace Service

theorem blockNumber_write_le (s : Service) (r : Record) :
    s.blockNumber ≤ (s.write r).blockNumber ∧ r.blockNumber ≤ (s.write r).blockNumber :=
  ⟨le_max_left .., le_max_right ..⟩

end Service

namespace Core

variable {env : Env} {c c' : Core} {e : Event}

/-- A handler between its state record and the last of its votes. -/
def Recording (c : Core) : Prop :=
  match c.continuation with
  | some (.persisted ..) => True
  | some (.next _) => True
  | some (.votes ..) => True
  | some (.signed ..) => True
  | some (.saved ..) => True
  | _ => False

/-- The stored proposal of round 0 that a write by this process would clear is in memory. -/
def Loaded (c : Core) : Prop :=
  ∀ p ∈ c.storage.latest.proposals, p.roundKey = ⟨c.blockNumber, 0⟩ →
    (c.roundStates ⟨c.blockNumber, 0⟩).hasProposal = true

structure Written (c : Core) : Prop where
  stored_le : c.storage.Always fun t => ∀ r, t.holds r → r.blockNumber ≤ c.next
  latest_le : c.running = true → ∀ r, c.storage.latest.holds r → r.blockNumber ≤ c.blockNumber
  unwritten : c.running = true → c.storage.blockNumber < c.blockNumber →
    c.position = ⟨c.blockNumber, 0, .propose⟩ ∧ c.Loaded
  recording : c.Recording → c.blockNumber ≤ c.storage.blockNumber

theorem written_off {database : BlockHeader} {tables : Tables} {votes : List (Message × Bytes)}
    {proposals : List Proposal} {blocks : List BlockHeader}
    (h : ∀ r, tables.holds r → r.blockNumber ≤ database.number + 1) :
    (off database tables votes proposals blocks).Written where
  stored_le := h
  latest_le := by simp [off]
  unwritten := by simp [off]
  recording := by simp [off, Recording]

variable (h : c.Written)
include h

/-- After a write of its current block number the store stands at that block number. -/
theorem Written.write (up : c.running = true) (bound : c.blockNumber ≤ c.next)
    {r : Record} (number : r.blockNumber = c.blockNumber) (storage : c'.storage = c.storage.write r)
    (database : c'.database = c.database) (blockNumber : c'.blockNumber = c.blockNumber) :
    c'.Written := by
  have stands : c'.blockNumber ≤ c'.storage.blockNumber := by
    rw [storage, blockNumber, ← number]
    exact (blockNumber_write_le ..).2
  have latest : ∀ x, (c.storage.write r).latest.holds x → x.blockNumber ≤ c.blockNumber := by
    intro x held
    rcases eq_or_holds_of_latest_write held with rfl | ⟨-, old, -⟩
    · exact le_of_eq number
    · exact h.latest_le up x old
  constructor
  · rw [storage]
    refine always_write.mpr ⟨?_, ?_⟩
    · simpa only [Core.next, database] using h.stored_le
    · intro x held
      have := latest x held
      simp only [Core.next, database]
      exact le_trans this bound
  · intro _
    rw [storage, blockNumber]
    exact latest
  · intro _ behind
    omega
  · exact fun _ => stands

/-- Round states that grow keep the loaded proposal. -/
theorem Written.grow {repo : Repository} (grows : c.roundStates.Grows repo) :
    Written { c with roundStates := repo } :=
  { h with
    unwritten := fun up behind => by
      obtain ⟨position, loaded⟩ := h.unwritten up behind
      exact ⟨position, fun p member same => (grows _).hasProposal (loaded p member same)⟩ }

theorem Written.move (heights : c.Heights) (building : c.Building)
    (up : c.running = true) (move : Move env c e c') : c'.Written := by
  have bound := heights.blockNumber_le up
  cases move with
  | persist => exact h.write up bound (r := .state _) rfl rfl rfl rfl
  | saveVote at_ =>
    exact h.write up bound (r := .message _) (heights.signed_eq at_) rfl rfl rfl
  | addMessage member =>
    exact h.write up bound (r := .message _) (heights.message_eq _ member) rfl rfl rfl
  | addProposal member =>
    exact h.write up bound (r := .proposal _) (heights.proposal_eq _ member) rfl rfl rfl
  | saveProposal found resolved pending =>
    exact h.write up bound (r := .proposal _) (building.number_of_live found resolved pending)
      rfl rfl rfl
  | deserialized =>
    exact { h.grow (Repository.grows_set (RoundState.grows_deserializePayload _)) with
      recording := by simp [Recording] }
  | failed | processed =>
    exact { h.grow (Repository.grows_set (RoundState.grows_setProcessorResult _ _)) with
      recording := by simp [Recording, setResult] }
  | @commitUnit _ block at_ =>
    have le := heights.next_le up at_
    exact { h with
      stored_le := h.stored_le.imp fun t bounded r held => le_trans (bounded r held) le
      recording := by simp [Recording] }
  | advance disposed =>
    refine { h with latest_le := ?_, unwritten := ?_, recording := ?_ }
    · exact fun _ r held => le_succ_of_le (h.latest_le up r held)
    · intro _ _
      refine ⟨rfl, ?_⟩
      intro p member same
      have le : p.blockHeader.number ≤ c.blockNumber := h.latest_le up (.proposal p) member
      have number : p.blockHeader.number = c.blockNumber + 1 := congrArg RoundKey.blockNumber same
      omega
    · cases disposed <;> simp [Recording]
  | begin disposed => exact { h with recording := by cases disposed <;> simp [Recording] }
  | persisted at_ | cast at_ | sign at_ | voteSaved at_ =>
    exact { h with recording := fun _ => h.recording (by simp [Recording, at_]) }
  | leave | throw | deserialize | lockProofVerified | processBlock | decideCommit | decide |
    lockCommit | storeCommit | build =>
      exact { h with recording := by simp [Recording] }
  | flush flushed =>
    have latest := latest_flush flushed
    have number := blockNumber_flush flushed
    refine ⟨h.stored_le.flush flushed, ?_, ?_, ?_⟩
    · simpa only [latest] using h.latest_le
    · intro _ behind
      obtain ⟨position, loaded⟩ := h.unwritten up (number ▸ behind)
      exact ⟨position, fun p member => loaded p (latest ▸ member)⟩
    · intro recording
      rw [number]
      exact h.recording recording
  | crash => exact written_off (h.stored_le.crash _)
  | _ => exact { h with }

theorem Written.restart (down : c.Down) (recorded : c.Recorded)
    (off : c.running = false) {parses : Bool} {state : Restored}
    (booted : bootstrap env.roundValidators (fun _ => parses) c.database
      (some c.storage.tables) = .ok state) : (c.restored state).Written := by
  have kept := recorded.storage_restored booted
  have position := bootstrap_position booted
  have number := bootstrap_some_blockNumber booted
  have start := down.storage off
  have bounded : ∀ r, c.storage.tables.holds r → r.blockNumber ≤ c.next := h.stored_le.here
  refine ⟨?_, ?_, ?_, by simp [Recording, restored]⟩
  · rw [kept]
    exact h.stored_le
  · intro _
    rw [kept, start, latest_initializeFrom]
    exact fun r held => le_trans (bounded r held) (le_of_eq number.symm)
  · intro _ behind
    rw [kept, start] at behind
    have other : ∀ stored, c.storage.tables.state = some stored →
        stored.blockNumber ≠ c.database.number + 1 := by
      intro stored present same
      simp only [initializeFrom, present] at behind
      exact absurd (behind.trans_eq number) (by omega)
    refine ⟨?_, ?_⟩
    · rw [Tables.restorePosition_of_ne other] at position
      exact position.trans (by rw [← number]; rfl)
    · intro p member same
      rw [kept, start, latest_initializeFrom] at member
      have height : p.blockHeader.number = c.database.number + 1 :=
        (congrArg RoundKey.blockNumber same).trans number
      have loaded := (loads_of_bootstrap booted).proposal p member height
      change (state.roundStates ⟨state.blockNumber, 0⟩).hasProposal = true
      rw [← show p.roundKey = ⟨state.blockNumber, 0⟩ from same]
      simp [RoundState.hasProposal, loaded]

end Core

end Mainsail
