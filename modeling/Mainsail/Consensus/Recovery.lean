import Mainsail.Consensus.Proposing

/-!
# A crashed node can restart

A lock is persisted only while its proof is in memory, and whatever is in memory was loaded
from the store or written to it when it came in. So the store proves every lock it names,
unless a write takes a record of the proof away: by clearing the tables, or by replacing a
record under the same key. A write clears records of its own block number only in a
process that has found them without a state record, which `FindsState` excludes. It replaces
a record of the proof only by the same record, as the validators of this node sign nothing
twice and `Authentic` leaves their signatures to them.
-/

namespace Mainsail

open RoundState Service Record Bootstrapper Repository Node Option Nat List

namespace Core

variable {env : Env} {c c' : Core} {e : Event}

/-- The signatures of the validators of this node verify only for what they signed. -/
def Authentic (env : Env) (c : Core) : Event → Prop
  | .messageVerified m true => m.validatorIndex ∈ env.registered m.blockNumber →
      m ∈ c.signedVotes.map (·.1)
  | .proposalVerified p true => p.validatorIndex ∈ env.registered p.blockHeader.number →
      p ∈ c.handedProposals ∨ (c.roundStates p.roundKey).proposal = some p
  | _ => True

instance (env : Env) (c : Core) : (e : Event) → Decidable (c.Authentic env e) := by
  rintro ⟨⟩
  case messageVerified _ valid | proposalVerified _ valid =>
    revert valid
    rintro ⟨⟩
    · exact inferInstanceAs (Decidable True)
    · exact inferInstanceAs (Decidable (_ ∈ env.registered _ → _))
  all_goals exact inferInstanceAs (Decidable True)

/-- A restart finds the state record of its block number, or no other record of it either. -/
def FindsState (c : Core) : Event → Prop
  | .restart .. => (∃ stored ∈ c.storage.tables.state, stored.blockNumber = c.next) ∨
      (∀ p ∈ c.storage.tables.proposals, p.blockHeader.number ≠ c.next) ∧
      ∀ m ∈ c.storage.tables.messages, m.blockNumber ≠ c.next
  | _ => True

instance (c : Core) : (e : Event) → Decidable (c.FindsState e) := by
  rintro ⟨⟩
  case restart => exact inferInstanceAs (Decidable ((∃ stored ∈ c.storage.tables.state, _) ∨ _ ∧ _))
  all_goals exact inferInstanceAs (Decidable True)

/-! ## Who proposes -/

structure Authored (env : Env) (c : Core) : Prop where
  proposer : ∀ p, .proposal p ∈ c.processing →
    p.validatorIndex = env.proposerIndex p.blockHeader.number p.round
  registered : ∀ id, c.proposalPromise = some id → ∀ b ∈ c.builds, b.id = id →
    env.proposerIndex b.key.blockNumber b.key.round ∈ env.registered b.key.blockNumber
  vacant : ∀ id, c.proposalPromise = some id → ∀ b ∈ c.builds, b.id = id →
    (c.roundStates b.key).proposal = none

theorem authored_off (database : BlockHeader) (tables : Tables) (votes : List (Message × Bytes))
    (proposals : List Proposal) (blocks : List BlockHeader) :
    (off database tables votes proposals blocks).Authored env where
  proposer := by simp [off]
  registered := by simp [off]
  vacant := by simp [off]

variable {p : Proposal} {repo : Repository} {r : Nat} {m : Message}

/-- While the node builds the proposal of a round, no proposal of that round comes in: it
would be signed by the same validator, and claim the round. -/
theorem Authored.vacant_addProposal (h : c.Authored env) (proposing : c.Proposing)
    (member : .proposal p ∈ c.processing) (authentic : c.Authentic env (.proposalVerified p true))
    (added : c.roundStates.addProposal p = some repo) :
    ∀ id, c.proposalPromise = some id → ∀ b ∈ c.builds, b.id = id →
      (repo b.key).proposal = none := by
  intro id pending b built named
  obtain ⟨vacant, -, elsewhere, -⟩ := addProposal_eq_some added
  have other : b.key ≠ p.roundKey := by
    intro same
    have own : p.validatorIndex ∈ env.registered p.blockHeader.number := by
      have registered := h.registered id pending b built named
      rw [same] at registered
      rw [h.proposer p member]
      exact registered
    rcases authentic own with handed | held
    · exact proposing.live id pending b built named p (.inl handed) same.symm
    · rw [vacant] at held
      contradiction
  rw [elsewhere b.key other]
  exact h.vacant id pending b built named

theorem Authored.move (h : c.Authored env) (building : c.Building) (proposing : c.Proposing)
    (authentic : c.Authentic env e) (move : Move env c e c') : c'.Authored env := by
  cases move with
  | begin | advance | dropProposal | saveProposal =>
      exact { h with registered := by simp, vacant := by simp }
  | deserialized =>
    refine { h with vacant := ?_ }
    intro id pending b member named
    rw [(sameRecords_set (sameRecords_deserializePayload _) _).proposal]
    exact h.vacant id pending b member named
  | failed | processed =>
    refine { h with vacant := ?_ }
    intro id pending b member named
    simp only [setResult]
    rw [(sameRecords_set (sameRecords_setProcessorResult _ _) _).proposal]
    exact h.vacant id pending b member named
  | processMessage =>
    refine { h with proposer := ?_ }
    intro p member
    exact h.proposer p (by simpa using member)
  | receiveProposal _ _ proposer =>
    refine { h with proposer := ?_ }
    intro q member
    rcases mem_append.mp member with old | new
    · exact h.proposer q old
    · obtain rfl := Incoming.proposal.inj (mem_singleton.mp new)
      exact proposer
  | addMessage _ added =>
    refine { h with proposer := ?_, vacant := ?_ }
    · exact fun p member => h.proposer p (mem_of_mem_saving member (by simp))
    · intro id pending b member named
      rw [((addMessage_eq_some added).2.2.2.1 b.key).1]
      exact h.vacant id pending b member named
  | addProposal member added =>
    refine { h with
      proposer := ?_
      vacant := h.vacant_addProposal proposing member authentic added }
    exact fun p member => h.proposer p (mem_of_mem_saving member (by simp))
  | dropIncoming =>
    exact { h with proposer := fun p member => h.proposer p (mem_of_mem_erase member) }
  | build _ _ vacant proposer =>
    refine { h with registered := ?_, vacant := ?_ }
    · intro id pending b member named
      cases pending
      rw [building.eq_build member named, build_key]
      exact proposer
    · intro id pending b member named
      cases pending
      rw [building.eq_build member named, build_key]
      simpa [hasProposal] using vacant
  | forge | built =>
    refine { h with registered := ?_, vacant := ?_ }
    · intro id pending b member named
      obtain ⟨b', member', same, key, -⟩ := mem_setStage member
      rw [key]
      exact h.registered id pending b' member' (same ▸ named)
    · intro id pending b member named
      obtain ⟨b', member', same, key, -⟩ := mem_setStage member
      rw [key]
      exact h.vacant id pending b' member' (same ▸ named)
  | crash => exact authored_off ..
  | _ => exact { h with }

theorem authored_restart (down : c.Down) (off : c.running = false) (state : Restored) :
    (c.restored state).Authored env := by
  have memory := down off
  have processing : (c.restored state).processing = [] := congrArg Core.processing memory
  have promise : (c.restored state).proposalPromise = none := congrArg Core.proposalPromise memory
  exact ⟨by simp [processing], by simp [promise], by simp [promise]⟩

/-! ## What is stored -/

structure Retained (env : Env) (c : Core) : Prop where
  proves : c.storage.Always fun t => t.ProvesLocks env.roundValidators c.next
  own : c.storage.Always fun t => ∀ m ∈ t.messages,
    m.validatorIndex ∈ env.registered m.blockNumber → m ∈ c.signedVotes.map (·.1)
  known : c.running = true → ∀ stored, c.storage.latest.state = some stored →
    stored.blockNumber = c.blockNumber →
    ∀ r, stored.lockedRound = some r ∨ stored.validRound = some r →
      (c.roundStates ⟨c.blockNumber, r⟩).hasProposal = true
  proposals : c.running = true → ∀ key p, key.blockNumber = c.blockNumber →
    (c.roundStates key).proposal = some p → p ∈ c.storage.latest.proposals
  prevotes : c.running = true → ∀ key, key.blockNumber = c.blockNumber →
    ∀ m ∈ (c.roundStates key).prevotes.messages, m ∈ c.storage.latest.messages
  loaded : c.running = true → ∀ m ∈ c.storage.latest.messages, m.blockNumber = c.blockNumber →
    m.validatorIndex ∈ env.registered m.blockNumber ∨ (c.roundStates m.roundKey).hasMessage m = true
  fresh : c.running = true → c.storage.blockNumber < c.blockNumber →
    ∀ key, key.blockNumber = c.blockNumber →
      (c.roundStates key).proposal = none ∧ (c.roundStates key).prevotes.messages = []

theorem retained_off {database : BlockHeader} {tables : Tables} {votes : List (Message × Bytes)}
    {proposals : List Proposal} {blocks : List BlockHeader}
    (proves : tables.ProvesLocks env.roundValidators (database.number + 1))
    (own : ∀ m ∈ tables.messages, m.validatorIndex ∈ env.registered m.blockNumber →
      m ∈ votes.map (·.1)) :
    (off database tables votes proposals blocks).Retained env where
  proves := proves
  own := own
  known := by simp [off]
  proposals := by simp [off]
  prevotes := by simp [off]
  loaded := by simp [off]
  fresh := by simp [off]

/-- Where the memory shows a proof, so does the store. -/
theorem Retained.proves_of_majority (h : c.Retained env) (up : c.running = true) {n : Nat}
    (majority : (c.roundStates ⟨c.blockNumber, r⟩).hasMajorityPrevotes n = true) :
    c.storage.latest.Proves n ⟨c.blockNumber, r⟩ := by
  obtain ⟨p, held, -, enough⟩ := hasMajorityPrevotes_iff.mp majority
  have routed := (c.roundStates ⟨c.blockNumber, r⟩).proposal_routed p held
  refine ⟨p, h.proposals up _ p rfl held, routed, ?_⟩
  rw [isMajority_iff, ← Votes.card_voters] at enough
  rw [isMajority_iff]
  refine enough.mono (Finset.card_le_card ?_)
  intro i voted
  obtain ⟨m, member, hash, index⟩ := Votes.mem_voters.mp voted
  obtain ⟨type, round⟩ := (c.roundStates ⟨c.blockNumber, r⟩).prevotes.routed m member
  exact Tables.mem_prevoters.mpr ⟨m, h.prevotes up _ rfl m member, ⟨type, round, hash⟩, index⟩

/-- A proposal or a vote of the current block number is written, and perhaps added to its
round state, and nothing it replaces is lost. -/
theorem Retained.write (h : c.Retained env) (written : c.Written) (up : c.running = true)
    (bound : c.blockNumber ≤ c.next) {r : Record} (notState : r.key ≠ .state)
    (number : r.blockNumber = c.blockNumber) (grows : c.roundStates.Grows repo)
    (proposals : ∀ key p, (repo key).proposal = some p →
      (c.roundStates key).proposal = some p ∨ r = .proposal p)
    (prevotes : ∀ key, ∀ m ∈ (repo key).prevotes.messages,
      m ∈ (c.roundStates key).prevotes.messages ∨ r = .message m)
    (sameProposal : ∀ p ∈ c.storage.latest.proposals, p.blockHeader.number = c.blockNumber →
      (c.roundStates p.roundKey).hasProposal = true → p.key = r.key → r = .proposal p)
    (sameMessage : ∀ m ∈ c.storage.latest.messages, m.blockNumber = c.blockNumber →
      m.key = r.key → r = .message m)
    (own : ∀ m, r = .message m → m.validatorIndex ∈ env.registered m.blockNumber →
      m ∈ c.signedVotes.map (·.1))
    (loaded : ∀ m, r = .message m → m.validatorIndex ∈ env.registered m.blockNumber ∨
      (repo m.roundKey).hasMessage m = true) :
    Retained env { c with storage := c.storage.write r, roundStates := repo } := by
  -- Where the tables are not cleared, the records of a proof stay.
  have proposal_stays (keeps : ¬ c.storage.blockNumber < r.blockNumber) {p : Proposal}
      (stored : p ∈ c.storage.latest.proposals) (current : p.blockHeader.number = c.blockNumber)
      (held : (c.roundStates p.roundKey).hasProposal = true) :
      p ∈ (c.storage.write r).latest.proposals := by
    by_cases same : p.key = r.key
    · obtain rfl := sameProposal p stored current held same
      exact holds_latest_write_self (r := .proposal p)
    · exact holds_latest_write_of_ne (x := .proposal p) keeps stored same
  have message_stays (keeps : ¬ c.storage.blockNumber < r.blockNumber) {m : Message}
      (stored : m ∈ c.storage.latest.messages) (current : m.blockNumber = c.blockNumber) :
      m ∈ (c.storage.write r).latest.messages := by
    by_cases same : m.key = r.key
    · obtain rfl := sameMessage m stored current same
      exact holds_latest_write_self (r := .message m)
    · exact holds_latest_write_of_ne (x := .message m) keeps stored same
  have state_before {stored : StateData}
      (present : (c.storage.write r).latest.state = some stored) :
      ¬ c.storage.blockNumber < r.blockNumber ∧ c.storage.latest.state = some stored := by
    rw [state_latest_write_of_ne notState] at present
    split at present
    · contradiction
    · next keeps => exact ⟨keeps, present⟩
  constructor
  · refine always_write.mpr ⟨h.proves, ?_⟩
    intro stored present next round named
    obtain ⟨keeps, present⟩ := state_before present
    have le : stored.blockNumber ≤ c.blockNumber := written.latest_le up (.state stored) present
    have current : c.next = c.blockNumber := le_antisymm (next ▸ le) bound
    have held := h.known up stored present (next.trans current) round named
    refine (h.proves.latest stored present next round named).imp ?_ ?_
    · intro p stays routed
      rw [current] at routed
      refine proposal_stays keeps stays (congrArg RoundKey.blockNumber routed) ?_
      rw [routed]
      exact held
    · intro m stays _ routed
      exact message_stays keeps stays ((congrArg RoundKey.blockNumber routed).trans current)
  · refine always_write.mpr ⟨h.own, ?_⟩
    intro m stored
    rcases eq_or_holds_of_latest_write (x := .message m) stored with new | ⟨-, old, -⟩
    · exact own m new.symm
    · exact h.own.latest m old
  · intro _ stored present current round named
    obtain ⟨-, present⟩ := state_before present
    exact (grows _).hasProposal (h.known up stored present current round named)
  · intro _ key p current held
    rcases proposals key p held with old | rfl
    · have routed := (c.roundStates key).proposal_routed p old
      have keeps : ¬ c.storage.blockNumber < r.blockNumber := fun clears => by
        simp [(h.fresh up (number ▸ clears) key current).1] at old
      refine proposal_stays keeps (h.proposals up key p current old)
        ((congrArg RoundKey.blockNumber routed).trans current) ?_
      rw [routed]
      simp [hasProposal, old]
    · exact holds_latest_write_self (r := .proposal p)
  · intro _ key current m held
    rcases prevotes key m held with old | rfl
    · have routed := ((c.roundStates key).prevotes.routed m old).2
      have keeps : ¬ c.storage.blockNumber < r.blockNumber := fun clears => by
        simp [(h.fresh up (number ▸ clears) key current).2] at old
      exact message_stays keeps (h.prevotes up key current m old)
        ((congrArg RoundKey.blockNumber routed).trans current)
    · exact holds_latest_write_self (r := .message m)
  · intro _ m stored current
    rcases eq_or_holds_of_latest_write (x := .message m) stored with new | ⟨-, old, -⟩
    · exact loaded m new.symm
    · exact (h.loaded up m old current).imp_right (grows _).hasMessage
  · intro _ behind
    have stands := (blockNumber_write_le c.storage r).2
    exact absurd behind (not_lt.mpr (number ▸ stands))

/-- The round state of a named lock is proven in memory. -/
theorem Locks.majority_of_named (h : c.Locks env) (up : c.running = true)
    (named : c.getState.lockedRound = some r ∨ c.getState.validRound = some r) :
    (c.roundStates ⟨c.blockNumber, r⟩).hasMajorityPrevotes (env.roundValidators c.blockNumber) =
      true := by
  have proven : ∃ key, key.round = r ∧ c.Proven env key := by
    rcases named with locked | valid
    · obtain ⟨key, held, round⟩ := map_eq_some_iff.mp locked
      exact ⟨key, round, h.locked up key held⟩
    · obtain ⟨key, held, round⟩ := map_eq_some_iff.mp valid
      exact ⟨key, round, h.valid up key held⟩
  obtain ⟨⟨number, round⟩, rfl, same, majority⟩ := proven
  obtain rfl : number = c.blockNumber := same
  exact majority

variable (h : c.Retained env)
include h

/-- The state record is written while the proofs of its locks are in memory, and so in the
store. -/
theorem Retained.persist {next : Next} (locks : (c.persistState next).Locks env)
    (up : c.running = true) : (c.persistState next).Retained env := by
  have state : (c.storage.write (.state c.getState)).latest.state = some c.getState :=
    state_latest_write
  -- Nothing is in memory where the tables are cleared.
  have keeps (key : RoundKey) (current : key.blockNumber = c.blockNumber)
      (some_held : (c.roundStates key).proposal ≠ none ∨
        (c.roundStates key).prevotes.messages ≠ []) :
      ¬ c.storage.blockNumber < (Record.state c.getState).blockNumber := by
    intro clears
    obtain ⟨vacant, unvoted⟩ := h.fresh up clears key current
    exact some_held.elim (· vacant) (· unvoted)
  have message_before {m : Message}
      (stored : m ∈ (c.storage.write (.state c.getState)).latest.messages) :
      m ∈ c.storage.latest.messages := by
    rcases eq_or_holds_of_latest_write (x := .message m) stored with new | ⟨-, old, -⟩
    · contradiction
    · exact old
  constructor
  · refine always_write.mpr ⟨h.proves, ?_⟩
    intro stored present current round named
    obtain rfl := some.inj (state.symm.trans present)
    have majority := locks.majority_of_named up named
    obtain ⟨p, held, -⟩ := hasMajorityPrevotes_iff.mp majority
    have held : (c.roundStates ⟨c.blockNumber, round⟩).proposal = some p := held
    have keeps := keeps ⟨c.blockNumber, round⟩ rfl (.inl (by simp [held]))
    change Tables.Proves _ (env.roundValidators c.next) ⟨c.next, round⟩
    rw [← show c.blockNumber = c.next from current]
    refine (h.proves_of_majority up majority).imp ?_ ?_
    · exact fun q stored _ => holds_latest_write_of_ne (x := .proposal q) keeps stored
        (key_proposal_ne q)
    · exact fun m stored _ _ => holds_latest_write_of_ne (x := .message m) keeps stored
        (key_message_ne m)
  · refine always_write.mpr ⟨h.own, ?_⟩
    exact fun m stored => h.own.latest m (message_before stored)
  · intro _ stored present current round named
    obtain rfl := some.inj (state.symm.trans present)
    obtain ⟨p, held, -⟩ := hasMajorityPrevotes_iff.mp (locks.majority_of_named up named)
    simp [hasProposal, held]
  · intro _ key p current held
    have held : (c.roundStates key).proposal = some p := held
    exact holds_latest_write_of_ne (x := .proposal p)
      (keeps key current (.inl (by simp [held]))) (h.proposals up key p current held)
      (key_proposal_ne p)
  · intro _ key current m held
    have held : m ∈ (c.roundStates key).prevotes.messages := held
    exact holds_latest_write_of_ne (x := .message m)
      (keeps key current (.inr (ne_nil_of_mem held))) (h.prevotes up key current m held)
      (key_message_ne m)
  · exact fun _ m stored => h.loaded up m (message_before stored)
  · intro _ behind
    have stands := (blockNumber_write_le c.storage (.state c.getState)).2
    exact absurd behind (not_lt.mpr stands)

/-- Payloads are parsed and results are set; the records stay. -/
theorem Retained.sameRecords (same : ∀ key, (c.roundStates key).SameRecords (repo key)) :
    Retained env { c with roundStates := repo } :=
  { h with
    known := fun up stored present current r named => by
      rw [(same _).hasProposal]
      exact h.known up stored present current r named
    proposals := fun up key p current held =>
      h.proposals up key p current ((same key).proposal ▸ held)
    prevotes := fun up key current m held =>
      h.prevotes up key current m ((same key).prevotes ▸ held)
    loaded := fun up m stored current => by
      simp only [hasMessage, hasPrevote, hasPrecommit, (same _).prevotes, (same _).precommits]
      exact h.loaded up m stored current
    fresh := fun up behind key current => by
      rw [(same key).proposal, (same key).prevotes]
      exact h.fresh up behind key current }

section

variable (written : c.Written)
include written

/-- A vote that comes in replaces no other vote: those of other validators are in memory, and
those of this node's validators are what they signed. -/
theorem Retained.addMessage (sound : c.Sound env)
    (up : c.running = true) (member : .message m ∈ c.processing)
    (added : c.roundStates.addMessage m = some repo)
    (authentic : c.Authentic env (.messageVerified m true)) :
    Retained env { c with storage := c.storage.write (.message m), roundStates := repo } := by
  obtain ⟨vacant, voted, -, proposals, prevotes, -⟩ := addMessage_eq_some added
  have number := sound.heights.message_eq m member
  refine h.write written up (sound.heights.blockNumber_le up) (r := .message m)
    (key_message_ne _) number (grows_of_addMessage added)
    ?_ ?_ ?_ ?_ ?_ ?_
  · exact fun key p held => .inl ((proposals key).1 ▸ held)
  · exact fun key x held =>
      (prevotes key x held).imp_right fun same => congrArg message same.symm
  · intro p _ _ _ same
    simp [key, Proposal.key, Message.key] at same
  · intro x stored current same
    simp only [key, Message.key, Key.message.injEq] at same
    obtain ⟨round, index, type⟩ := same
    have key : x.roundKey = m.roundKey := by
      simp only [Message.roundKey, current, number, round]
    rcases h.loaded up x stored current with own | held
    · refine congrArg message (sound.voted.unique (authentic ?_) (h.own.latest x stored own)
        type.symm (number.trans current.symm) round.symm index.symm)
      rw [number, ← current, ← index]
      exact own
    · exfalso
      rw [key] at held
      simp only [hasMessage, type, index] at held
      simp [hasMessage, held] at vacant
  · intro x same
    obtain rfl := message.inj same
    exact authentic
  · intro x same
    obtain rfl := message.inj same
    exact .inr voted

theorem Retained.addProposal (heights : c.Heights)
    (up : c.running = true) (member : .proposal p ∈ c.processing)
    (added : c.roundStates.addProposal p = some repo) :
    Retained env { c with storage := c.storage.write (.proposal p), roundStates := repo } := by
  obtain ⟨vacant, here, elsewhere, votes⟩ := addProposal_eq_some added
  have number := heights.proposal_eq p member
  refine h.write written up (heights.blockNumber_le up) (r := .proposal p)
    (key_proposal_ne _) number (grows_of_addProposal added)
    ?_ ?_ ?_ ?_ (by simp) (by simp)
  · intro key q held
    by_cases same : key = p.roundKey
    · subst same
      exact .inr (congrArg Record.proposal (some.inj (here.symm.trans held)))
    · exact .inl (elsewhere key same ▸ held)
  · exact fun key m held => .inl ((votes key).1 ▸ held)
  · intro q _ current held same
    simp only [key, Proposal.key, Key.proposal.injEq] at same
    have key : q.roundKey = p.roundKey := by
      simp only [Proposal.roundKey, current, number, same.1]
    rw [key, hasProposal, vacant] at held
    contradiction
  · intro m _ _ same
    simp [key, Proposal.key, Message.key] at same

theorem Retained.saveVote (sound : c.Sound env)
    (up : c.running = true) {indices : List Nat} (at_ : c.continuation = some (.signed m indices)) :
    Retained env { c with storage := c.storage.write (.message m) } := by
  have number := sound.heights.signed_eq at_
  obtain ⟨signed, -⟩ := sound.voted.signing.of_at at_
  have registered : m.validatorIndex ∈ env.registered m.blockNumber := by
    obtain ⟨v, member, rfl⟩ := mem_map.mp signed
    exact sound.voted.registered v member
  refine h.write written up (sound.heights.blockNumber_le up) (r := .message m)
    (key_message_ne _) number (Grows.refl _)
    (fun _ _ => .inl) (fun _ _ => .inl) ?_ ?_ ?_ ?_
  · intro p _ _ _ same
    simp [key, Proposal.key, Message.key] at same
  · intro x stored current same
    simp only [key, Message.key, Key.message.injEq] at same
    obtain ⟨round, index, type⟩ := same
    have own : x.validatorIndex ∈ env.registered x.blockNumber := by
      rw [index, current, ← number]
      exact registered
    exact congrArg message (sound.voted.unique signed (h.own.latest x stored own)
      type.symm (number.trans current.symm) round.symm index.symm)
  · intro x same _
    obtain rfl := message.inj same
    exact signed
  · intro x same
    obtain rfl := message.inj same
    exact .inl registered

theorem Retained.saveProposal (heights : c.Heights)
    (building : c.Building) (authored : c.Authored env) (up : c.running = true) {id : Nat}
    {b : Build} (found : c.findBuild id = some b)
    (resolved : b.stage = .resolved (some p)) (pending : c.proposalPromise = some id) :
    Retained env { c with storage := c.storage.write (.proposal p) } := by
  obtain ⟨member, named⟩ := mem_of_findBuild found
  have number := building.number_of_live found resolved pending
  refine h.write written up (heights.blockNumber_le up) (r := .proposal p)
    (key_proposal_ne _) number (Grows.refl _)
    (fun _ _ => .inl) (fun _ _ => .inl) ?_ ?_ (by simp) (by simp)
  · intro q _ current held same
    simp only [key, Proposal.key, Key.proposal.injEq] at same
    have key : q.roundKey = b.key := by
      rw [← building.resolved_key b member p resolved]
      simp only [Proposal.roundKey, current, number, same.1]
    rw [key, hasProposal, authored.vacant id pending b member named] at held
    contradiction
  · intro m _ _ same
    simp [key, Proposal.key, Message.key] at same

end

theorem Retained.move (sound : c.Sound env) (locks : c.Locks env) (building : c.Building)
    (written : c.Written) (authored : c.Authored env) (authentic : c.Authentic env e)
    (up : c.running = true) (move : Move env c e c') : c'.Retained env := by
  have heights := sound.heights
  cases move with
  | @persist _ round step locked valid next _ shift =>
    let moved :=
      { c with round := round, step := step, lockedValue := locked, validValue := valid }
    have retained : moved.Retained env := { h with }
    exact retained.persist (locks.persist up shift) up
  | sign =>
    refine { h with own := h.own.imp fun t signed m stored registered => ?_ }
    rw [map_append]
    exact mem_append_left _ (signed m stored registered)
  | saveVote at_ => exact { h.saveVote written sound up at_ with }
  | addMessage member added => exact { h.addMessage written sound up member added authentic with }
  | addProposal member added => exact { h.addProposal written heights up member added with }
  | saveProposal found resolved pending =>
    exact { h.saveProposal written heights building authored up found resolved pending with }
  | deserialized =>
    exact { h.sameRecords (sameRecords_set (sameRecords_deserializePayload _)) with }
  | failed | processed =>
    exact { h.sameRecords (sameRecords_set (sameRecords_setProcessorResult _ _)) with }
  | @commitUnit _ block at_ =>
    have known := heights.commitUnit_eq at_
    refine { h with proves := ?_ }
    refine WriteQueue.Always.imp (WriteQueue.Always.and h.proves sound.recorded.state_le) ?_
    rintro t ⟨proves, bounded⟩ stored present number
    have le := bounded stored present
    have behind := heights.le_blockNumber up
    change stored.blockNumber = block.number + 1 at number
    unfold next at le
    -- A state of the new block number means that the block was committed before.
    have same : block.number = c.database.number := by omega
    change ∀ r, _ → t.Proves (env.roundValidators (block.number + 1)) ⟨block.number + 1, r⟩
    rw [same] at number ⊢
    exact proves stored present number
  | advance =>
    constructor
    · exact h.proves
    · exact h.own
    · intro _ stored present current
      have le : stored.blockNumber ≤ c.blockNumber := written.latest_le up (.state stored) present
      exact absurd (le_of_eq current.symm) (not_le.mpr (lt_succ_of_le le))
    · intro _ key p _ held
      contradiction
    · intro _ key _ m held
      contradiction
    · intro _ m stored current
      have le : m.blockNumber ≤ c.blockNumber := written.latest_le up (.message m) stored
      exact absurd (le_of_eq current.symm) (not_le.mpr (lt_succ_of_le le))
    · exact fun _ _ key _ => ⟨rfl, rfl⟩
  | flush flushed =>
    have latest := latest_flush flushed
    have number := blockNumber_flush flushed
    constructor
    · exact h.proves.flush flushed
    · exact h.own.flush flushed
    · simpa only [latest] using h.known
    · simpa only [latest] using h.proposals
    · simpa only [latest] using h.prevotes
    · simpa only [latest] using h.loaded
    · simpa only [number] using h.fresh
  | crash => exact retained_off (h.proves.crash _) (h.own.crash _)
  | _ => exact { h with }

/-- What a restart has in memory is what it found stored. -/
theorem Retained.restart (down : c.Down) (recorded : c.Recorded)
    (off : c.running = false) {parses : Bool} (finds : c.FindsState (.restart true parses))
    {state : Restored} (booted : bootstrap env.roundValidators (fun _ => parses) c.database
      (some c.storage.tables) = .ok state) : (c.restored state).Retained env := by
  have storage := recorded.storage_restored booted
  have number : state.blockNumber = c.next :=
    bootstrap_some_blockNumber booted
  have loads : Loads c.next c.storage.tables state.roundStates :=
    loads_of_bootstrap booted
  have start := down.storage off
  have latest : (c.restored state).storage.latest = c.storage.tables := by
    rw [storage, start]
    rfl
  constructor
  · rw [storage]
    exact h.proves
  · rw [storage]
    exact h.own
  · intro _ stored present current round named
    rw [latest] at present
    have current : stored.blockNumber = c.next := current.trans number
    obtain ⟨p, member, routed, -⟩ := h.proves.here stored present current round named
    have held := loads.proposal p member (congrArg RoundKey.blockNumber routed)
    change (state.roundStates ⟨state.blockNumber, round⟩).hasProposal = true
    rw [number, ← routed]
    simp [hasProposal, held]
  · intro _ key p _ held
    rw [latest]
    exact (loads.proposal_stored key p held).1
  · intro _ key _ m held
    rw [latest]
    exact (loads.prevote_stored key m held).1
  · intro _ m stored current
    rw [latest] at stored
    exact .inr (loads.message m stored (current.trans number)).1
  · intro _ behind key _
    rcases finds with ⟨stored, present, current⟩ | ⟨proposals, messages⟩
    · exfalso
      rw [storage, start] at behind
      simp only [initializeFrom, mem_def.mp present, current] at behind
      exact absurd behind (not_lt.mpr (le_of_eq number))
    · constructor
      · by_contra held
        obtain ⟨p, held⟩ := ne_none_iff_exists'.mp held
        obtain ⟨stored, current⟩ := loads.proposal_stored key p held
        exact proposals p stored current
      · refine eq_nil_iff_forall_not_mem.mpr fun m held => ?_
        obtain ⟨stored, current⟩ := loads.prevote_stored key m held
        exact messages m stored current

end Core

namespace Node

variable {env : Env} {database : BlockHeader} {n n' : Node} {e : Event}

structure Recovers (env : Env) (n : Node) : Prop where
  proposes : n.Proposes env
  authored : n.Authored env
  retained : n.Retained env

theorem recovers_start (database : BlockHeader) : (start database).Recovers env where
  proposes := proposes_start database
  authored := Core.authored_off ..
  retained :=
    Core.retained_off (by simp [Tables.ProvesLocks, Tables.empty]) (by simp [Tables.empty])

/-- Blocks are forged in time, signatures are authentic, and no restart finds records of its
block number without the state record. -/
def Recoverable (env : Env) (n : Node) (e : Event) : Prop :=
  n.ForgesInTime e ∧ n.Authentic env e ∧ n.FindsState e

instance (env : Env) (n : Node) (e : Event) : Decidable (n.Recoverable env e) :=
  inferInstanceAs (Decidable (_ ∧ _ ∧ _))

theorem Recovers.transition (h : n.Recovers env) (guard : n.Recoverable env e)
    (taken : n.transition env e = some n') : n'.Recovers env := by
  obtain ⟨⟨readable, forges⟩, authentic, finds⟩ := guard
  obtain ⟨sound, locks, building, written, -, -, proposing⟩ := h.proposes
  have proposes := h.proposes.transition readable forges taken
  cases transition_step taken with
  | move up move =>
    exact {
      proposes := proposes
      authored := h.authored.move building proposing authentic move
      retained := h.retained.move sound locks building written h.authored authentic up move }
  | restart off same booted restored =>
    subst same
    obtain rfl := readable
    refine { proposes := proposes, authored := ?_, retained := ?_ }
    · rw [restored]
      exact Core.authored_restart sound.down off _
    · rw [restored]
      exact h.retained.restart sound.down sound.recorded off finds booted

/-- In every state of such a run the store proves the locks of its state record, so that a
crash here is followed by a restart that does not refuse. -/
theorem bootstrap_not_refuses (run : Runs env (Recoverable env) database n) :
    n.storage.tables.ProvesLocks env.roundValidators (n.database.number + 1) ∧
    ∀ parses error, bootstrap env.roundValidators parses n.database
      (some n.storage.tables) = .error error → error.refuses = false := by
  have recovers : n.Recovers env := run.invariant (P := fun n => n.Recovers env)
    (recovers_start database) fun _ _ _ h guard taken => h.transition guard taken
  have proves := recovers.retained.proves.here
  exact ⟨proves, fun parses error failed => refuses_of_bootstrap proves failed⟩

theorem bootstrap_not_refuses_locksRoundZero :
    ∃ n, Runs soloEnv (Recoverable soloEnv) genesisHeader n ∧ n.running = false ∧
      n.storage.tables.state = some ⟨1, 0, .precommit, some 0, some 0⟩ ∧
      n.storage.tables.Proves 1 ⟨1, 0⟩ ∧
      ∀ parses error, bootstrap soloEnv.roundValidators parses n.database
        (some n.storage.tables) = .error error → error.refuses = false := by
  have evaluated : (Transition.run (transition soloEnv) (start genesisHeader)
      (locksRoundZero ++ [.flush, .flush, .crash 0])).map
        (fun n => (n.running, n.database, n.storage.tables.state)) =
          some (false, genesisHeader, some ⟨1, 0, .precommit, some 0, some 0⟩) := by
    decide +kernel
  have guarded : Transition.Guarded (transition soloEnv) (Recoverable soloEnv)
      (start genesisHeader) (locksRoundZero ++ [.flush, .flush, .crash 0]) := by
    decide +kernel
  obtain ⟨n, run, observed⟩ := Transition.Reach.exists_of_run evaluated guarded
  simp only [Prod.mk.injEq] at observed
  obtain ⟨down, last, state⟩ := observed
  obtain ⟨proves, restarts⟩ := bootstrap_not_refuses run
  refine ⟨n, run, down, state, ?_, restarts⟩
  have locked := proves _ state (by rw [last]; rfl) 0 (.inl rfl)
  rwa [last] at locked

/-- Four validators, none of them on this node. -/
def observerEnv : Env := { fourEnv with registered := fun _ => [] }

def peerPrevote (validatorIndex : Nat) : Message := ⟨.prevote, 1, 0, some [7], validatorIndex, []⟩

/-- A proposal of round 0 and three prevotes for it are stored before the handler has
written a state record, and the process crashes. The restart loads them, and the record that
`onProposal` writes clears them from the store. Then the lock is recorded, and the process
crashes again. -/
def locksAfterCrash : List Event :=
  .restart true true :: replicate 14 succeeds ++
  [.receiveProposal soloProposal, .proposalVerified soloProposal true] ++
  [1, 2, 3].flatMap (fun i =>
    [.processMessage (peerPrevote i), .messageVerified (peerPrevote i) true]) ++
  replicate 4 .flush ++ [.crash 0, .restart true true] ++ replicate 8 succeeds ++
  [.flush] ++ replicate 5 succeeds ++ [.flush, .crash 0]

theorem not_forall_bootstrap_not_refuses : ¬ ∀ (env : Env) (database : BlockHeader) (n : Node),
      Runs env (fun n e => n.ForgesInTime e ∧ n.Authentic env e) database n → n.running = false →
      ∀ parses error, bootstrap env.roundValidators parses n.database
        (some n.storage.tables) = .error error → error.refuses = false := by
  intro restarts
  have evaluated : (Transition.run (transition observerEnv) (start genesisHeader)
      locksAfterCrash).map (fun n => (n.running, n.database, n.storage.tables)) =
        some (false, genesisHeader, ⟨some ⟨1, 0, .precommit, some 0, some 0⟩, [], []⟩) := by
    decide +kernel
  have guarded : Transition.Guarded (transition observerEnv)
      (fun n e => n.ForgesInTime e ∧ n.Authentic observerEnv e) (start genesisHeader)
      locksAfterCrash := by
    decide +kernel
  obtain ⟨n, run, observed⟩ := Transition.Reach.exists_of_run evaluated guarded
  simp only [Prod.mk.injEq] at observed
  obtain ⟨down, last, stored⟩ := observed
  have refused : bootstrap observerEnv.roundValidators (fun _ => true) n.database
      (some n.storage.tables) = .error (.proposalNotStored .valid ⟨1, 0⟩) := by
    rw [last, stored]
    rfl
  have accepted := restarts observerEnv genesisHeader n run down _ _ refused
  contradiction

end Node

end Mainsail
