import Mainsail.Consensus.RoundState
import Mainsail.ConsensusStorage.Service

/-!
# The bootstrapper

`bootstrapper.ts`: what a starting process makes of the consensus store. The records of the
block number after the last committed block become round states. A stored state of that
block number gives the position and the locks, and the node refuses to start on a lock
whose proposal or whose prevotes are not stored.

The records are `none` where reading the store throws. The check of the block number
against the height of the configuration is left out.
-/

namespace Mainsail

open RoundState Repository Tables Except Option

namespace Repository

/-- `getRoundState(blockNumber, round).addProposal(proposal)`. -/
def addProposal (repo : Repository) (p : Proposal) : Option Repository :=
  ((repo p.roundKey).addProposal p rfl).map (repo.set p.roundKey)

/-- `getRoundState(blockNumber, round).addMessage(message)`. -/
def addMessage (repo : Repository) (m : Message) : Option Repository :=
  ((repo m.roundKey).addMessage m rfl).map (repo.set m.roundKey)

variable {repo repo' : Repository}

variable {p : Proposal} {m : Message}

theorem grows_of_addProposal (h : repo.addProposal p = some repo') : repo.Grows repo' := by
  obtain ⟨rs, added, rfl⟩ := map_eq_some_iff.mp h
  exact grows_set (grows_of_addProposal added)

theorem grows_of_addMessage (h : repo.addMessage m = some repo') : repo.Grows repo' := by
  obtain ⟨rs, added, rfl⟩ := map_eq_some_iff.mp h
  exact grows_set (grows_of_addMessage added)

/-- What `addProposal` changes: one round state, which had no proposal. -/
theorem addProposal_eq_some (h : repo.addProposal p = some repo') :
    (repo p.roundKey).proposal = none ∧ (repo' p.roundKey).proposal = some p ∧
      (∀ key, key ≠ p.roundKey → (repo' key).proposal = (repo key).proposal) ∧
      ∀ key, (repo' key).prevotes = (repo key).prevotes ∧
        (repo' key).precommits = (repo key).precommits ∧
        (repo' key).processorResult = (repo key).processorResult := by
  obtain ⟨rs, added, rfl⟩ := map_eq_some_iff.mp h
  obtain ⟨vacant, held, same⟩ := addProposal_eq_some added
  refine ⟨vacant, by rw [set_self, held], fun key other => by rw [set_of_ne repo rs other], ?_⟩
  exact forall_set (P := fun key rs => rs.prevotes = (repo key).prevotes ∧
    rs.precommits = (repo key).precommits ∧ rs.processorResult = (repo key).processorResult) same
    fun _ _ => ⟨rfl, rfl, rfl⟩

/-- What `addMessage` changes: the votes of one round state, where the index had none. -/
theorem addMessage_eq_some (h : repo.addMessage m = some repo') :
    (repo m.roundKey).hasMessage m = false ∧ (repo' m.roundKey).hasMessage m = true ∧
      (m.type = .prevote → m ∈ (repo' m.roundKey).prevotes.messages) ∧
      (∀ key, (repo' key).proposal = (repo key).proposal ∧
        (repo' key).processorResult = (repo key).processorResult) ∧
      (∀ key, ∀ x ∈ (repo' key).prevotes.messages, x ∈ (repo key).prevotes.messages ∨ x = m) ∧
      ∀ key, ∀ x ∈ (repo' key).precommits.messages, x ∈ (repo key).precommits.messages ∨ x = m := by
  obtain ⟨rs, added, rfl⟩ := map_eq_some_iff.mp h
  obtain ⟨proposal, -, result, prevotes, precommits, vacant⟩ := addMessage_eq_some added
  have only {P : Prop} [Decidable P] (votes : {key : RoundKey} → RoundState key → List Message)
      (new : votes rs = votes (repo m.roundKey) ++ if P then [m] else []) :
      ∀ key, ∀ x ∈ votes (repo.set m.roundKey rs key), x ∈ votes (repo key) ∨ x = m := by
    refine forall_set (P := fun key rs => ∀ x ∈ votes rs, x ∈ votes (repo key) ∨ x = m) ?_
      fun _ _ _ => .inl
    intro x member
    rw [new, List.mem_append] at member
    refine member.imp_right fun new => ?_
    split at new
    · exact List.mem_singleton.mp new
    · contradiction
  refine ⟨vacant, ?_, ?_, ?_, only (·.prevotes.messages) prevotes, only (·.precommits.messages) precommits⟩
  · rw [set_self]
    cases type : m.type with
    | prevote =>
      simp only [hasMessage, type, hasPrevote, Votes.has_iff, prevotes]
      exact ⟨m, by simp, rfl⟩
    | precommit =>
      simp only [hasMessage, type, hasPrecommit, Votes.has_iff, precommits]
      exact ⟨m, by simp, rfl⟩
  · intro type
    rw [set_self, prevotes]
    simp [type]
  · exact forall_set (P := fun key rs => rs.proposal = (repo key).proposal ∧
      rs.processorResult = (repo key).processorResult) ⟨proposal, result⟩ fun _ _ => ⟨rfl, rfl⟩

end Repository

namespace Bootstrapper

inductive LockKind
  | valid
  | locked
  deriving DecidableEq, Repr

inductive BootstrapError
  /-- A second proposal or vote of one validator and round. -/
  | alreadyExists
  | proposalNotStored (kind : LockKind) (key : RoundKey)
  | payloadNotParsed (key : RoundKey)
  | prevotesNotStored (kind : LockKind) (key : RoundKey)
  deriving DecidableEq, Repr

/-- The errors with which the node refuses to start on its store. -/
def BootstrapError.refuses : BootstrapError → Bool
  | .proposalNotStored .. => true
  | .prevotesNotStored .. => true
  | _ => false

/-- `Contracts.Consensus.State`, with the round states it was restored over. -/
structure Restored where
  blockNumber : Nat
  round : Nat
  step : Step
  lockedValue : Option RoundKey
  validValue : Option RoundKey
  roundStates : Repository
  /-- The store is cleared on the way. -/
  clears : Bool

/-- `#loadRounds`. -/
def loadRounds (blockNumber : Nat) (records : Tables) : Option Repository := do
  let proposals := records.proposals.filter fun p => p.blockHeader.number = blockNumber
  let messages := records.messages.filter fun m => m.blockNumber = blockNumber
  let repo ← proposals.foldlM addProposal .empty
  messages.foldlM addMessage repo

/-- `#getProvenRoundState`. -/
def getProvenRoundState (roundValidators : Nat → Nat) (parses : Proposal → Bool) (kind : LockKind)
    (key : RoundKey) (repo : Repository) : Except BootstrapError Repository :=
  match (repo key).proposal with
  | none => .error (.proposalNotStored kind key)
  | some p =>
    if parses p then
      let repo := repo.set key (repo key).deserializePayload
      if (repo key).hasMajorityPrevotes (roundValidators key.blockNumber) then .ok repo
      else .error (.prevotesNotStored kind key)
    else .error (.payloadNotParsed key)

/-- One of the two locks of `#restoreState`. -/
def restoreLock (roundValidators : Nat → Nat) (parses : Proposal → Bool) (kind : LockKind)
    (blockNumber : Nat) (round : Option Nat) (repo : Repository) :
    Except BootstrapError Repository :=
  match round with
  | none => .ok repo
  | some round => getProvenRoundState roundValidators parses kind ⟨blockNumber, round⟩ repo

/-- `#restoreState`. -/
def restoreState (roundValidators : Nat → Nat) (parses : Proposal → Bool) (blockNumber : Nat)
    (stored : StateData) (repo : Repository) : Except BootstrapError Restored := do
  let repo ← restoreLock roundValidators parses .valid blockNumber stored.validRound repo
  let repo ← restoreLock roundValidators parses .locked blockNumber stored.lockedRound repo
  return {
    blockNumber := stored.blockNumber
    round := stored.round
    step := stored.step
    lockedValue := stored.lockedRound.map (⟨blockNumber, ·⟩)
    validValue := stored.validRound.map (⟨blockNumber, ·⟩)
    roundStates := repo
    clears := false }

/-- `#initialState`, over these round states. -/
def initialState (blockNumber : Nat) (repo : Repository) (clears : Bool) : Restored where
  blockNumber := blockNumber
  round := 0
  step := .propose
  lockedValue := none
  validValue := none
  roundStates := repo
  clears := clears

def bootstrap (roundValidators : Nat → Nat) (parses : Proposal → Bool) (lastBlock : BlockHeader)
    (records : Option Tables) : Except BootstrapError Restored :=
  let blockNumber := lastBlock.number + 1
  match records with
  | none => .ok (initialState blockNumber .empty true)
  | some records =>
    match loadRounds blockNumber records with
    | none => .error .alreadyExists
    | some repo =>
      match records.state with
      | none => .ok (initialState blockNumber repo false)
      | some stored =>
        if stored.blockNumber = blockNumber then
          restoreState roundValidators parses blockNumber stored repo
        else .ok (initialState blockNumber repo (blockNumber < stored.blockNumber))

/-! ## What a restart comes back to -/

section

variable {roundValidators : Nat → Nat} {parses : Proposal → Bool} {lastBlock : BlockHeader}
variable {records : Tables} {state : Restored} {repo repo' : Repository}

/-- Every added proposal is the proposal of its round state, and no other is new. -/
theorem foldlM_addProposal {proposals : List Proposal}
    (h : proposals.foldlM addProposal repo = some repo') :
    repo.Grows repo' ∧ (∀ p ∈ proposals, (repo' p.roundKey).proposal = some p) ∧
      ∀ key, (∀ p, (repo' key).proposal = some p → (repo key).proposal = some p ∨ p ∈ proposals) ∧
        (repo' key).prevotes = (repo key).prevotes ∧
        (repo' key).precommits = (repo key).precommits ∧
        (repo' key).processorResult = (repo key).processorResult := by
  induction proposals generalizing repo with
  | nil =>
    cases h
    exact ⟨.refl _, by simp, fun key => ⟨fun p => .inl, rfl, rfl, rfl⟩⟩
  | cons p proposals ih =>
    rw [List.foldlM_cons] at h
    obtain ⟨middle, added, rest⟩ := bind_eq_some_iff.mp h
    obtain ⟨grows, loaded, stored⟩ := ih rest
    obtain ⟨-, here, elsewhere, same⟩ := addProposal_eq_some added
    refine ⟨(grows_of_addProposal added).trans grows, ?_, ?_⟩
    · intro q member
      rcases List.mem_cons.mp member with rfl | member
      · exact (grows q.roundKey).proposal q here
      · exact loaded q member
    · intro key
      obtain ⟨only, prevotes, precommits, result⟩ := stored key
      refine ⟨?_, prevotes.trans (same key).1, precommits.trans (same key).2.1,
        result.trans (same key).2.2⟩
      intro q held
      rcases only q held with before | member
      · by_cases own : key = p.roundKey
        · subst own
          obtain rfl := some.inj (here.symm.trans before)
          exact .inr (List.mem_cons_self ..)
        · exact .inl (elsewhere key own ▸ before)
      · exact .inr (List.mem_cons_of_mem _ member)

/-- Every added vote is among the votes of its round state, and no other is new. -/
theorem foldlM_addMessage {messages : List Message}
    (h : messages.foldlM addMessage repo = some repo') :
    repo.Grows repo' ∧
      (∀ m ∈ messages, (repo' m.roundKey).hasMessage m = true ∧
        (m.type = .prevote → m ∈ (repo' m.roundKey).prevotes.messages)) ∧
      ∀ key, ((repo' key).proposal = (repo key).proposal ∧
          (repo' key).processorResult = (repo key).processorResult) ∧
        (∀ m ∈ (repo' key).prevotes.messages, m ∈ (repo key).prevotes.messages ∨ m ∈ messages) ∧
        ∀ m ∈ (repo' key).precommits.messages,
          m ∈ (repo key).precommits.messages ∨ m ∈ messages := by
  induction messages generalizing repo with
  | nil =>
    cases h
    exact ⟨.refl _, by simp, fun key => ⟨⟨rfl, rfl⟩, fun m => .inl, fun m => .inl⟩⟩
  | cons m messages ih =>
    rw [List.foldlM_cons] at h
    obtain ⟨middle, added, rest⟩ := bind_eq_some_iff.mp h
    obtain ⟨grows, loaded, stored⟩ := ih rest
    obtain ⟨-, voted, prevote, proposals, prevotes, precommits⟩ :=
      addMessage_eq_some added
    refine ⟨(grows_of_addMessage added).trans grows, ?_, ?_⟩
    · intro x member
      rcases List.mem_cons.mp member with rfl | member
      · exact ⟨(grows x.roundKey).hasMessage voted,
          fun type => (grows x.roundKey).prevotes.subset (prevote type)⟩
      · exact loaded x member
    · intro key
      obtain ⟨⟨proposal, result⟩, prevotes', precommits'⟩ := stored key
      have only {x : Message} {P Q : Prop} (later : P ∨ x ∈ messages) (before : P → Q ∨ x = m) :
          Q ∨ x ∈ m :: messages := by
        rcases later with old | member
        · exact (before old).imp_right fun same => by simp [same]
        · exact .inr (List.mem_cons_of_mem _ member)
      exact ⟨⟨proposal.trans (proposals key).1, result.trans (proposals key).2⟩,
        fun x member => only (prevotes' x member) (prevotes key x),
        fun x member => only (precommits' x member) (precommits key x)⟩

/-- The round states hold the stored records of one block number, and no others. -/
structure Loads (blockNumber : Nat) (records : Tables) (repo : Repository) : Prop where
  proposal : ∀ p ∈ records.proposals, p.blockHeader.number = blockNumber →
    (repo p.roundKey).proposal = some p
  message : ∀ m ∈ records.messages, m.blockNumber = blockNumber →
    (repo m.roundKey).hasMessage m = true ∧
      (m.type = .prevote → m ∈ (repo m.roundKey).prevotes.messages)
  proposal_stored : ∀ key p, (repo key).proposal = some p →
    p ∈ records.proposals ∧ p.blockHeader.number = blockNumber
  prevote_stored : ∀ key, ∀ m ∈ (repo key).prevotes.messages,
    m ∈ records.messages ∧ m.blockNumber = blockNumber
  precommit_stored : ∀ key, ∀ m ∈ (repo key).precommits.messages,
    m ∈ records.messages ∧ m.blockNumber = blockNumber
  unprocessed : ∀ key, (repo key).processorResult = none

variable {blockNumber : Nat}

theorem loads_of_loadRounds
    (h : loadRounds blockNumber records = some repo) : Loads blockNumber records repo := by
  obtain ⟨middle, first, second⟩ := bind_eq_some_iff.mp h
  obtain ⟨-, proposals, proposals_only⟩ := foldlM_addProposal first
  obtain ⟨grows, messages, messages_only⟩ := foldlM_addMessage second
  constructor
  · intro p stored number
    exact (grows p.roundKey).proposal p (proposals p (by simp [stored, number]))
  · exact fun m stored number => messages m (by simp [stored, number])
  · intro key p held
    rw [(messages_only key).1.1] at held
    rcases (proposals_only key).1 p held with vacant | member
    · contradiction
    · simpa using member
  · intro key m held
    rcases (messages_only key).2.1 m held with vacant | member
    · rw [(proposals_only key).2.1] at vacant
      contradiction
    · simpa using member
  · intro key m held
    rcases (messages_only key).2.2 m held with vacant | member
    · rw [(proposals_only key).2.2.1] at vacant
      contradiction
    · simpa using member
  · exact fun key => (messages_only key).1.2.trans (proposals_only key).2.2.2

theorem Loads.deserializePayload (h : Loads blockNumber records repo)
    (key : RoundKey) : Loads blockNumber records (repo.set key (repo key).deserializePayload) := by
  have same := sameRecords_set (sameRecords_deserializePayload (repo key))
  constructor
  · exact fun p stored number => (same p.roundKey).proposal.trans (h.proposal p stored number)
  · intro m stored number
    simp only [hasMessage, hasPrevote, hasPrecommit, (same _).prevotes, (same _).precommits]
    exact h.message m stored number
  · exact fun other p held => h.proposal_stored other p ((same other).proposal ▸ held)
  · exact fun other m held => h.prevote_stored other m ((same other).prevotes ▸ held)
  · exact fun other m held => h.precommit_stored other m ((same other).precommits ▸ held)
  · exact forall_set (P := fun _ rs => rs.processorResult = none) (h.unprocessed key) fun other _ =>
      h.unprocessed other

variable {kind : LockKind} {round : Option Nat} {stored : StateData} {readable : Bool}

theorem getProvenRoundState_eq_ok {key : RoundKey}
    (h : getProvenRoundState roundValidators parses kind key repo = .ok repo') :
    repo' = repo.set key (repo key).deserializePayload ∧
      (repo' key).hasMajorityPrevotes (roundValidators key.blockNumber) = true := by
  unfold getProvenRoundState at h
  split at h
  · contradiction
  · split at h
    · dsimp only at h
      split at h
      · next majority =>
          obtain rfl := ok.inj h
          exact ⟨rfl, majority⟩
      · contradiction
    · contradiction

theorem restoreLock_eq_ok
    (h : restoreLock roundValidators parses kind blockNumber round repo = .ok repo') :
    repo.Grows repo' ∧ ∀ r, round = some r →
      (repo' ⟨blockNumber, r⟩).hasMajorityPrevotes (roundValidators blockNumber) = true := by
  unfold restoreLock at h
  split at h
  · obtain rfl := ok.inj h
    exact ⟨.refl _, by simp⟩
  · next r =>
      obtain ⟨rfl, majority⟩ := getProvenRoundState_eq_ok h
      refine ⟨grows_set (grows_deserializePayload _), ?_⟩
      rintro _ same
      cases same
      exact majority

/-- Restoring a lock parses a payload and leaves the records alone. -/
theorem Loads.restoreLock (loads : Loads blockNumber records repo)
    (h : restoreLock roundValidators parses kind blockNumber round repo = .ok repo') :
    Loads blockNumber records repo' := by
  unfold Bootstrapper.restoreLock at h
  split at h
  · obtain rfl := ok.inj h
    exact loads
  · obtain ⟨rfl, -⟩ := getProvenRoundState_eq_ok h
    exact loads.deserializePayload _

theorem restoreState_eq_ok
    (h : restoreState roundValidators parses blockNumber stored repo = .ok state) :
    ∃ repo₁ repo₂,
      restoreLock roundValidators parses .valid blockNumber stored.validRound repo = .ok repo₁ ∧
      restoreLock roundValidators parses .locked blockNumber stored.lockedRound repo₁ = .ok repo₂ ∧
      state = {
        blockNumber := stored.blockNumber
        round := stored.round
        step := stored.step
        lockedValue := stored.lockedRound.map (⟨blockNumber, ·⟩)
        validValue := stored.validRound.map (⟨blockNumber, ·⟩)
        roundStates := repo₂
        clears := false } := by
  obtain ⟨repo₁, first, h⟩ := bind_eq_ok.mp h
  obtain ⟨repo₂, second, h⟩ := bind_eq_ok.mp h
  exact ⟨repo₁, repo₂, first, second, (ok.inj h).symm⟩

section

variable (h : bootstrap roundValidators parses lastBlock (some records) = .ok state)
include h

/-- A start over a readable store either restores the state of its block number, or begins
that block number over the loaded round states. -/
theorem bootstrap_eq_ok :
    ∃ repo, loadRounds (lastBlock.number + 1) records = some repo ∧
      ((∃ stored, records.state = some stored ∧ stored.blockNumber = lastBlock.number + 1 ∧
          restoreState roundValidators parses (lastBlock.number + 1) stored repo = .ok state) ∨
        (∀ stored, records.state = some stored → stored.blockNumber ≠ lastBlock.number + 1) ∧
          ∃ clears, state = initialState (lastBlock.number + 1) repo clears ∧
            (clears = true →
              ∃ stored, records.state = some stored ∧
                lastBlock.number + 1 < stored.blockNumber)) := by
  simp only [bootstrap] at h
  split at h
  · contradiction
  · next repo loaded =>
      refine ⟨repo, loaded, ?_⟩
      split at h
      · next absent =>
          refine .inr ⟨by simp [absent], false, ?_, by simp⟩
          exact (ok.inj h).symm
      · next stored present =>
          split at h
          · next same => exact .inl ⟨stored, present, same, h⟩
          · next other =>
              refine .inr ⟨?_, _, (ok.inj h).symm, ?_⟩
              · rintro x hx
                obtain rfl := some.inj (present.symm.trans hx)
                exact other
              · intro ahead
                exact ⟨stored, present, by simpa using ahead⟩

/-- So they do after a start over a readable store. -/
theorem loads_of_bootstrap : Loads (lastBlock.number + 1) records state.roundStates := by
  obtain ⟨repo, loaded, ⟨data, -, -, restored⟩ | ⟨-, clears, rfl, -⟩⟩ := bootstrap_eq_ok h
  · obtain ⟨repo₁, repo₂, first, second, rfl⟩ := restoreState_eq_ok restored
    exact ((loads_of_loadRounds loaded).restoreLock first).restoreLock second
  · exact loads_of_loadRounds loaded

end

theorem bootstrap_blockNumber
    (h : bootstrap roundValidators parses lastBlock (if readable then some records else none) =
      .ok state) : state.blockNumber = lastBlock.number + 1 := by
  cases readable with
  | false =>
    obtain rfl := ok.inj h
    rfl
  | true =>
    obtain ⟨repo, -, ⟨stored, -, same, restored⟩ | ⟨-, clears, rfl, -⟩⟩ := bootstrap_eq_ok h
    · obtain ⟨_, _, -, -, rfl⟩ := restoreState_eq_ok restored
      exact same
    · rfl

/-- A lock is restored as the round state of the block number of the restart. -/
theorem bootstrap_validValue
    (h : bootstrap roundValidators parses lastBlock (if readable then some records else none) =
      .ok state) {key : RoundKey} (valid : state.validValue = some key) :
    key.blockNumber = lastBlock.number + 1 := by
  cases readable with
  | false =>
    obtain rfl := ok.inj h
    contradiction
  | true =>
    obtain ⟨repo, -, ⟨stored, -, same, restored⟩ | ⟨-, clears, rfl, -⟩⟩ := bootstrap_eq_ok h
    · obtain ⟨_, _, -, -, rfl⟩ := restoreState_eq_ok restored
      obtain ⟨round, -, rfl⟩ := map_eq_some_iff.mp valid
      rfl
    · contradiction

end

end Bootstrapper

namespace Tables

/-- The position a restart in this block number comes back to. -/
def restorePosition (t : Tables) (blockNumber : Nat) : Position :=
  match t.state with
  | none => ⟨blockNumber, 0, .propose⟩
  | some stored =>
    if stored.blockNumber = blockNumber then stored.position else ⟨blockNumber, 0, .propose⟩

/-- The locked round a restart in this block number comes back to. -/
def restoreLock (t : Tables) (blockNumber : Nat) : Option Nat :=
  match t.state with
  | none => none
  | some stored => if stored.blockNumber = blockNumber then stored.lockedRound else none

@[simp] theorem restorePosition_blockNumber (t : Tables) (blockNumber : Nat) :
    (t.restorePosition blockNumber).blockNumber = blockNumber := by
  unfold restorePosition
  split
  · rfl
  · split
    · assumption
    · rfl

/-- A restart is never before the beginning of its block number. -/
theorem start_le_restorePosition (t : Tables) (blockNumber : Nat) :
    (⟨blockNumber, 0, .propose⟩ : Position) ≤ t.restorePosition blockNumber := by
  refine .inr ⟨(restorePosition_blockNumber t blockNumber).symm, ?_⟩
  rcases Nat.eq_zero_or_pos (t.restorePosition blockNumber).round with zero | positive
  · exact .inr ⟨zero.symm, Nat.zero_le _⟩
  · exact .inl positive

variable {t : Tables} {blockNumber : Nat} {stored : StateData}

section

variable (h : t.state = some stored) (same : stored.blockNumber = blockNumber)
include h same

theorem restorePosition_of_eq : t.restorePosition blockNumber = stored.position := by
  simp [restorePosition, h, same]

theorem restoreLock_of_eq : t.restoreLock blockNumber = stored.lockedRound := by
  simp [restoreLock, h, same]

end

variable (h : ∀ stored, t.state = some stored → stored.blockNumber ≠ blockNumber)
include h

theorem restorePosition_of_ne : t.restorePosition blockNumber = ⟨blockNumber, 0, .propose⟩ := by
  unfold restorePosition
  split
  · rfl
  · next stored present => rw [if_neg (h stored present)]

theorem restoreLock_of_ne : t.restoreLock blockNumber = none := by
  unfold restoreLock
  split
  · rfl
  · next stored present => rw [if_neg (h stored present)]

end Tables

namespace Bootstrapper

variable {roundValidators : Nat → Nat} {parses : Proposal → Bool} {lastBlock : BlockHeader}
variable {records : Tables} {state : Restored}

section

variable (h : bootstrap roundValidators parses lastBlock (some records) = .ok state)
include h

theorem bootstrap_position :
    ⟨state.blockNumber, state.round, state.step⟩ =
      records.restorePosition (lastBlock.number + 1) := by
  obtain ⟨repo, -, ⟨stored, present, same, restored⟩ | ⟨other, clears, rfl, -⟩⟩ :=
    bootstrap_eq_ok h
  · obtain ⟨_, _, -, -, rfl⟩ := restoreState_eq_ok restored
    rw [restorePosition_of_eq present same]
    rfl
  · rw [restorePosition_of_ne other]
    rfl

theorem bootstrap_some_blockNumber : state.blockNumber = lastBlock.number + 1 :=
  (congrArg Position.blockNumber (bootstrap_position h)).trans (restorePosition_blockNumber ..)

/-- The locked round is the one of the stored state. -/
theorem bootstrap_lockedValue :
    state.lockedValue.map (·.round) = records.restoreLock (lastBlock.number + 1) := by
  obtain ⟨repo, -, ⟨stored, present, same, restored⟩ | ⟨other, clears, rfl, -⟩⟩ :=
    bootstrap_eq_ok h
  · obtain ⟨_, _, -, -, rfl⟩ := restoreState_eq_ok restored
    rw [restoreLock_of_eq present same]
    cases stored.lockedRound <;> rfl
  · rw [restoreLock_of_ne other]
    rfl

end

end Bootstrapper

/-! ## When a restart does not refuse -/

namespace Tables

variable {t t' : Tables} {n : Nat} {key : RoundKey}

/-- The validators whose stored prevotes of this round name this hash. -/
def prevoters (t : Tables) (key : RoundKey) (hash : Option Bytes) : Finset Nat :=
  ((t.messages.filter fun m => m.type = .prevote ∧ m.roundKey = key ∧ m.blockHash = hash).map
    (·.validatorIndex)).toFinset

theorem mem_prevoters {hash : Option Bytes} {i : Nat} : i ∈ t.prevoters key hash ↔
    ∃ m ∈ t.messages, (m.type = .prevote ∧ m.roundKey = key ∧ m.blockHash = hash) ∧
      m.validatorIndex = i := by
  simp [prevoters, and_assoc]

/-- The proposal of this round and more than two thirds prevotes for its hash are stored. -/
def Proves (t : Tables) (n : Nat) (key : RoundKey) : Prop :=
  ∃ p ∈ t.proposals, p.roundKey = key ∧
    isMajority (t.prevoters key (some p.blockHeader.hash)).card n = true

instance (t : Tables) (n : Nat) (key : RoundKey) : Decidable (t.Proves n key) :=
  inferInstanceAs (Decidable (∃ p ∈ t.proposals, _))

/-- A proof stays where its records stay. -/
theorem Proves.imp (h : t.Proves n key)
    (proposals : ∀ p ∈ t.proposals, p.roundKey = key → p ∈ t'.proposals)
    (prevotes : ∀ m ∈ t.messages, m.type = .prevote → m.roundKey = key → m ∈ t'.messages) :
    t'.Proves n key := by
  obtain ⟨p, stored, routed, enough⟩ := h
  refine ⟨p, proposals p stored routed, routed, ?_⟩
  rw [isMajority_iff] at enough ⊢
  refine enough.mono (Finset.card_le_card ?_)
  intro i voted
  obtain ⟨m, member, ⟨type, round, hash⟩, index⟩ := mem_prevoters.mp voted
  exact mem_prevoters.mpr ⟨m, prevotes m member type round, ⟨type, round, hash⟩, index⟩

/-- Every lock that a stored state of this block number names is proven by the store. -/
def ProvesLocks (t : Tables) (roundValidators : Nat → Nat) (blockNumber : Nat) : Prop :=
  ∀ stored, t.state = some stored → stored.blockNumber = blockNumber →
    ∀ r, stored.lockedRound = some r ∨ stored.validRound = some r →
      t.Proves (roundValidators blockNumber) ⟨blockNumber, r⟩

end Tables

namespace Bootstrapper

variable {roundValidators : Nat → Nat} {parses : Proposal → Bool} {lastBlock : BlockHeader}
variable {records : Tables} {repo repo' : Repository} {blockNumber : Nat} {error : BootstrapError}

section

variable (h : Loads blockNumber records repo)
include h

/-- A stored proof is a proof in memory once it is loaded. -/
theorem Loads.hasMajorityPrevotes {n r : Nat} (proves : records.Proves n ⟨blockNumber, r⟩) :
    (repo ⟨blockNumber, r⟩).deserializePayload.hasMajorityPrevotes n = true := by
  obtain ⟨p, stored, routed, enough⟩ := proves
  have held := h.proposal p stored (congrArg RoundKey.blockNumber routed)
  rw [routed] at held
  refine hasMajorityPrevotes_iff.mpr ⟨p, held, rfl, ?_⟩
  rw [isMajority_iff] at enough ⊢
  refine enough.mono ?_
  change _ ≤ (repo ⟨blockNumber, r⟩).prevotes.count _
  rw [← Votes.card_voters]
  refine Finset.card_le_card ?_
  intro i voted
  obtain ⟨m, member, ⟨type, round, hash⟩, index⟩ := mem_prevoters.mp voted
  have loaded := (h.message m member (congrArg RoundKey.blockNumber round)).2 type
  rw [round] at loaded
  exact Votes.mem_voters.mpr ⟨m, loaded, hash, index⟩

theorem refuses_of_restoreLock {kind : LockKind} {round : Option Nat}
    (proves : ∀ r, round = some r → records.Proves (roundValidators blockNumber) ⟨blockNumber, r⟩)
    (failed : restoreLock roundValidators parses kind blockNumber round repo = .error error) :
    error.refuses = false := by
  unfold restoreLock at failed
  split at failed
  · contradiction
  · next r =>
      have majority := h.hasMajorityPrevotes (proves r rfl)
      unfold getProvenRoundState at failed
      split at failed
      · next vacant =>
          obtain ⟨p, held, -⟩ := hasMajorityPrevotes_iff.mp majority
          exact absurd (vacant.symm.trans held) (by simp)
      · split at failed
        · simp [majority] at failed
        · obtain rfl := Except.error.inj failed
          rfl

end

/-- A restart does not refuse a store that proves the locks of its state. -/
theorem refuses_of_bootstrap (proves : records.ProvesLocks roundValidators (lastBlock.number + 1))
    (failed : bootstrap roundValidators parses lastBlock (some records) = .error error) :
    error.refuses = false := by
  simp only [bootstrap] at failed
  split at failed
  · obtain rfl := Except.error.inj failed
    rfl
  · next repo loaded =>
      have loads := loads_of_loadRounds loaded
      split at failed
      · contradiction
      · next stored present =>
          split at failed
          · next same =>
              have known := proves stored present same
              obtain first | ⟨repo₁, first, failed⟩ := bind_eq_error.mp failed
              · exact refuses_of_restoreLock loads (fun r valid => known r (.inr valid)) first
              obtain second | ⟨repo₂, -, failed⟩ := bind_eq_error.mp failed
              · exact refuses_of_restoreLock (loads.restoreLock first)
                  (fun r locked => known r (.inl locked)) second
              · contradiction
          · contradiction

end Bootstrapper

end Mainsail
