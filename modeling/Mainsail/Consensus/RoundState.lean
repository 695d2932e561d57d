import Mainsail.Consensus.Data

/-!
# Round states

`round-state.ts` and `round-state-repository.ts`. A round state keeps at most one vote of
each type per validator index, beside a running count of the votes per block hash. Both
maps are one structure here, with the facts that tie them together: no index occurs twice,
and the counts are those of the votes. The processors route a vote or a proposal to the
round state of its own block number and round, so the type of a round state names that
key and everything in it belongs there.

`getMilestone(blockNumber).roundValidators` is the argument `roundValidators` of the
majority tests. Logging, account updates and contract events are left out.
-/

namespace Mainsail

open Function List

/-- The votes of one type: the map by validator index in insertion order, and the map of
counts by block hash, where `none` is the key of the votes for nil. -/
structure Votes (type : MessageType) (key : RoundKey) where
  messages : List Message
  count : Option Bytes → Nat
  routed : ∀ m ∈ messages, m.type = type ∧ m.roundKey = key
  nodup : (messages.map (·.validatorIndex)).Nodup
  count_eq : ∀ hash, count hash = messages.countP (fun m => m.blockHash = hash)

namespace Votes

variable {type : MessageType} {key : RoundKey}

def empty : Votes type key where
  messages := []
  count := fun _ => 0
  routed := by simp
  nodup := by simp
  count_eq := by simp

def has (votes : Votes type key) (validatorIndex : Nat) : Bool :=
  votes.messages.any (fun m => m.validatorIndex == validatorIndex)

def get (votes : Votes type key) (validatorIndex : Nat) : Option Message :=
  votes.messages.find? (fun m => m.validatorIndex == validatorIndex)

def size (votes : Votes type key) : Nat := votes.messages.length

variable {votes : Votes type key} {i : Nat} {m : Message}

theorem has_iff : votes.has i = true ↔ ∃ m ∈ votes.messages, m.validatorIndex = i := by
  simp [has]

/-- `addPrevote` and `addPrecommit`: an index that already voted makes them throw. -/
def add (votes : Votes type key) (m : Message) (belongs : m.type = type ∧ m.roundKey = key) :
    Option (Votes type key) :=
  if fresh : votes.has m.validatorIndex = true then none
  else some {
    messages := votes.messages ++ [m]
    count := update votes.count m.blockHash (votes.count m.blockHash + 1)
    routed := by
      intro x member
      rcases mem_append.mp member with old | new
      · exact votes.routed x old
      · obtain rfl := mem_singleton.mp new
        exact belongs
    nodup := by
      rw [map_append, nodup_append]
      refine ⟨votes.nodup, by simp, ?_⟩
      rintro i old _ new rfl
      obtain ⟨x, member, same⟩ := mem_map.mp old
      simp only [map_cons, map_nil, mem_singleton] at new
      exact fresh (has_iff.mpr ⟨x, member, same.trans new⟩)
    count_eq := by
      intro hash
      rw [countP_append, countP_singleton, ← votes.count_eq hash]
      by_cases same : hash = m.blockHash
      · subst same
        simp
      · simp [update_of_ne same, Ne.symm same] }

theorem add_eq_some {votes' : Votes type key}
    {belongs : m.type = type ∧ m.roundKey = key} (h : votes.add m belongs = some votes') :
    votes.has m.validatorIndex = false ∧ votes'.messages = votes.messages ++ [m] := by
  unfold add at h
  split at h
  · contradiction
  · next fresh =>
      cases h
      exact ⟨by simpa using fresh, rfl⟩

/-- The indices that voted for this hash. -/
def voters (votes : Votes type key) (hash : Option Bytes) : Finset Nat :=
  ((votes.messages.filter (fun m => m.blockHash = hash)).map (·.validatorIndex)).toFinset

theorem mem_voters {hash : Option Bytes} :
    i ∈ votes.voters hash ↔ ∃ m ∈ votes.messages, m.blockHash = hash ∧ m.validatorIndex = i := by
  simp [voters, and_assoc]

/-- The running count is the number of distinct validators behind the hash. -/
theorem card_voters (votes : Votes type key) (hash : Option Bytes) :
    (votes.voters hash).card = votes.count hash := by
  have nodup : ((votes.messages.filter (fun m => m.blockHash = hash)).map
      (·.validatorIndex)).Nodup :=
    votes.nodup.sublist (Sublist.map _ filter_sublist)
  rw [voters, toFinset_card_of_nodup nodup, length_map, votes.count_eq, countP_eq_length_filter]

end Votes

/-- One round of one block number, as far as this node knows it. -/
structure RoundState (key : RoundKey) where
  proposal : Option Proposal
  /-- The payload of the proposal has been parsed. -/
  isDataDeserialized : Bool
  /-- `success` of the block processor's result, once there is one. -/
  processorResult : Option Bool
  prevotes : Votes .prevote key
  precommits : Votes .precommit key
  proposal_routed : ∀ p, proposal = some p → p.roundKey = key

namespace RoundState

variable {key : RoundKey}

/-- `configure`: a round state nothing has been added to. -/
def configure : RoundState key where
  proposal := none
  isDataDeserialized := false
  processorResult := none
  prevotes := .empty
  precommits := .empty
  proposal_routed := by simp

def hasProposal (rs : RoundState key) : Bool := rs.proposal.isSome

/-- A second proposal makes `addProposal` throw. -/
def addProposal (rs : RoundState key) (p : Proposal) (belongs : p.roundKey = key) :
    Option (RoundState key) :=
  if rs.hasProposal then none
  else some { rs with
    proposal := some p
    isDataDeserialized := false
    proposal_routed := by
      intro q same
      cases same
      exact belongs }

def hasPrevote (rs : RoundState key) (validatorIndex : Nat) : Bool :=
  rs.prevotes.has validatorIndex

def hasPrecommit (rs : RoundState key) (validatorIndex : Nat) : Bool :=
  rs.precommits.has validatorIndex

def hasMessage (rs : RoundState key) (m : Message) : Bool :=
  match m.type with
  | .prevote => rs.hasPrevote m.validatorIndex
  | .precommit => rs.hasPrecommit m.validatorIndex

def addMessage (rs : RoundState key) (m : Message) (belongs : m.roundKey = key) :
    Option (RoundState key) :=
  match type : m.type with
  | .prevote => (rs.prevotes.add m ⟨type, belongs⟩).map fun votes => { rs with prevotes := votes }
  | .precommit =>
    (rs.precommits.add m ⟨type, belongs⟩).map fun votes => { rs with precommits := votes }

def setProcessorResult (rs : RoundState key) (success : Bool) : RoundState key :=
  { rs with processorResult := some success }

def deserializePayload (rs : RoundState key) : RoundState key :=
  { rs with isDataDeserialized := true }

/-- `getBlock`, as far as its header: it throws until the payload has been parsed. -/
def getBlock (rs : RoundState key) : Option BlockHeader :=
  if rs.isDataDeserialized then rs.proposal.map (·.blockHeader) else none

/-- The hash of the proposal, where its payload has been parsed. -/
def deserializedHash (rs : RoundState key) : Option Bytes :=
  if rs.isDataDeserialized then rs.proposal.map (·.blockHeader.hash) else none

def hasMajorityPrevotes (rs : RoundState key) (roundValidators : Nat) : Bool :=
  match rs.deserializedHash with
  | none => false
  | some hash => isMajority (rs.prevotes.count (some hash)) roundValidators

def hasMajorityPrevotesNull (rs : RoundState key) (roundValidators : Nat) : Bool :=
  isMajority (rs.prevotes.count none) roundValidators

def hasMajorityPrecommits (rs : RoundState key) (roundValidators : Nat) : Bool :=
  match rs.deserializedHash with
  | none => false
  | some hash => isMajority (rs.precommits.count (some hash)) roundValidators

/-- More than two thirds precommits for one block whose proposal is missing. The keys of
the count map are the hashes of the precommits. -/
def hasMajorityPrecommitsWithoutProposal (rs : RoundState key) (roundValidators : Nat) : Bool :=
  !rs.hasProposal && rs.precommits.messages.any fun m =>
    m.blockHash.isSome && isMajority (rs.precommits.count m.blockHash) roundValidators

def hasMinorityPrevotesOrPrecommits (rs : RoundState key) (roundValidators : Nat) : Bool :=
  isMinority rs.prevotes.size roundValidators || isMinority rs.precommits.size roundValidators

variable {n : Nat} {p : Proposal} {belongs : p.roundKey = key}

theorem hasMajorityPrevotes_iff {rs : RoundState key} : rs.hasMajorityPrevotes n = true ↔
      ∃ p, rs.proposal = some p ∧ rs.isDataDeserialized = true ∧
        isMajority (rs.prevotes.count (some p.blockHeader.hash)) n = true := by
  unfold hasMajorityPrevotes deserializedHash
  cases rs.proposal <;> cases rs.isDataDeserialized <;> simp

theorem hasMajorityPrecommits_iff {rs : RoundState key} :
    rs.hasMajorityPrecommits n = true ↔ ∃ p, rs.proposal = some p ∧ rs.isDataDeserialized = true ∧
        isMajority (rs.precommits.count (some p.blockHeader.hash)) n = true := by
  unfold hasMajorityPrecommits deserializedHash
  cases rs.proposal <;> cases rs.isDataDeserialized <;> simp

variable {rs rs' : RoundState key}

theorem getBlock_isSome :
    rs.getBlock.isSome ↔ rs.hasProposal = true ∧ rs.isDataDeserialized = true := by
  rw [getBlock, hasProposal]
  cases rs.isDataDeserialized <;> simp

theorem getBlock_of_hasMajorityPrevotes (majority : rs.hasMajorityPrevotes n = true) :
    rs.getBlock.isSome := by
  obtain ⟨p, held, parsed, -⟩ := hasMajorityPrevotes_iff.mp majority
  exact getBlock_isSome.mpr ⟨by rw [hasProposal, held]; rfl, parsed⟩

theorem getBlock_of_hasMajorityPrecommits
    (majority : rs.hasMajorityPrecommits n = true) : rs.getBlock.isSome := by
  obtain ⟨p, held, parsed, -⟩ := hasMajorityPrecommits_iff.mp majority
  exact getBlock_isSome.mpr ⟨by rw [hasProposal, held]; rfl, parsed⟩

theorem addProposal_eq_some (h : rs.addProposal p belongs = some rs') :
    rs.proposal = none ∧ rs'.proposal = some p ∧ rs'.prevotes = rs.prevotes ∧
      rs'.precommits = rs.precommits ∧ rs'.processorResult = rs.processorResult := by
  unfold addProposal at h
  split at h
  · contradiction
  · next vacant =>
      cases h
      exact ⟨by simpa [hasProposal] using vacant, rfl, rfl, rfl, rfl⟩

theorem addMessage_eq_some {m : Message} {belongs : m.roundKey = key}
    (h : rs.addMessage m belongs = some rs') :
    rs'.proposal = rs.proposal ∧ rs'.isDataDeserialized = rs.isDataDeserialized ∧
      rs'.processorResult = rs.processorResult ∧
      rs'.prevotes.messages = rs.prevotes.messages ++ (if m.type = .prevote then [m] else []) ∧
      rs'.precommits.messages =
        rs.precommits.messages ++ (if m.type = .precommit then [m] else []) ∧
      rs.hasMessage m = false := by
  unfold addMessage at h
  split at h
  · next type =>
      obtain ⟨votes, added, rfl⟩ := Option.map_eq_some_iff.mp h
      obtain ⟨vacant, messages⟩ := Votes.add_eq_some added
      exact ⟨rfl, rfl, rfl, by simpa [type] using messages, by simp [type],
        by simpa [hasMessage, type, hasPrevote] using vacant⟩
  · next type =>
      obtain ⟨votes, added, rfl⟩ := Option.map_eq_some_iff.mp h
      obtain ⟨vacant, messages⟩ := Votes.add_eq_some added
      exact ⟨rfl, rfl, rfl, by simp [type], by simpa [type] using messages,
        by simpa [hasMessage, type, hasPrecommit] using vacant⟩

/-- A vote that is not there yet is added. -/
theorem exists_addMessage {m : Message} {belongs : m.roundKey = key} (vacant : rs.hasMessage m = false) :
    ∃ rs', rs.addMessage m belongs = some rs' := by
  unfold addMessage
  unfold hasMessage at vacant
  split
  all_goals next type =>
    simp only [type, hasPrevote, hasPrecommit] at vacant
    simp [Votes.add, vacant]

/-- What a round state has come to hold stays. -/
structure Grows (rs rs' : RoundState key) : Prop where
  proposal : ∀ p, rs.proposal = some p → rs'.proposal = some p
  parsed : rs.hasProposal = true → rs.isDataDeserialized = true → rs'.isDataDeserialized = true
  prevotes : rs.prevotes.messages.Sublist rs'.prevotes.messages
  precommits : rs.precommits.messages.Sublist rs'.precommits.messages

/-- The two hold the same proposal and votes. -/
structure SameRecords (rs rs' : RoundState key) : Prop where
  proposal : rs'.proposal = rs.proposal
  prevotes : rs'.prevotes = rs.prevotes
  precommits : rs'.precommits = rs.precommits

theorem sameRecords_deserializePayload (rs : RoundState key) :
    rs.SameRecords rs.deserializePayload := ⟨rfl, rfl, rfl⟩

theorem sameRecords_setProcessorResult (rs : RoundState key) (success : Bool) :
    rs.SameRecords (rs.setProcessorResult success) := ⟨rfl, rfl, rfl⟩

theorem SameRecords.hasProposal (h : rs.SameRecords rs') : rs'.hasProposal = rs.hasProposal := by
  rw [RoundState.hasProposal, RoundState.hasProposal, h.proposal]

theorem Grows.refl (rs : RoundState key) : rs.Grows rs where
  proposal := fun _ h => h
  parsed := fun _ h => h
  prevotes := Sublist.refl _
  precommits := Sublist.refl _

theorem Grows.trans {rs rs' rs'' : RoundState key} (h : rs.Grows rs') (h' : rs'.Grows rs'') :
    rs.Grows rs'' where
  proposal := fun p held => h'.proposal p (h.proposal p held)
  parsed := fun held before => by
    obtain ⟨p, present⟩ := Option.isSome_iff_exists.mp held
    exact h'.parsed (by simp [hasProposal, h.proposal p present]) (h.parsed held before)
  prevotes := h.prevotes.trans h'.prevotes
  precommits := h.precommits.trans h'.precommits

theorem Grows.hasProposal (h : rs.Grows rs')
    (held : rs.hasProposal = true) : rs'.hasProposal = true := by
  obtain ⟨p, present⟩ := Option.isSome_iff_exists.mp held
  simp [RoundState.hasProposal, h.proposal p present]

theorem Grows.hasMessage (h : rs.Grows rs') {m : Message}
    (voted : rs.hasMessage m = true) : rs'.hasMessage m = true := by
  cases type : m.type with
  | prevote =>
    simp only [RoundState.hasMessage, type, hasPrevote, Votes.has_iff] at voted ⊢
    obtain ⟨x, member, same⟩ := voted
    exact ⟨x, h.prevotes.subset member, same⟩
  | precommit =>
    simp only [RoundState.hasMessage, type, hasPrecommit, Votes.has_iff] at voted ⊢
    obtain ⟨x, member, same⟩ := voted
    exact ⟨x, h.precommits.subset member, same⟩

theorem grows_deserializePayload (rs : RoundState key) : rs.Grows rs.deserializePayload :=
  { Grows.refl rs with parsed := fun _ _ => rfl }

theorem grows_setProcessorResult (rs : RoundState key) (success : Bool) :
    rs.Grows (rs.setProcessorResult success) :=
  { Grows.refl rs with }

theorem grows_of_addProposal (h : rs.addProposal p belongs = some rs') : rs.Grows rs' := by
  obtain ⟨vacant, -, prevotes, precommits, -⟩ := addProposal_eq_some h
  exact {
    proposal := fun q held => by simp [vacant] at held
    parsed := fun held => by simp [hasProposal, vacant] at held
    prevotes := by rw [prevotes]
    precommits := by rw [precommits] }

theorem grows_of_addMessage {m : Message}
    {belongs : m.roundKey = key} (h : rs.addMessage m belongs = some rs') : rs.Grows rs' := by
  obtain ⟨proposal, parsed, -, prevotes, precommits, -⟩ := addMessage_eq_some h
  exact {
    proposal := fun p held => by rw [proposal, held]
    parsed := fun _ before => by rw [parsed, before]
    prevotes := by
      rw [prevotes]
      exact sublist_append_left ..
    precommits := by
      rw [precommits]
      exact sublist_append_left .. }

/-- A block found valid stays found valid. -/
theorem Grows.hasMajorityPrevotes (h : rs.Grows rs')
    (majority : rs.hasMajorityPrevotes n = true) : rs'.hasMajorityPrevotes n = true := by
  obtain ⟨p, held, parsed, enough⟩ := hasMajorityPrevotes_iff.mp majority
  refine hasMajorityPrevotes_iff.mpr ⟨p, h.proposal p held, h.parsed ?_ parsed, ?_⟩
  · simp [RoundState.hasProposal, held]
  · rw [isMajority_iff] at enough ⊢
    refine enough.mono ?_
    rw [rs.prevotes.count_eq, rs'.prevotes.count_eq]
    exact h.prevotes.countP_le

end RoundState

/-- `RoundStateRepository`: a round state is created, empty, when it is first asked for. -/
abbrev Repository := (key : RoundKey) → RoundState key

namespace Repository

def empty : Repository := fun _ => .configure

def set (repo : Repository) (key : RoundKey) (rs : RoundState key) : Repository :=
  update repo key rs

@[simp] theorem set_self (repo : Repository) (key : RoundKey) (rs : RoundState key) :
    repo.set key rs key = rs := update_self ..

theorem set_of_ne (repo : Repository) {key other : RoundKey} (rs : RoundState key)
    (ne : other ≠ key) : repo.set key rs other = repo other := update_of_ne ne ..

variable {repo : Repository}

/-- What holds of the new round state and of the others holds of all. -/
theorem forall_set {P : (key : RoundKey) → RoundState key → Prop}
    {key : RoundKey} {rs : RoundState key} (here : P key rs)
    (elsewhere : ∀ other, other ≠ key → P other (repo other)) (other : RoundKey) :
    P other (repo.set key rs other) := by
  by_cases same : other = key
  · subst same
    rw [set_self]
    exact here
  · rw [set_of_ne repo rs same]
    exact elsewhere other same

/-- Every round state grows. -/
def Grows (repo repo' : Repository) : Prop := ∀ key, (repo key).Grows (repo' key)

theorem Grows.refl (repo : Repository) : repo.Grows repo := fun key => .refl (repo key)

theorem Grows.trans {repo' repo'' : Repository} (h : repo.Grows repo')
    (h' : repo'.Grows repo'') : repo.Grows repo'' := fun key => (h key).trans (h' key)

theorem grows_set {key : RoundKey} {rs : RoundState key}
    (h : (repo key).Grows rs) : repo.Grows (repo.set key rs) :=
  forall_set (P := fun other rs => (repo other).Grows rs) h fun _ _ => .refl _

theorem sameRecords_set {key : RoundKey} {rs : RoundState key} (h : (repo key).SameRecords rs)
    (other : RoundKey) : (repo other).SameRecords (repo.set key rs other) :=
  forall_set (P := fun other rs => (repo other).SameRecords rs) h (fun _ _ => ⟨rfl, rfl, rfl⟩) other

end Repository

end Mainsail
