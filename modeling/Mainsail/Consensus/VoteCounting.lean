import Mainsail.Foundation.Counter
import Mainsail.Consensus.RoundState

/-!
# Counting votes

The maps of `round-state.ts` as the source keeps them: the votes by validator index, the number of
votes by block hash, and the flags of the validators that signed. The rules of consensus read the
numbers, the proofs of a commit are made of the votes, so the two must not drift apart.

`RoundState` has the same votes without the maps. Calls lead to states here that represent the ones they
lead to there, and the rules read the same from both.
-/

namespace Mainsail

open AList

/-- The votes of one type. A vote for nil is counted under `none`. -/
structure VoteMaps where
  votes : AList fun _ : Nat => Message
  counts : Counter (Option Bytes)
  signed : List Bool

namespace VoteMaps

variable (maps : VoteMaps)

/-- `configure`: one flag for each validator of the round. -/
def configure (roundValidators : Nat) : VoteMaps := ⟨∅, ∅, List.replicate roundValidators false⟩

/-- `array[index] = true`, which lengthens an array that is too short. -/
def flag (signed : List Bool) (index : Nat) : List Bool :=
  (signed ++ List.replicate (index + 1 - signed.length) false).set index true

def put (m : Message) : VoteMaps where
  votes := maps.votes.insert m.validatorIndex m
  signed := flag maps.signed m.validatorIndex
  counts := maps.counts.increase m.blockHash

/-- `addPrevote` and `addPrecommit`, which differ in their error. -/
def add (exists_ : String) (m : Message) : Except String VoteMaps :=
  if m.validatorIndex ∈ maps.votes then .error exists_ else .ok (maps.put m)

/-- The votes that are stored. -/
def stored : List Message := maps.votes.entries.map (·.2)

/-- The number of stored votes for a value. -/
def storedFor (value : Option Bytes) : Nat := maps.stored.countP (·.blockHash = value)

end VoteMaps

/-- A round state, as far as its votes and the tests on them go. -/
structure RoundVotes where
  proposal : Option Proposal
  isDataDeserialized : Bool
  prevotes : VoteMaps
  precommits : VoteMaps

namespace RoundVotes

def configure (roundValidators : Nat) (proposal : Option Proposal) (isDataDeserialized : Bool) :
    RoundVotes :=
  ⟨proposal, isDataDeserialized, .configure roundValidators, .configure roundValidators⟩

variable (rs : RoundVotes)

def addPrevote (m : Message) : Except String RoundVotes :=
  (rs.prevotes.add "Prevote already exists." m).map fun maps => { rs with prevotes := maps }

def addPrecommit (m : Message) : Except String RoundVotes :=
  (rs.precommits.add "Precommit already exists." m).map fun maps => { rs with precommits := maps }

def addMessage (m : Message) : Except String RoundVotes :=
  match m.type with
  | .prevote => rs.addPrevote m
  | .precommit => rs.addPrecommit m

/-- Calls of `addMessage`, one after the other. A call that throws changes nothing. -/
def addMessages (messages : List Message) : RoundVotes :=
  messages.foldl (fun rs m => (rs.addMessage m).toOption.getD rs) rs

/-- The maps of the votes of one type. -/
def votesOf : MessageType → VoteMaps
  | .prevote => rs.prevotes
  | .precommit => rs.precommits

/-- `hasMajorityPrevotes` and `hasMajorityPrecommits`: for the block of the proposal. -/
def hasMajority (type : MessageType) (roundValidators : Nat) : Bool :=
  match rs.proposal with
  | none => false
  | some p =>
    rs.isDataDeserialized &&
      isMajority ((rs.votesOf type).counts.get (some p.blockHeader.hash)) roundValidators

def hasMajorityPrevotes : Nat → Bool := rs.hasMajority .prevote

/-- `hasMajorityPrevotesAny` and `hasMajorityPrecommitsAny`. -/
def hasMajorityAny (type : MessageType) (roundValidators : Nat) : Bool :=
  isMajority (rs.votesOf type).votes.entries.length roundValidators

def hasMajorityPrevotesNull (roundValidators : Nat) : Bool :=
  isMajority (rs.prevotes.counts.get none) roundValidators

/-- More than two thirds precommits for one block while its proposal never arrived. -/
def hasMajorityPrecommitsWithoutProposal (roundValidators : Nat) : Bool :=
  rs.proposal.isNone && rs.precommits.counts.entries.any fun entry =>
    entry.1.isSome && isMajority entry.2 roundValidators

end RoundVotes

/-! ## What the maps say -/

namespace VoteMaps

variable {maps : VoteMaps} {type : MessageType} {n : Nat} {m : Message}

/-- The maps belong together, for votes of one type by validators below `n`. -/
structure Sound (type : MessageType) (n : Nat) (maps : VoteMaps) : Prop where
  entry : ∀ e ∈ maps.votes.entries, e.2.validatorIndex = e.1 ∧ e.2.type = type ∧ e.1 < n
  count : ∀ value, maps.counts.get value = maps.storedFor value
  total : maps.counts.total = maps.stored.length
  flags : maps.signed.length = n
  signed : ∀ i, maps.signed[i]? = some true ↔ i ∈ maps.votes

theorem sound_configure (type : MessageType) (n : Nat) : (configure n).Sound type n where
  entry := by simp [configure]
  count := fun value => rfl
  total := rfl
  flags := List.length_replicate
  signed := by
    intro i
    simp [configure, List.getElem?_replicate]

variable {value other : Option Bytes}

theorem stored_put (fresh : m.validatorIndex ∉ maps.votes) :
    (maps.put m).stored = m :: maps.stored := by
  rw [put, stored, entries_insert_of_notMem fresh]
  rfl

theorem flag_of_lt {signed : List Bool} {index : Nat} (inside : index < signed.length) :
    flag signed index = signed.set index true := by
  simp [flag, Nat.sub_eq_zero_of_le inside]

section

variable (h : maps.Sound type n)
include h

theorem Sound.put (type_eq : m.type = type) (low : m.validatorIndex < n)
    (fresh : m.validatorIndex ∉ maps.votes) : (maps.put m).Sound type n := by
  have inside : m.validatorIndex < maps.signed.length := h.flags.symm ▸ low
  refine ⟨?_, ?_, ?_, ?_, ?_⟩
  · intro e member
    rw [VoteMaps.put, entries_insert_of_notMem fresh] at member
    obtain rfl | old := List.mem_cons.mp member
    · exact ⟨rfl, type_eq, low⟩
    · exact h.entry e old
  · intro value
    rw [storedFor, stored_put fresh, List.countP_cons, ← storedFor, ← h.count value, VoteMaps.put]
    by_cases same : value = m.blockHash
    · subst same
      simp
    · rw [Counter.get_increase_of_ne _ _ same]
      simp [Ne.symm same]
  · rw [stored_put fresh, VoteMaps.put, Counter.total_increase, h.total]
    rfl
  · rw [VoteMaps.put, flag_of_lt inside, List.length_set, h.flags]
  · intro i
    rw [VoteMaps.put, flag_of_lt inside, mem_insert, ← h.signed i]
    by_cases same : i = m.validatorIndex
    · subst same
      simp [inside]
    · simp [List.getElem?_set_ne (Ne.symm same), same]

theorem Sound.length_le : maps.stored.length ≤ n := by
  have inside : maps.votes.keys ⊆ List.range n := by
    intro i member
    obtain ⟨e, there, rfl⟩ := List.mem_map.mp member
    exact List.mem_range.mpr (h.entry e there).2.2
  calc maps.stored.length = maps.votes.keys.length := by
        rw [stored, List.length_map, keys, List.keys, List.length_map]
    _ ≤ (List.range n).length := (maps.votes.keys_nodup.subperm inside).length_le
    _ = n := List.length_range

theorem Sound.signed_iff (i : Nat) :
    maps.signed[i]? = some true ↔ ∃ m ∈ maps.stored, m.validatorIndex = i := by
  rw [h.signed i, mem_keys, keys]
  constructor
  · intro member
    obtain ⟨e, there, rfl⟩ := List.mem_map.mp member
    exact ⟨e.2, List.mem_map_of_mem there, (h.entry e there).1⟩
  · rintro ⟨m, member, rfl⟩
    obtain ⟨e, there, rfl⟩ := List.mem_map.mp member
    rw [(h.entry e there).1]
    exact List.mem_map_of_mem there

end

/-- Votes for two values are different votes. -/
theorem storedFor_add_le (differ : value ≠ other) :
    maps.storedFor value + maps.storedFor other ≤ maps.stored.length := by
  rw [storedFor, storedFor]
  generalize maps.stored = votes
  induction votes with
  | nil => exact Nat.le_refl 0
  | cons m votes ih =>
    rw [List.countP_cons, List.countP_cons, List.length_cons]
    by_cases first : m.blockHash = value
    · have second : m.blockHash ≠ other := first ▸ differ
      simp only [first, differ, decide_true, decide_false, if_true, Bool.false_eq_true, if_false]
      omega
    · simp only [first, decide_false, Bool.false_eq_true, if_false]
      split <;> omega

/-- Two majorities among the same validators would be more than all of them. -/
theorem Sound.majority_unique (h : maps.Sound type n)
    (first : isMajority (maps.counts.get value) n = true)
    (second : isMajority (maps.counts.get other) n = true) : value = other := by
  by_contra differ
  have apart := maps.storedFor_add_le differ
  have few := h.length_le
  rw [← h.count, ← h.count] at apart
  simp only [isMajority, decide_eq_true_eq] at first second
  omega

end VoteMaps

/-! ## Calls -/

namespace RoundVotes

variable {rs : RoundVotes} {n : Nat} {m : Message}

/-- One more vote. -/
def put (rs : RoundVotes) (m : Message) : RoundVotes where
  proposal := rs.proposal
  isDataDeserialized := rs.isDataDeserialized
  prevotes := if m.type = .prevote then rs.prevotes.put m else rs.prevotes
  precommits := if m.type = .precommit then rs.precommits.put m else rs.precommits

theorem votesOf_put (type : MessageType) : (rs.put m).votesOf type =
    if m.type = type then (rs.votesOf type).put m else rs.votesOf type := by
  cases type <;> rfl

/-- A vote is taken if its validator has none of its type. -/
theorem addMessage_eq : (rs.addMessage m).toOption =
    if m.validatorIndex ∈ (rs.votesOf m.type).votes then none else some (rs.put m) := by
  cases type : m.type <;>
    simp only [addMessage, addPrevote, addPrecommit, VoteMaps.add, votesOf, put, type] <;>
    split_ifs <;> simp_all [Except.map, Except.toOption]

/-- Both kinds of votes, for a fixed proposal. -/
structure Counted (n : Nat) (proposal : Option Proposal) (isDataDeserialized : Bool)
    (rs : RoundVotes) : Prop where
  proposal_eq : rs.proposal = proposal
  deserialized : rs.isDataDeserialized = isDataDeserialized
  sound : ∀ type, (rs.votesOf type).Sound type n

variable {proposal : Option Proposal} {isDataDeserialized : Bool}

section

variable (h : rs.Counted n proposal isDataDeserialized)
include h

theorem Counted.put (low : m.validatorIndex < n)
    (fresh : m.validatorIndex ∉ (rs.votesOf m.type).votes) :
    (rs.put m).Counted n proposal isDataDeserialized := by
  refine ⟨h.proposal_eq, h.deserialized, fun type => ?_⟩
  rw [votesOf_put]
  split_ifs with own
  · subst own
    exact (h.sound _).put rfl low fresh
  · exact h.sound type

theorem Counted.addMessages {messages : List Message} (low : ∀ m ∈ messages, m.validatorIndex < n) :
    (rs.addMessages messages).Counted n proposal isDataDeserialized := by
  induction messages generalizing rs with
  | nil => exact h
  | cons m messages ih =>
    obtain ⟨first, rest⟩ := List.forall_mem_cons.mp low
    rw [RoundVotes.addMessages, List.foldl_cons, ← RoundVotes.addMessages]
    rw [addMessage_eq]
    split_ifs with known
    · exact ih h rest
    · exact ih (h.put first known) rest

end

theorem counted_configure : (configure n proposal isDataDeserialized).Counted n proposal
    isDataDeserialized :=
  ⟨rfl, rfl, fun type => by cases type <;> exact VoteMaps.sound_configure _ n⟩

/-- What a round state says about its votes of one type, in terms of the votes it stores. -/
structure Exact (n : Nat) (rs : RoundVotes) (type : MessageType) : Prop where
  stored : ∀ m ∈ (rs.votesOf type).stored, m.type = type ∧ m.validatorIndex < n
  count : ∀ value, (rs.votesOf type).counts.get value = (rs.votesOf type).storedFor value
  total : (rs.votesOf type).counts.total = (rs.votesOf type).stored.length
  signed : ∀ i, (rs.votesOf type).signed[i]? = some true ↔
    ∃ m ∈ (rs.votesOf type).stored, m.validatorIndex = i
  flags : (rs.votesOf type).signed.length = n
  unique : ∀ value other, isMajority ((rs.votesOf type).counts.get value) n = true →
    isMajority ((rs.votesOf type).counts.get other) n = true → value = other
  any : rs.hasMajorityAny type n = true ↔ n * 2 < (rs.votesOf type).stored.length * 3
  majority : rs.hasMajority type n = true ↔ ∃ p, rs.proposal = some p ∧
    rs.isDataDeserialized = true ∧
    n * 2 < (rs.votesOf type).storedFor (some p.blockHeader.hash) * 3

section

variable (h : rs.Counted n proposal isDataDeserialized)
include h

theorem Counted.exact (type : MessageType) :
    rs.Exact n type where
  stored := by
    intro m member
    obtain ⟨e, there, rfl⟩ := List.mem_map.mp member
    obtain ⟨index, type_eq, low⟩ := (h.sound type).entry e there
    exact ⟨type_eq, index ▸ low⟩
  count := (h.sound type).count
  total := (h.sound type).total
  signed := (h.sound type).signed_iff
  flags := (h.sound type).flags
  unique := fun _ _ => (h.sound type).majority_unique
  any := by
    rw [hasMajorityAny, isMajority, VoteMaps.stored, List.length_map]
    simp
  majority := by
    rw [hasMajority]
    cases rs.proposal with
    | none => simp
    | some p => simp [(h.sound type).count, isMajority]

/-- Precommits for a block that is not there: the map of counts has no other majorities than the
stored votes. -/
theorem Counted.withoutProposal :
    rs.hasMajorityPrecommitsWithoutProposal n = true ↔ rs.proposal = none ∧
      ∃ hash, n * 2 < rs.precommits.storedFor (some hash) * 3 := by
  have count : ∀ value, rs.precommits.counts.get value = rs.precommits.storedFor value :=
    (h.sound .precommit).count
  simp only [hasMajorityPrecommitsWithoutProposal, Bool.and_eq_true, Option.isNone_iff_eq_none,
    List.any_eq_true]
  refine and_congr_right fun _ => ⟨?_, ?_⟩
  · rintro ⟨⟨value, number⟩, there, some_hash, majority⟩
    obtain ⟨hash, rfl⟩ := Option.isSome_iff_exists.mp some_hash
    have found : rs.precommits.counts.get (some hash) = number := by
      rw [Counter.get, mem_lookup_iff.mpr there]
      rfl
    refine ⟨hash, ?_⟩
    rw [← count, found]
    simpa [isMajority] using majority
  · rintro ⟨hash, majority⟩
    rw [← count, Counter.get] at majority
    cases found : rs.precommits.counts.lookup (some hash) with
    | none => simp [found] at majority
    | some number =>
      rw [found] at majority
      exact ⟨⟨some hash, number⟩, mem_lookup_iff.mp found, rfl, by simpa [isMajority] using majority⟩

end

/-! ## The round states of the rules -/

section Represents

variable {key : RoundKey} {state : RoundState key}

/-- The votes of one type. -/
def messagesOf (state : RoundState key) : MessageType → List Message
  | .prevote => state.prevotes.messages
  | .precommit => state.precommits.messages

/-- The maps hold the proposal and the votes of a round state. -/
structure Represents (n : Nat) (rs : RoundVotes) (state : RoundState key) : Prop extends
    rs.Counted n state.proposal state.isDataDeserialized where
  stored : ∀ type, (rs.votesOf type).stored = (messagesOf state type).reverse

variable (h : rs.Represents n state)
include h

theorem Represents.mem_iff :
    m.validatorIndex ∈ (rs.votesOf m.type).votes ↔ state.hasMessage m = true := by
  rw [← (h.sound m.type).signed, (h.sound m.type).signed_iff, h.stored]
  cases type : m.type <;>
    simp [RoundState.hasMessage, RoundState.hasPrevote, RoundState.hasPrecommit, Votes.has_iff, type,
      messagesOf]

/-- A call changes both, or neither. -/
theorem Represents.addMessage (low : m.validatorIndex < n) (belongs : m.roundKey = key) :
    ((rs.addMessage m).toOption.getD rs).Represents n ((state.addMessage m belongs).getD state) := by
  rw [addMessage_eq]
  cases taken : state.addMessage m belongs with
  | none =>
    have known : state.hasMessage m = true := by
      by_contra vacant
      obtain ⟨state', taken'⟩ := RoundState.exists_addMessage (Bool.eq_false_iff.mpr vacant)
      cases taken.symm.trans taken'
    rw [if_pos (h.mem_iff.mpr known)]
    exact h
  | some state' =>
    obtain ⟨proposal, parsed, -, prevotes, precommits, vacant⟩ := RoundState.addMessage_eq_some taken
    have fresh := mt h.mem_iff.mp (Bool.eq_false_iff.mp vacant)
    rw [if_neg fresh, Option.getD_some, Option.getD_some]
    refine ⟨?_, fun type => ?_⟩
    · rw [proposal, parsed]
      exact h.put low fresh
    · have more : messagesOf state' type =
          messagesOf state type ++ if m.type = type then [m] else [] := by
        cases type <;> assumption
      rw [votesOf_put, more]
      split_ifs with own
      · subst own
        rw [VoteMaps.stored_put fresh, h.stored]
        simp
      · simpa using h.stored type

/-- Calls lead from states that agree to states that agree. -/
theorem Represents.addMessages (messages : List { m : Message // m.roundKey = key })
    (low : ∀ m ∈ messages, m.1.validatorIndex < n) :
    (rs.addMessages (messages.map (·.1))).Represents n
      (messages.foldl (fun state m => (state.addMessage m.1 m.2).getD state) state) := by
  induction messages generalizing rs state with
  | nil => exact h
  | cons m messages ih =>
    obtain ⟨first, rest⟩ := List.forall_mem_cons.mp low
    exact ih (h.addMessage first m.2) rest

/-- The rules read the same from both. -/
theorem Represents.tests : rs.hasMajority .prevote n = state.hasMajorityPrevotes n ∧
    rs.hasMajority .precommit n = state.hasMajorityPrecommits n ∧
    rs.hasMajorityPrevotesNull n = state.hasMajorityPrevotesNull n := by
  have count (type : MessageType) (value : Option Bytes) : (rs.votesOf type).counts.get value =
      (messagesOf state type).countP (·.blockHash = value) := by
    rw [(h.sound type).count, VoteMaps.storedFor, h.stored, List.countP_reverse]
  have null := count .prevote none
  simp only [votesOf] at null
  simp only [hasMajority, count, null, h.proposal_eq, h.deserialized, messagesOf, Votes.count_eq,
    RoundState.hasMajorityPrevotes, RoundState.hasMajorityPrecommits, RoundState.deserializedHash,
    hasMajorityPrevotesNull, RoundState.hasMajorityPrevotesNull]
  cases state.proposal <;> cases state.isDataDeserialized <;> simp

end Represents

/-- After any calls of `addMessage` the counts are those of the stored votes, the flags mark their
senders, and the tests for a majority hold exactly where the stored votes make one. -/
theorem addMessages_exact (n : Nat) (proposal : Option Proposal) (isDataDeserialized : Bool)
    (messages : List Message) (low : ∀ m ∈ messages, m.validatorIndex < n) :
    let rs := (configure n proposal isDataDeserialized).addMessages messages
    rs.proposal = proposal ∧ rs.isDataDeserialized = isDataDeserialized ∧
      (∀ type, rs.Exact n type) ∧
      (rs.hasMajorityPrevotesNull n = true ↔ n * 2 < rs.prevotes.storedFor none * 3) ∧
      (rs.hasMajorityPrecommitsWithoutProposal n = true ↔ proposal = none ∧
        ∃ hash, n * 2 < rs.precommits.storedFor (some hash) * 3) := by
  intro rs
  have counted : rs.Counted n proposal isDataDeserialized := counted_configure.addMessages low
  refine ⟨counted.proposal_eq, counted.deserialized, counted.exact, ?_, ?_⟩
  · have count : rs.prevotes.counts.get none = rs.prevotes.storedFor none :=
      (counted.sound .prevote).count none
    rw [hasMajorityPrevotesNull, isMajority, count]
    simp
  · rw [counted.withoutProposal, counted.proposal_eq]

/-- Three prevotes for a block, one of them twice, and one for nil. -/
def splitPrevotes : List Message :=
  [⟨.prevote, 1, 0, some [7], 0, []⟩, ⟨.prevote, 1, 0, some [7], 1, []⟩,
    ⟨.prevote, 1, 0, none, 3, []⟩, ⟨.prevote, 1, 0, none, 0, []⟩, ⟨.prevote, 1, 0, some [7], 2, []⟩]

theorem addMessages_exact_splitPrevotes :
    let rs := (configure 4 (some (.fresh ⟨1, [7], 0⟩ 0 0 [])) true).addMessages splitPrevotes
    rs.Exact 4 .prevote ∧ rs.prevotes.storedFor (some [7]) = 3 ∧ rs.prevotes.storedFor none = 1 ∧
      rs.hasMajorityPrevotes 4 = true ∧ rs.hasMajorityPrevotesNull 4 = false := by
  have low : ∀ m ∈ splitPrevotes, m.validatorIndex < 4 := by decide
  obtain ⟨-, -, exact', -⟩ :=
    addMessages_exact 4 (some (.fresh ⟨1, [7], 0⟩ 0 0 [])) true splitPrevotes low
  exact ⟨exact' .prevote, by decide, by decide, by decide, by decide⟩

end RoundVotes

end Mainsail
