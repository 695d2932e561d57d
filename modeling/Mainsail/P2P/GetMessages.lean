import Mainsail.P2P.MessageDownloader

/-!
# Requests for votes

`GetMessagesController` serves the votes of the highest round of the peer in which more than a third of
the validators have voted: those that the header of the request does not list where the request is of
that round, else all of them. The downloader wants two thirds of both types from a round above its own,
and from its own round every vote that the peer had when it was chosen.
-/

namespace Mainsail

open Finset

/-- The votes of a type. -/
def RoundState.votes {key : RoundKey} (rs : RoundState key) : (type : MessageType) → Votes type key
  | .prevote => rs.prevotes
  | .precommit => rs.precommits

namespace P2P

/-! ## The serving node -/

/-- The loop of `getPrevotes` and `getPrecommits`. -/
def getMissing {type : MessageType} {key : RoundKey} (validatorsSigned : List Bool)
    (votes : Votes type key) : List Message :=
  (List.range validatorsSigned.length).filterMap fun i =>
    if validatorsSigned.getD i false then none else votes.get i

def getPrevotes {key : RoundKey} (validatorsSignedPrevote : List Bool) (rs : RoundState key) :
    List Message :=
  getMissing validatorsSignedPrevote rs.prevotes

def getPrecommits {key : RoundKey} (validatorsSignedPrecommit : List Bool) (rs : RoundState key) :
    List Message :=
  getMissing validatorsSignedPrecommit rs.precommits

structure GetMessagesResponse where
  precommits : List Message
  prevotes : List Message
  deriving DecidableEq, Repr

/-- The round that is served to a request of this round. -/
def servedRound (roundValidators : Nat → Nat) (peer : Node) (round : Nat) : Nat :=
  if 1 ≤ peer.round ∧ round < peer.round ∧
      (peer.roundStates peer.current).hasMinorityPrevotesOrPrecommits
        (roundValidators peer.blockNumber) = false then
    peer.round - 1
  else peer.round

/-- `GetMessagesController.handle`. -/
def getMessages (roundValidators : Nat → Nat) (peer : Node) (request : HeaderData) :
    GetMessagesResponse :=
  if request.blockNumber ≠ peer.blockNumber ∨ peer.round < request.round then ⟨[], []⟩
  else
    let round := servedRound roundValidators peer request.round
    let roundState := peer.roundStates ⟨request.blockNumber, round⟩
    if request.round = round then
      ⟨getPrecommits request.validatorsSignedPrecommit roundState,
        getPrevotes request.validatorsSignedPrevote roundState⟩
    else ⟨roundState.precommits.messages, roundState.prevotes.messages⟩

def GetMessagesResponse.votes (response : GetMessagesResponse) : MessageType → List Message
  | .prevote => response.prevotes
  | .precommit => response.precommits

/-- The validators that have voted in a round, as far as a node knows. -/
def voters (env : Env) (n : Node) (key : RoundKey) (type : MessageType) : Finset Nat :=
  (range (env.roundValidators key.blockNumber)).filter fun i =>
    ((n.roundStates key).votes type).has i = true

section Served

variable {type type' : MessageType} {key key' : RoundKey} {votes : Votes type key}
variable {votes' : Votes type' key'} {i : Nat}

theorem validatorIndex_of_get {m : Message} (h : votes.get i = some m) :
    m ∈ votes.messages ∧ m.validatorIndex = i :=
  ⟨List.mem_of_find?_eq_some h, by simpa using List.find?_some h⟩

theorem isSome_get : (votes.get i).isSome = votes.has i := by
  rw [Votes.get, Votes.has, Bool.eq_iff_iff]
  simp

/-- The indexes of the votes that a request does not list. -/
theorem map_getMissing {roundValidators : Nat} :
    (getMissing (signed roundValidators votes') votes).map (·.validatorIndex) =
      (List.range roundValidators).filter fun i => !votes'.has i && votes.has i := by
  rw [getMissing, length_signed, List.map_filterMap, ← List.filterMap_eq_filter]
  refine List.filterMap_congr fun i member => ?_
  have bound : i < roundValidators := List.mem_range.mp member
  rw [getD_signed, decide_eq_true bound, Bool.true_and]
  have found : (votes.get i).isSome = votes.has i := isSome_get
  cases own : votes'.has i with
  | true => simp [Option.guard, own]
  | false =>
    cases held : votes.get i with
    | none =>
      rw [held] at found
      simp [Option.guard, ← found]
    | some m =>
      rw [held] at found
      simp [Option.guard, own, ← found, (validatorIndex_of_get held).2]

theorem mem_of_mem_getMissing {list : List Bool} {m : Message} (h : m ∈ getMissing list votes) :
    m ∈ votes.messages := by
  obtain ⟨i, -, found⟩ := List.mem_filterMap.mp h
  split_ifs at found
  exact (validatorIndex_of_get found).1

theorem count_signed {roundValidators : Nat} : (signed roundValidators votes).count true =
      ((range roundValidators).filter fun i => votes.has i = true).card := by
  rw [signed, List.count_eq_countP, List.countP_map, List.countP_eq_length_filter,
    ← List.toFinset_card_of_nodup (List.nodup_range.filter _)]
  congr 1
  ext i
  simp

theorem count_signed_le_size {roundValidators : Nat} :
    (signed roundValidators votes).count true ≤ votes.size := by
  have subset : ((range roundValidators).filter fun i => votes.has i = true) ⊆
      (votes.messages.map (·.validatorIndex)).toFinset := by
    intro i member
    rw [List.mem_toFinset, List.mem_map]
    exact Votes.has_iff.mp (mem_filter.mp member).2
  calc (signed roundValidators votes).count true
      = ((range roundValidators).filter fun i => votes.has i = true).card := count_signed
    _ ≤ (votes.messages.map (·.validatorIndex)).toFinset.card := card_le_card subset
    _ ≤ (votes.messages.map (·.validatorIndex)).length := List.toFinset_card_le _
    _ = votes.size := List.length_map _

end Served

section ServedRound

variable {roundValidators : Nat → Nat} {peer : Node} {round : Nat}

theorem le_servedRound (reached : round ≤ peer.round) :
    round ≤ servedRound roundValidators peer round := by
  unfold servedRound
  split_ifs <;> omega

theorem pred_le_servedRound : peer.round - 1 ≤ servedRound roundValidators peer round := by
  unfold servedRound
  split_ifs <;> omega

theorem servedRound_of_minority (minority : isMinority (peer.roundStates peer.current).prevotes.size
      (roundValidators peer.blockNumber) = true) :
    servedRound roundValidators peer round = peer.round := by
  refine if_neg ?_
  simp [RoundState.hasMinorityPrevotesOrPrecommits, minority]

end ServedRound

/-! ## Exchanges -/

/-- The reply schema `getMessages`. -/
def validMessages (env : Env) (n : Node) (headers : HeaderData) (response : GetMessagesResponse) : Bool :=
  validHeader env n headers &&
    limitToRoundValidators env n (some 0) response.precommits.length &&
    limitToRoundValidators env n (some 0) response.prevotes.length

theorem validMessages_iff {env : Env} {n : Node} {headers : HeaderData} {response : GetMessagesResponse} :
    validMessages env n headers response = true ↔ validHeader env n headers = true ∧
      ∀ type, (response.votes type).length ≤ currentRoundValidators env n := by
  simp only [validMessages, limitToRoundValidators, Option.getD_some, Bool.and_eq_true,
    decide_eq_true_eq, MessageType.forall, Nat.zero_le, true_and, and_assoc, GetMessagesResponse.votes]
  exact and_congr_right fun _ => and_comm

/-- `MessageProcessor.process`, called in the first state; the second one is that after the check of the
signature. Where an identical vote is `pending`, its check is shared. -/
def MessageProcessor.process (env : Env) (intake : Intake) (n n' : Node) (pending : Bool) (now : Nat)
    (m : Message) : ProcessorResult :=
  if n.isDisposed then .skipped
  else if hasValidBlockNumberAndRound n m.roundKey = false then .skipped
  else if isRoundAheadOfTime env intake n m.round now then .skipped
  else if (n.roundStates m.roundKey).hasMessage m then .skipped
  else if intake.verifiesMessage m = false then .invalid
  else if pending then .skipped
  else if (n'.roundStates m.roundKey).hasMessage m then .skipped
  else .accepted

theorem MessageProcessor.process_ne_invalid {env : Env} {intake : Intake} {n n' : Node} {pending : Bool}
    {now : Nat} {m : Message} (verifies : intake.verifiesMessage m = true) :
    process env intake n n' pending now m ≠ .invalid := by
  unfold process
  split_ifs <;> simp_all

/-- The node that asks also processes each vote, and counts its own votes, in the last of these states,
while it is at the block number still. -/
structure MessageExchange (env peerEnv : Env) extends Exchange env peerEnv where
  processing : Message → Node
  verified : Message → Node
  counted : Node
  received_processing : ∀ m, Later env received (processing m)
  processing_verified : ∀ m, Later env (processing m) (verified m)
  chosen_counted : Later env chosen counted
  counted_blockNumber : counted.blockNumber = chosen.blockNumber

namespace MessageExchange

variable {env peerEnv : Env} (x : MessageExchange env peerEnv)

/-- The answer of the peer. -/
def reply : GetMessagesResponse :=
  getMessages peerEnv.roundValidators x.answering (header env x.written)

/-- What the exchange comes to for the peer. -/
def outcome (intake : Intake) (pending : Message → Bool) (now : Message → Nat) (job : MessageJob) :
    Except MessageDownloader.Fault Unit :=
  let ours := x.counted.roundStates x.chosen.current
  MessageDownloader.downloadMessagesFromPeer env.roundValidators
    (validMessages env x.received (header peerEnv x.replying) x.reply)
    x.reply.prevotes x.reply.precommits
    (fun m => MessageProcessor.process env intake (x.processing m) (x.verified m) (pending m) (now m) m)
    ((signed (env.roundValidators x.chosen.blockNumber) ours.prevotes).count true)
    ((signed (env.roundValidators x.chosen.blockNumber) ours.precommits).count true) job

/-- The peer answers: it is at the block number of the request, and in its round or a higher one. -/
def Answers : Prop :=
  x.written.blockNumber = x.answering.blockNumber ∧ x.written.round ≤ x.answering.round

/-- The round that the peer answers with. -/
def key : RoundKey :=
  ⟨x.written.blockNumber, servedRound env.roundValidators x.answering x.written.round⟩

/-- The voters of that round, without those that the request lists where it is of that round. -/
def fresh (type : MessageType) : Finset Nat :=
  if x.written.round = x.key.round then
    voters env x.answering x.key type \ voters env x.written x.key type
  else voters env x.answering x.key type

/-- The votes that a job for our round is for. -/
def requested (flags : MessageType → List Bool) (type : MessageType) : Finset Nat :=
  (voters env x.known x.known.current type \ voters env x.chosen x.chosen.current type).filter fun i =>
    (flags type)[i]? = some false

/-- What the peer has is enough for the one that asks. -/
def Enough (flags : MessageType → List Bool) : Prop :=
  if x.chosen.round < x.key.round then
    ∀ type, isMajority ((x.fresh type).card + (voters env x.counted x.chosen.current type).card)
      (env.roundValidators x.chosen.blockNumber) = true
  else ∀ type, x.requested flags type ⊆ x.fresh type

section Reply

variable {x}

theorem mem_voters {n : Node} {key : RoundKey} {type : MessageType} {i : Nat} :
    i ∈ voters env n key type ↔
      i < env.roundValidators key.blockNumber ∧ ((n.roundStates key).votes type).has i = true := by
  simp [voters]

theorem reply_of_not_answers (silent : ¬ x.Answers) : x.reply = ⟨[], []⟩ := by
  refine if_pos ?_
  simp only [header_blockNumber, header_round]
  rcases not_and_or.mp silent with elsewhere | behind
  · exact .inl elsewhere
  · exact .inr (Nat.lt_of_not_le behind)

variable (shared : peerEnv.roundValidators = env.roundValidators) (answers : x.Answers)
include shared answers

/-- The votes of a type that the peer answers with. -/
theorem votes_reply (type : MessageType) :
    x.reply.votes type =
      if x.written.round = x.key.round then
        getMissing (signed (env.roundValidators x.written.blockNumber)
          ((x.written.roundStates x.written.current).votes type))
          ((x.answering.roundStates x.key).votes type)
      else ((x.answering.roundStates x.key).votes type).messages := by
  obtain ⟨here, reached⟩ := answers
  have stays : ¬ ((header env x.written).blockNumber ≠ x.answering.blockNumber ∨
      x.answering.round < (header env x.written).round) := by
    simp only [header_blockNumber, header_round]
    omega
  rw [reply, shared, getMessages, if_neg stays]
  by_cases current : x.written.round = x.key.round
  · have current' : (header env x.written).round =
        servedRound env.roundValidators x.answering (header env x.written).round := current
    simp only [if_pos current', if_pos current]
    cases type with
    | prevote | precommit => rfl
  · have current' : ¬ (header env x.written).round =
        servedRound env.roundValidators x.answering (header env x.written).round := current
    simp only [if_neg current', if_neg current]
    cases type with
    | prevote | precommit => rfl

/-- Whom the votes in the answer are of. -/
theorem map_votes_reply
    (bounded : ∀ type, ∀ m ∈ ((x.answering.roundStates x.key).votes type).messages,
      m.validatorIndex < env.roundValidators m.blockNumber) (type : MessageType) :
    ((x.reply.votes type).map (·.validatorIndex)).Nodup ∧
      ((x.reply.votes type).map (·.validatorIndex)).toFinset = x.fresh type := by
  rw [votes_reply shared answers, fresh]
  split_ifs with current
  · have same : x.written.current = x.key := by
      rw [Core.current, current]
      rfl
    rw [map_getMissing]
    refine ⟨List.nodup_range.filter _, ?_⟩
    ext i
    have listed : ((x.written.roundStates x.written.current).votes type).has i =
        ((x.written.roundStates x.key).votes type).has i := by rw [same]
    have number : x.key.blockNumber = x.written.blockNumber := rfl
    simp only [List.mem_toFinset, List.mem_filter, List.mem_range, mem_sdiff, mem_voters,
      Bool.and_eq_true, Bool.not_eq_true', listed, number]
    grind
  · refine ⟨((x.answering.roundStates x.key).votes type).nodup, ?_⟩
    ext i
    rw [List.mem_toFinset, mem_voters, Votes.has_iff, List.mem_map]
    constructor
    · rintro ⟨m, member, rfl⟩
      have number : m.blockNumber = x.key.blockNumber :=
        congrArg RoundKey.blockNumber (((x.answering.roundStates x.key).votes type).routed m member).2
      exact ⟨number ▸ bounded type m member, m, member, rfl⟩
    · rintro ⟨-, found⟩
      exact found

theorem mem_of_mem_votes {type : MessageType} {m : Message}
    (member : m ∈ x.reply.votes type) :
    m ∈ ((x.answering.roundStates x.key).votes type).messages := by
  rw [votes_reply shared answers] at member
  split_ifs at member
  · exact mem_of_mem_getMissing member
  · exact member

end Reply

end MessageExchange

theorem isMinority_mono {size size' roundValidators : Nat} (le : size ≤ size')
    (minority : isMinority size roundValidators = true) : isMinority size' roundValidators = true := by
  simp only [isMinority, decide_eq_true_eq] at minority ⊢
  omega

namespace MessageExchange

variable {env peerEnv : Env} {x : MessageExchange env peerEnv} {blocksDownloading : Bool}
variable {downloads : DownloadsByRound} {rounds : List Nat} {job : MessageJob}
variable (made : MessageDownloader.download env.roundValidators blocksDownloading downloads rounds
  (header env x.chosen) (header peerEnv x.known) = some job)

include made in
/-- A peer that has gone on does not answer with a round below that of the job. -/
theorem round_le_key (answers : x.Answers) (still : x.written.blockNumber = x.chosen.blockNumber) :
    job.round ≤ x.key.round := by
  obtain ⟨number, -, round, -⟩ := MessageDownloader.download_cases made
  simp only [header_blockNumber] at number
  obtain ⟨here, reached⟩ := answers
  have same : x.answering.blockNumber = x.known.blockNumber := by omega
  have ours : x.chosen.round ≤ x.written.round := x.chosen_written.round_le x.up still
  have theirs : x.known.round ≤ x.answering.round := x.known_answering.round_le x.peerUp same
  have served : x.written.round ≤ x.key.round := le_servedRound reached
  have below : x.answering.round - 1 ≤ x.key.round := pred_le_servedRound
  rw [round, MessageDownloader.getHighestRoundToDownload]
  split_ifs with current minority
  · show x.known.round ≤ x.key.round
    simp only [header_round] at current
    omega
  · show x.known.round ≤ x.key.round
    -- The votes that the header listed are still there, so the peer does not serve a lower round.
    by_cases on : x.known.round < x.answering.round
    · omega
    · have stays : x.answering.current = x.known.current := by
        simp only [Core.current, RoundKey.mk.injEq]
        omega
      have more : ((header peerEnv x.known).validatorsSignedPrevote.count true) ≤
          (x.answering.roundStates x.answering.current).prevotes.size := by
        rw [stays]
        exact count_signed_le_size.trans
          ((x.known_answering.grows x.peerUp same x.known.current).prevotes.length_le)
      have minority' := isMinority_mono more minority
      rw [header_blockNumber, show x.chosen.blockNumber = x.answering.blockNumber by omega]
        at minority'
      exact theirs.trans_eq (servedRound_of_minority minority').symm
  · show x.known.round - 1 ≤ x.key.round
    omega

/-- The indexes of a job for our round. -/
theorem mem_indexes_partialJob {type : MessageType} {round i : Nat}
    (shared : peerEnv.roundValidators = env.roundValidators)
    (same : x.chosen.blockNumber = x.known.blockNumber) :
    i ∈ (MessageDownloader.partialJob (header env x.chosen) (header peerEnv x.known) downloads
        round).indexes type ↔ i ∈ x.requested downloads.flags type := by
  have listed : i ∈ (MessageDownloader.partialJob (header env x.chosen) (header peerEnv x.known)
      downloads round).indexes type ↔ (downloads.flags type)[i]? = some false ∧
        (signed (peerEnv.roundValidators x.known.blockNumber)
          ((x.known.roundStates x.known.current).votes type)).getD i false = true ∧
        (signed (env.roundValidators x.chosen.blockNumber)
          ((x.chosen.roundStates x.chosen.current).votes type)).getD i false = false := by
    cases type with
    | prevote | precommit => exact MessageDownloader.mem_getIndexesToDownload
  rw [listed, shared, requested, mem_filter, mem_sdiff, mem_voters, mem_voters, getD_signed,
    getD_signed]
  simp only [Core.current, same, Bool.and_eq_true, decide_eq_true_eq, Bool.and_eq_false_iff,
    decide_eq_false_iff_not]
  grind

variable {response : GetMessagesResponse}

include made in
/-- The check of an answer, in terms of the voters. -/
theorem fits_and_checked_iff (shared : peerEnv.roundValidators = env.roundValidators)
    (answers : x.Answers)
    (indexes : ∀ type, ((response.votes type).map (·.validatorIndex)).Nodup ∧
      ((response.votes type).map (·.validatorIndex)).toFinset = x.fresh type) :
    (MessageDownloader.Fits job x.key ∧
      if job.ourRound < x.key.round then
        isMajority (response.prevotes.length +
          (signed (env.roundValidators x.chosen.blockNumber)
            (x.counted.roundStates x.chosen.current).prevotes).count true)
            (env.roundValidators job.blockNumber) = true ∧
          isMajority (response.precommits.length +
            (signed (env.roundValidators x.chosen.blockNumber)
              (x.counted.roundStates x.chosen.current).precommits).count true)
              (env.roundValidators job.blockNumber) = true
      else
        (∀ i ∈ job.prevoteIndexes, i ∈ response.prevotes.map (·.validatorIndex)) ∧
          ∀ i ∈ job.precommitIndexes, i ∈ response.precommits.map (·.validatorIndex)) ↔
      x.written.blockNumber = x.chosen.blockNumber ∧ x.Enough downloads.flags := by
  obtain ⟨number, -, -, kind⟩ := MessageDownloader.download_cases made
  have blockNumber : job.blockNumber = x.chosen.blockNumber := by
    rcases kind with rfl | ⟨full, -⟩
    · rfl
    · rw [full]
      rfl
  have ourRound : job.ourRound = x.chosen.round := by
    rcases kind with rfl | ⟨full, -⟩
    · rfl
    · rw [full]
      rfl
  have length : ∀ type, (response.votes type).length = (x.fresh type).card := by
    intro type
    rw [← (indexes type).2, List.toFinset_card_of_nodup (indexes type).1, List.length_map]
  have members : ∀ type i, i ∈ (response.votes type).map (·.validatorIndex) ↔ i ∈ x.fresh type := by
    intro type i
    rw [← (indexes type).2, List.mem_toFinset]
  rw [blockNumber, ourRound, Enough]
  by_cases still : x.written.blockNumber = x.chosen.blockNumber
  · have fits : MessageDownloader.Fits job x.key :=
      ⟨still.trans blockNumber.symm, round_le_key made answers still⟩
    simp only [fits, still, true_and]
    split_ifs with higher
    · rw [MessageType.forall, ← length, ← length, count_signed, count_signed]
      rfl
    · have current : job = MessageDownloader.partialJob (header env x.chosen) (header peerEnv x.known)
          downloads x.chosen.round := by
        rcases kind with same | ⟨-, above⟩
        · exact same
        · have := fits.2
          simp only [header_round] at above
          omega
      have requests : ∀ type, (∀ i ∈ job.indexes type,
          i ∈ (response.votes type).map (·.validatorIndex)) ↔
            x.requested downloads.flags type ⊆ x.fresh type := by
        intro type
        rw [subset_iff, current]
        refine forall_congr' fun i => ?_
        rw [mem_indexes_partialJob shared number, members]
      rw [MessageType.forall, ← requests, ← requests]
      rfl
  · have unfit : ¬ MessageDownloader.Fits job x.key := fun fits =>
      still (fits.1.trans blockNumber)
    simp [unfit, still]

end MessageExchange

/-- The vote is of a validator and carries its signature. -/
def Intake.ValidMessage (intake : Intake) (env : Env) (m : Message) : Prop :=
  m.validatorIndex < env.roundValidators m.blockNumber ∧ intake.verifiesMessage m = true

open MessageExchange in
/-- The peer is not banned exactly if it is not beyond a change of the number of validators when it
makes its header, and either it does not answer, or its votes are not more than the validators of the
milestone that the reply is checked under and are either none, or enough for the job, with the block number
still that of the job. -/
theorem messagesReply_tolerated_iff {env peerEnv : Env} (intake : Intake)
    (x : MessageExchange env peerEnv) (pending : Message → Bool) (now : Message → Nat)
    (blocksDownloading : Bool) (downloads : DownloadsByRound) (rounds : List Nat) {job : MessageJob}
    (shared : peerEnv.roundValidators = env.roundValidators)
    (valid : ∀ type, ∀ m ∈ ((x.answering.roundStates x.key).votes type).messages,
      intake.ValidMessage env m)
    (made : MessageDownloader.download env.roundValidators blocksDownloading downloads rounds
      (header env x.chosen) (header peerEnv x.known) = some job) :
    x.outcome intake pending now job = .ok () ↔
      env.roundValidators x.replying.blockNumber = currentRoundValidators env x.received ∧
        (x.Answers → (∀ type, (x.fresh type).card ≤ currentRoundValidators env x.received) ∧
          ((∀ type, x.fresh type = ∅) ∨
            x.written.blockNumber = x.chosen.blockNumber ∧ x.Enough downloads.flags)) := by
  rw [MessageExchange.outcome]
  by_cases answers : x.Answers
  · have held : ∀ type, ∀ m ∈ x.reply.votes type,
        m ∈ ((x.answering.roundStates x.key).votes type).messages :=
      fun type m member => mem_of_mem_votes shared answers member
    have indexes := map_votes_reply shared answers fun type m member => (valid type m member).1
    generalize x.reply = response at *
    have some : response.prevotes ++ response.precommits ≠ [] ↔ ¬ ∀ type, x.fresh type = ∅ := by
      simp only [← fun type => (indexes type).2, List.toFinset_eq_empty_iff, List.map_eq_nil_iff]
      rw [MessageType.forall, ne_eq, List.append_eq_nil_iff]
      rfl
    have nodup : (response.prevotes.map (·.validatorIndex)).Nodup ∧
        (response.precommits.map (·.validatorIndex)).Nodup :=
      ⟨(indexes .prevote).1, (indexes .precommit).1⟩
    have lengths : ∀ type, (response.votes type).length = (x.fresh type).card := by
      intro type
      rw [← (indexes type).2, List.toFinset_card_of_nodup (indexes type).1, List.length_map]
    rw [MessageDownloader.downloadMessagesFromPeer_eq_ok_iff x.key ?_ ?_ nodup.1 nodup.2,
      validMessages_iff, x.validHeader_iff shared,
      fits_and_checked_iff made shared answers indexes, some, and_assoc]
    · refine and_congr_right fun _ => ?_
      simp only [lengths]
      rw [or_iff_not_imp_left]
      exact ⟨fun h _ => h, fun h => h answers⟩
    · intro m member
      rcases List.mem_append.mp member with prevote | precommit
      · exact MessageProcessor.process_ne_invalid (valid .prevote m (held .prevote m prevote)).2
      · exact MessageProcessor.process_ne_invalid (valid .precommit m (held .precommit m precommit)).2
    · intro m member
      rcases List.mem_append.mp member with prevote | precommit
      · exact (((x.answering.roundStates x.key).votes .prevote).routed m (held .prevote m prevote)).2
      · exact (((x.answering.roundStates x.key).votes .precommit).routed m
          (held .precommit m precommit)).2
  · rw [reply_of_not_answers answers, MessageDownloader.downloadMessagesFromPeer_eq_ok_iff
      x.key (by simp) (by simp) (by simp) (by simp), validMessages_iff,
      x.validHeader_iff shared, MessageType.forall]
    simp [answers, GetMessagesResponse.votes]

namespace MessageSample

open Quartet

def prevote (round validatorIndex : Nat) : Message := ⟨.prevote, 1, round, none, validatorIndex, []⟩

def receives (m : Message) : List Event := [.processMessage m, .messageVerified m true]

def noDownloads : DownloadsByRound := ⟨List.replicate 4 false, List.replicate 4 false⟩

/-- A node in round 0 asks this peer, which stays as it is. -/
def asks (peer : Node) (up : peer.running = true) (number : 1 ≤ peer.blockNumber) :
    MessageExchange env env where
  chosen := started
  written := started
  received := started
  processing := fun _ => started
  verified := fun _ => started
  counted := started
  known := peer
  answering := peer
  replying := peer
  up := running_started
  peerUp := up
  known_blockNumber := number
  chosen_written := later_started
  written_received := later_started
  received_processing := fun _ => later_started
  processing_verified := fun _ => later_started
  chosen_counted := later_started
  counted_blockNumber := rfl
  known_answering := .refl
  answering_replying := .refl

/-- The peer has a prevote of round 0. -/
def sameRound : MessageExchange env env :=
  asks (after started (receives (prevote 0 0))) (by decide +kernel) (by decide +kernel)

/-- The peer has gone on to round 1 and has two prevotes of that round. -/
def nextRound : MessageExchange env env :=
  asks (after started
    (.onTimeoutPrecommit 1 0 :: receives (prevote 1 0) ++ receives (prevote 1 1))) (by decide +kernel)
    (by decide +kernel)

end MessageSample

open Quartet MessageSample in
theorem messagesReply_tolerated_iff_sameRound :
    sameRound.fresh .prevote = {0} ∧
      sameRound.outcome intake (fun _ => false) (fun _ => 0) ⟨1, 0, false, [0], [], 0⟩ = .ok () := by
  have prevotes : ((sameRound.answering.roundStates sameRound.key).votes .prevote).messages =
      [prevote 0 0] := by decide +kernel
  have precommits : ((sameRound.answering.roundStates sameRound.key).votes .precommit).messages = [] := by
    decide +kernel
  refine ⟨by decide +kernel, ?_⟩
  refine (messagesReply_tolerated_iff intake sameRound _ _ false noDownloads [] rfl ?_
    (by decide +kernel)).mpr ⟨by decide +kernel, fun _ => ⟨?_, .inr ⟨rfl, ?_⟩⟩⟩
  · intro type m member
    cases type with
    | prevote =>
      rw [prevotes] at member
      obtain rfl := List.mem_singleton.mp member
      exact ⟨by decide, rfl⟩
    | precommit => simp [precommits] at member
  · rw [MessageType.forall]
    decide +kernel
  · rw [MessageExchange.Enough, if_neg (by decide +kernel)]
    intro type
    cases type with
    | prevote | precommit => decide +kernel

open Quartet MessageSample in
/-- An honest peer is banned for having two of the four prevotes of its round. -/
theorem exists_ban_for_messages :
    MessageDownloader.download env.roundValidators false noDownloads [] (header env nextRound.chosen)
        (header env nextRound.known) = some ⟨1, 1, true, [], [], 0⟩ ∧
      (getMessages env.roundValidators nextRound.answering (header env nextRound.written)) =
        ⟨[], [prevote 1 0, prevote 1 1]⟩ ∧
      (∀ m ∈ [prevote 1 0, prevote 1 1],
        m.validatorIndex < env.roundValidators m.blockNumber ∧ intake.verifiesMessage m = true) ∧
      nextRound.outcome intake (fun _ => false) (fun _ => 0) ⟨1, 1, true, [], [], 0⟩ =
        .error .prevotesBelowMajority :=
  ⟨by decide +kernel, by decide +kernel, by decide +kernel, by decide +kernel⟩

end P2P

end Mainsail
