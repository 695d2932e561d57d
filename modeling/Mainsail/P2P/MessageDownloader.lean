import Mainsail.P2P.Headers

/-!
# Downloads of votes

`MessageDownloader` compares the header of a peer with its own. It asks a peer of its round for the votes
it has not got and is not downloading already, and a peer in a higher round for all votes of a round. The
request does not say which votes are asked for: the peer goes by the header of the request. What
comes back is measured by the job.
-/

namespace Mainsail.P2P

open List

/-- The votes of a round that are being downloaded, by validator index. -/
structure DownloadsByRound where
  precommits : List Bool
  prevotes : List Bool
  deriving DecidableEq, Repr

/-- `DownloadJob` of the message downloader. Of the own header it reads the round, and the votes of
that round. -/
structure MessageJob where
  blockNumber : Nat
  round : Nat
  isFullDownload : Bool
  prevoteIndexes : List Nat
  precommitIndexes : List Nat
  ourRound : Nat
  deriving DecidableEq, Repr

def DownloadsByRound.flags (downloads : DownloadsByRound) : MessageType → List Bool
  | .prevote => downloads.prevotes
  | .precommit => downloads.precommits

def MessageJob.indexes (job : MessageJob) : MessageType → List Nat
  | .prevote => job.prevoteIndexes
  | .precommit => job.precommitIndexes

theorem MessageType.forall {P : MessageType → Prop} : (∀ type, P type) ↔ P .prevote ∧ P .precommit :=
  ⟨fun h => ⟨h _, h _⟩, fun h type => by cases type <;> simp [h]⟩

namespace MessageDownloader

/-- `#getHighestRoundToDownload`. -/
def getHighestRoundToDownload (roundValidators : Nat → Nat) (ourHeader peerHeader : HeaderData) : Nat :=
  if peerHeader.round ≤ ourHeader.round then peerHeader.round
  else if isMinority (peerHeader.validatorsSignedPrevote.count true)
      (roundValidators ourHeader.blockNumber) then peerHeader.round
  else peerHeader.round - 1

/-- `#getIndexesToDownload`: the indexes without a flag that the peer has a vote of and we have not. -/
def getIndexesToDownload (ours theirs flags : List Bool) : List Nat :=
  (range flags.length).filter fun i =>
    !flags.getD i false && theirs.getD i false && !ours.getD i false

def getPrevoteIndexesToDownload (ourHeader peerHeader : HeaderData) (downloads : DownloadsByRound) :
    List Nat :=
  getIndexesToDownload ourHeader.validatorsSignedPrevote peerHeader.validatorsSignedPrevote
    downloads.prevotes

def getPrecommitIndexesToDownload (ourHeader peerHeader : HeaderData) (downloads : DownloadsByRound) :
    List Nat :=
  getIndexesToDownload ourHeader.validatorsSignedPrecommit peerHeader.validatorsSignedPrecommit
    downloads.precommits

/-- The job for the votes of our round. -/
def partialJob (ourHeader peerHeader : HeaderData) (downloads : DownloadsByRound) (round : Nat) :
    MessageJob where
  blockNumber := ourHeader.blockNumber
  round := round
  isFullDownload := false
  prevoteIndexes := getPrevoteIndexesToDownload ourHeader peerHeader downloads
  precommitIndexes := getPrecommitIndexesToDownload ourHeader peerHeader downloads
  ourRound := ourHeader.round

/-- The job for a higher round. -/
def fullJob (ourHeader : HeaderData) (round : Nat) : MessageJob where
  blockNumber := ourHeader.blockNumber
  round := round
  isFullDownload := true
  prevoteIndexes := []
  precommitIndexes := []
  ourRound := ourHeader.round

/-- `#canDownloadFullRound`, with the rounds of the block number that are being downloaded in full. -/
def canDownloadFullRound (rounds : List Nat) (round : Nat) : Bool := rounds.all (· < round)

/-- `#canDownload`, with the flags of the round that the peer is in. -/
def canDownload (roundValidators : Nat → Nat) (downloads : DownloadsByRound) (rounds : List Nat)
    (ourHeader peerHeader : HeaderData) : Bool :=
  if ourHeader.blockNumber ≠ peerHeader.blockNumber ∨ peerHeader.round < ourHeader.round then false
  else
    let round := getHighestRoundToDownload roundValidators ourHeader peerHeader
    if ourHeader.round = round then
      !((getPrevoteIndexesToDownload ourHeader peerHeader downloads).isEmpty &&
        (getPrecommitIndexesToDownload ourHeader peerHeader downloads).isEmpty)
    else canDownloadFullRound rounds round

/-- `download`, up to the request: the job it makes. -/
def download (roundValidators : Nat → Nat) (blocksDownloading : Bool) (downloads : DownloadsByRound)
    (rounds : List Nat) (ourHeader peerHeader : HeaderData) : Option MessageJob :=
  if blocksDownloading then none
  else if canDownload roundValidators downloads rounds ourHeader peerHeader then
    let round := getHighestRoundToDownload roundValidators ourHeader peerHeader
    if ourHeader.round = round then some (partialJob ourHeader peerHeader downloads round)
    else if ourHeader.round < peerHeader.round then some (fullJob ourHeader round)
    else none
  else none

theorem mem_getIndexesToDownload {ours theirs flags : List Bool} {i : Nat} :
    i ∈ getIndexesToDownload ours theirs flags ↔
      flags[i]? = some false ∧ theirs.getD i false = true ∧ ours.getD i false = false := by
  simp only [getIndexesToDownload, mem_filter, mem_range, Bool.and_eq_true,
    Bool.not_eq_true', and_assoc]
  by_cases bound : i < flags.length
  · simp [bound]
  · simp [bound]

section Jobs

variable {roundValidators : Nat → Nat} {blocksDownloading : Bool} {downloads : DownloadsByRound}
variable {rounds : List Nat} {ourHeader peerHeader : HeaderData} {job : MessageJob}

theorem position_of_canDownload
    (can : canDownload roundValidators downloads rounds ourHeader peerHeader = true) :
    ourHeader.blockNumber = peerHeader.blockNumber ∧ ourHeader.round ≤ peerHeader.round := by
  by_contra elsewhere
  have elsewhere : ourHeader.blockNumber ≠ peerHeader.blockNumber ∨
      peerHeader.round < ourHeader.round := by omega
  simp [canDownload, elsewhere] at can

/-- A round other than ours is above ours. -/
theorem lt_getHighestRoundToDownload (ahead : ourHeader.round < peerHeader.round)
    (other : ourHeader.round ≠ getHighestRoundToDownload roundValidators ourHeader peerHeader) :
    ourHeader.round < getHighestRoundToDownload roundValidators ourHeader peerHeader := by
  unfold getHighestRoundToDownload at other ⊢
  split_ifs at other ⊢ <;> omega

/-- The jobs that `download` makes. -/
theorem download_cases
    (made : download roundValidators blocksDownloading downloads rounds ourHeader peerHeader =
      some job) :
    ourHeader.blockNumber = peerHeader.blockNumber ∧ ourHeader.round ≤ peerHeader.round ∧
      job.round = getHighestRoundToDownload roundValidators ourHeader peerHeader ∧
      (job = partialJob ourHeader peerHeader downloads ourHeader.round ∨
        job = fullJob ourHeader job.round ∧ ourHeader.round < job.round) := by
  simp only [download] at made
  split_ifs at made with _ can current ahead
  · obtain ⟨number, reached⟩ := position_of_canDownload can
    cases made
    exact ⟨number, reached, rfl, .inl (by rw [← current])⟩
  · obtain ⟨number, reached⟩ := position_of_canDownload can
    cases made
    exact ⟨number, reached, rfl, .inr ⟨rfl, lt_getHighestRoundToDownload ahead current⟩⟩

end Jobs

/-- What makes the downloader ban the peer. -/
inductive Fault
  | reply
  | first (message first : RoundKey)
  | blockNumber (received expected : Nat)
  | round (received requested : Nat)
  | invalid (type : MessageType)
  | prevotesBelowMajority
  | precommitsBelowMajority
  | missingPrevote (index : Nat)
  | missingPrecommit (index : Nat)
  deriving DecidableEq, Repr

/-- `#checkMessage`. -/
def checkMessage (message first : Message) (job : MessageJob) : Except Fault Unit :=
  if message.blockNumber ≠ first.blockNumber ∨ message.round ≠ first.round then
    .error (.first message.roundKey first.roundKey)
  else if message.blockNumber ≠ job.blockNumber then
    .error (.blockNumber message.blockNumber job.blockNumber)
  else if message.round < job.round then .error (.round message.round job.round)
  else .ok ()

/-- `Map.set` by the validator index. -/
def setVote (votes : List Message) (message : Message) : List Message :=
  if votes.any (·.validatorIndex = message.validatorIndex) then
    votes.map fun m => if m.validatorIndex = message.validatorIndex then message else m
  else votes ++ [message]

/-- The loop over the votes of one type in a reply: the map it builds. -/
def receive (process : Message → ProcessorResult) (job : MessageJob) :
    (first : Option Message) → (votes : List Message) → List Message → Except Fault (List Message)
  | _, votes, [] => .ok votes
  | first, votes, message :: messages =>
    let first := first.getD message
    match checkMessage message first job with
    | .error fault => .error fault
    | .ok () =>
      if process message = .invalid then .error (.invalid message.type)
      else receive process job (some first) (setVote votes message) messages

/-- The first of the indexes that is not among the votes. -/
def firstMissing (indexes : List Nat) (votes : List Message) : Option Nat :=
  indexes.find? fun i => !votes.any (·.validatorIndex = i)

/-- `#checkFullRoundResponse`. The votes of our round are counted as they are by now: the header
refers to the arrays of the round state. -/
def checkFullRoundResponse (roundValidators : Nat) (ourPrevotes ourPrecommits : Nat)
    (prevotes precommits : List Message) : Except Fault Unit :=
  if isMajority (prevotes.length + ourPrevotes) roundValidators = false then
    .error .prevotesBelowMajority
  else if isMajority (precommits.length + ourPrecommits) roundValidators = false then
    .error .precommitsBelowMajority
  else .ok ()

/-- `#checkPartialRoundResponse`. -/
def checkPartialRoundResponse (prevotes precommits : List Message) (job : MessageJob) :
    Except Fault Unit :=
  match firstMissing job.prevoteIndexes prevotes, firstMissing job.precommitIndexes precommits with
  | some i, _ => .error (.missingPrevote i)
  | none, some i => .error (.missingPrecommit i)
  | none, none => .ok ()

/-- `#checkResponse`. -/
def checkResponse (roundValidators : Nat) (ourPrevotes ourPrecommits : Nat)
    (prevotes precommits : List Message) (job : MessageJob) : Except Fault Unit :=
  match prevotes ++ precommits with
  | [] => .ok ()
  | message :: _ =>
    if job.ourRound < message.round then
      checkFullRoundResponse roundValidators ourPrevotes ourPrecommits prevotes precommits
    else checkPartialRoundResponse prevotes precommits job

/-- `#downloadMessagesFromPeer`, from the reply on. -/
def downloadMessagesFromPeer (roundValidators : Nat → Nat) (validReply : Bool)
    (prevotes precommits : List Message) (process : Message → ProcessorResult)
    (ourPrevotes ourPrecommits : Nat) (job : MessageJob) : Except Fault Unit :=
  if validReply = false then .error .reply
  else
    match receive process job none [] prevotes with
    | .error fault => .error fault
    | .ok prevotes =>
      match receive process job none [] precommits with
      | .error fault => .error fault
      | .ok precommits =>
        checkResponse (roundValidators job.blockNumber) ourPrevotes ourPrecommits prevotes
          precommits job

/-! ## What passes

The votes of a reply are of one round, and no validator occurs twice. -/

section Passes

variable {process : Message → ProcessorResult} {job : MessageJob} {key : RoundKey}
variable {messages prevotes precommits : List Message}

/-- The round of a reply is one that the job may be answered with. -/
def Fits (job : MessageJob) (key : RoundKey) : Prop :=
  key.blockNumber = job.blockNumber ∧ job.round ≤ key.round

theorem checkMessage_eq_ok_iff {message first : Message} (here : message.roundKey = key)
    (same : first.roundKey = key) : checkMessage message first job = .ok () ↔ Fits job key := by
  obtain rfl := here
  obtain ⟨number, round⟩ := RoundKey.mk.inj same
  unfold checkMessage Fits
  rw [if_neg (by simp [number, round])]
  by_cases elsewhere : message.blockNumber = job.blockNumber
  · simp [elsewhere, Message.roundKey]
  · simp [elsewhere, Message.roundKey]

theorem setVote_of_fresh {votes : List Message} {message : Message}
    (fresh : message.validatorIndex ∉ votes.map (·.validatorIndex)) :
    setVote votes message = votes ++ [message] := by
  refine if_neg ?_
  simpa using fresh

/-- The loop over votes that are all valid, of one round and of different validators. -/
theorem receive_eq_ok_iff {first : Option Message} {votes result : List Message}
    (valid : ∀ m ∈ messages, process m ≠ .invalid) (round : ∀ m ∈ messages, m.roundKey = key)
    (same : ∀ m, first = some m → m.roundKey = key)
    (nodup : ((votes ++ messages).map (·.validatorIndex)).Nodup) :
    receive process job first votes messages = .ok result ↔
      result = votes ++ messages ∧ (messages ≠ [] → Fits job key) := by
  induction messages generalizing first votes with
  | nil => simp [receive, eq_comm]
  | cons message messages ih =>
    have here := round message (mem_cons_self ..)
    have started : (first.getD message).roundKey = key := by
      cases first with
      | none => exact here
      | some m => exact same m rfl
    have fresh : message.validatorIndex ∉ votes.map (·.validatorIndex) := by
      intro member
      rw [map_append, map_cons] at nodup
      exact (nodup_append.mp nodup).2.2 _ member _ (mem_cons_self ..) rfl
    have passes := @checkMessage_eq_ok_iff job key message (first.getD message) here started
    simp only [receive]
    cases checked : checkMessage message (first.getD message) job with
    | error fault =>
      rw [checked] at passes
      have unfit : ¬ Fits job key := fun fits => by simpa using passes.mpr fits
      simp [unfit]
    | ok =>
      have fits : Fits job key := passes.mp checked
      rw [if_neg (valid message (mem_cons_self ..)), setVote_of_fresh fresh,
        ih (fun m member => valid m (mem_cons_of_mem _ member))
          (fun m member => round m (mem_cons_of_mem _ member))
          (fun m here => by rw [← Option.some.inj here]; exact started)
          (by simpa using nodup)]
      simp [fits]

/-- A vote of a round that does not fit ends the loop. -/
theorem receive_cases (valid : ∀ m ∈ messages, process m ≠ .invalid)
    (round : ∀ m ∈ messages, m.roundKey = key) (nodup : (messages.map (·.validatorIndex)).Nodup) :
    (messages ≠ [] → Fits job key) ∧ receive process job none [] messages = .ok messages ∨
      (messages ≠ [] ∧ ¬ Fits job key) ∧ ∃ fault, receive process job none [] messages = .error fault := by
  have passes := fun result => @receive_eq_ok_iff process job key messages none [] result valid round
    (by simp) nodup
  by_cases fits : messages ≠ [] → Fits job key
  · exact .inl ⟨fits, (passes messages).mpr ⟨rfl, fits⟩⟩
  · refine .inr ⟨Classical.not_imp.mp fits, ?_⟩
    cases received : receive process job none [] messages with
    | error fault => exact ⟨fault, rfl⟩
    | ok votes => exact absurd ((passes votes).mp received).2 fits

theorem firstMissing_eq_none_iff {indexes : List Nat} {votes : List Message} :
    firstMissing indexes votes = none ↔ ∀ i ∈ indexes, i ∈ votes.map (·.validatorIndex) := by
  simp [firstMissing]

theorem checkFullRoundResponse_eq_ok_iff {roundValidators ourPrevotes ourPrecommits : Nat} :
    checkFullRoundResponse roundValidators ourPrevotes ourPrecommits prevotes precommits = .ok () ↔
      isMajority (prevotes.length + ourPrevotes) roundValidators = true ∧
        isMajority (precommits.length + ourPrecommits) roundValidators = true := by
  unfold checkFullRoundResponse
  split_ifs with few fewer <;> simp_all

theorem checkPartialRoundResponse_eq_ok_iff :
    checkPartialRoundResponse prevotes precommits job = .ok () ↔
      (∀ i ∈ job.prevoteIndexes, i ∈ prevotes.map (·.validatorIndex)) ∧
        ∀ i ∈ job.precommitIndexes, i ∈ precommits.map (·.validatorIndex) := by
  rw [← firstMissing_eq_none_iff, ← firstMissing_eq_none_iff]
  unfold checkPartialRoundResponse
  cases firstMissing job.prevoteIndexes prevotes <;>
    cases firstMissing job.precommitIndexes precommits <;> simp

theorem checkResponse_eq_ok_iff {roundValidators ourPrevotes ourPrecommits : Nat}
    (round : ∀ m ∈ prevotes ++ precommits, m.roundKey = key) :
    checkResponse roundValidators ourPrevotes ourPrecommits prevotes precommits job = .ok () ↔
      prevotes ++ precommits ≠ [] →
        if job.ourRound < key.round then
          isMajority (prevotes.length + ourPrevotes) roundValidators = true ∧
            isMajority (precommits.length + ourPrecommits) roundValidators = true
        else
          (∀ i ∈ job.prevoteIndexes, i ∈ prevotes.map (·.validatorIndex)) ∧
            ∀ i ∈ job.precommitIndexes, i ∈ precommits.map (·.validatorIndex) := by
  unfold checkResponse
  split
  · next none => simp [none]
  · next message rest some =>
      have here : message.round = key.round := by
        rw [← round message (by simp [some])]
        rfl
      rw [here, some]
      split_ifs
      · rw [checkFullRoundResponse_eq_ok_iff]
        simp
      · rw [checkPartialRoundResponse_eq_ok_iff]
        simp

variable (key) in
/-- When a reply with votes of one round, from different validators, does not get the peer banned. -/
theorem downloadMessagesFromPeer_eq_ok_iff {roundValidators : Nat → Nat} {validReply : Bool}
    {ourPrevotes ourPrecommits : Nat} (valid : ∀ m ∈ prevotes ++ precommits, process m ≠ .invalid)
    (round : ∀ m ∈ prevotes ++ precommits, m.roundKey = key)
    (prevotesNodup : (prevotes.map (·.validatorIndex)).Nodup)
    (precommitsNodup : (precommits.map (·.validatorIndex)).Nodup) :
    downloadMessagesFromPeer roundValidators validReply prevotes precommits process ourPrevotes
        ourPrecommits job = .ok () ↔
      validReply = true ∧ (prevotes ++ precommits ≠ [] → Fits job key ∧
        if job.ourRound < key.round then
          isMajority (prevotes.length + ourPrevotes) (roundValidators job.blockNumber) = true ∧
            isMajority (precommits.length + ourPrecommits) (roundValidators job.blockNumber) = true
        else
          (∀ i ∈ job.prevoteIndexes, i ∈ prevotes.map (·.validatorIndex)) ∧
            ∀ i ∈ job.precommitIndexes, i ∈ precommits.map (·.validatorIndex)) := by
  have first := @receive_cases process job key prevotes
    (fun m member => valid m (mem_append_left _ member))
    (fun m member => round m (mem_append_left _ member)) prevotesNodup
  have second := @receive_cases process job key precommits
    (fun m member => valid m (mem_append_right _ member))
    (fun m member => round m (mem_append_right _ member)) precommitsNodup
  have checked := @checkResponse_eq_ok_iff job key prevotes precommits
    (roundValidators job.blockNumber) ourPrevotes ourPrecommits round
  unfold downloadMessagesFromPeer
  cases validReply with
  | false => simp
  | true =>
    rcases first with ⟨fits, received⟩ | ⟨⟨some, unfit⟩, fault, received⟩
    · rcases second with ⟨fits', received'⟩ | ⟨⟨some, unfit⟩, fault, received'⟩
      · have together : prevotes ++ precommits ≠ [] → Fits job key := by
          intro some
          by_cases none : prevotes = []
          · exact fits' (by simpa [none] using some)
          · exact fits none
        simp only [received, received', checked, Bool.true_eq_false, if_false, true_and]
        exact forall_congr' fun some => (and_iff_right (together some)).symm
      · simp [received, received', some, unfit]
    · simp [received, some, unfit]

end Passes

end MessageDownloader

end Mainsail.P2P
