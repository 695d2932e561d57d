import Mainsail.P2P.Headers

/-!
# Requests for a proposal

A node that has no proposal in its round asks a peer of the same round that has one.
`GetProposalController` goes by the header of the request, and the header is made when the request is
written, after the throttle and the connection. `ProposalDownloader` goes by the round that the peer
was in when it was chosen, and bans a peer that answers for another one.
-/

namespace Mainsail.P2P

/-! ## The serving node -/

/-- `GetProposalController.handle`; an empty buffer is `none`. -/
def getProposal (peer : Node) (request : HeaderData) : Option Proposal :=
  if request.blockNumber ≠ peer.blockNumber then none
  else if request.round > peer.round then none
  else (peer.roundStates ⟨request.blockNumber, request.round⟩).proposal

/-- The peer is at this block number, has come to this round, and has its proposal. -/
def Holds (peer : Node) (key : RoundKey) : Prop :=
  key.blockNumber = peer.blockNumber ∧ key.round ≤ peer.round ∧
    (peer.roundStates key).hasProposal = true

variable {n : Node}

theorem getProposal_eq_none_iff {env : Env} {peer : Node} :
    getProposal peer (header env n) = none ↔ ¬ Holds peer n.current := by
  simp only [getProposal, Holds, Core.current, header_blockNumber, header_round,
    RoundState.hasProposal]
  by_cases here : n.blockNumber = peer.blockNumber
  · by_cases ahead : n.round > peer.round
    · simp [ahead]
    · simp [here, ahead, Nat.le_of_not_lt ahead]
  · simp [here]

/-- What is served is the proposal of the position in the request. -/
theorem roundKey_of_getProposal {env : Env} {peer : Node} {p : Proposal}
    (served : getProposal peer (header env n) = some p) :
    (peer.roundStates n.current).proposal = some p ∧ p.roundKey = n.current := by
  simp only [getProposal] at served
  split_ifs at served with number round
  exact ⟨served, (peer.roundStates n.current).proposal_routed p served⟩

/-! ## The requesting node -/

/-- `DownloadJob` of the proposal downloader. -/
structure ProposalJob where
  blockNumber : Nat
  round : Nat
  deriving DecidableEq, Repr

def ProposalJob.key (job : ProposalJob) : RoundKey := ⟨job.blockNumber, job.round⟩

namespace ProposalDownloader

/-- `#canDownload`. The rounds that are being downloaded are `downloads`. -/
def canDownload (downloads : List RoundKey) (ourHeader peerHeader : HeaderData) : Bool :=
  if ourHeader.blockNumber ≠ peerHeader.blockNumber ∨ ourHeader.round ≠ peerHeader.round then false
  else if ⟨peerHeader.blockNumber, peerHeader.round⟩ ∈ downloads then false
  else ourHeader.proposedBlockHash.isNone && peerHeader.proposedBlockHash.isSome

/-- `download`, up to the request: the job it makes. -/
def download (blocksDownloading : Bool) (downloads : List RoundKey)
    (ourHeader peerHeader : HeaderData) : Option ProposalJob :=
  if blocksDownloading then none
  else if canDownload downloads ourHeader peerHeader then
    some ⟨peerHeader.blockNumber, peerHeader.round⟩
  else none

variable {downloads : List RoundKey} {peerHeader : HeaderData} {job : ProposalJob}

theorem position_of_canDownload {ourHeader : HeaderData}
    (can : canDownload downloads ourHeader peerHeader = true) :
    ourHeader.blockNumber = peerHeader.blockNumber ∧ ourHeader.round = peerHeader.round := by
  by_contra elsewhere
  have elsewhere : ourHeader.blockNumber ≠ peerHeader.blockNumber ∨
      ourHeader.round ≠ peerHeader.round := not_and_or.mp elsewhere
  simp [canDownload, elsewhere] at can

theorem key_of_download {blocksDownloading : Bool} {env : Env}
    (made : download blocksDownloading downloads (header env n) peerHeader = some job) :
    job.key = n.current := by
  unfold download at made
  split_ifs at made with _ can
  obtain ⟨number, round⟩ := position_of_canDownload can
  cases made
  simp [ProposalJob.key, Core.current, ← number, ← round]

/-- What makes the downloader ban the peer. -/
inductive Fault
  | reply
  | blockNumber (received expected : Nat)
  | round (received expected : Nat)
  | invalid
  deriving DecidableEq, Repr

/-- `#downloadProposalFromPeer`, from the reply on. -/
def downloadProposalFromPeer (validReply : Bool) (proposal : Option Proposal)
    (process : Proposal → ProcessorResult) (job : ProposalJob) : Except Fault Unit :=
  if validReply = false then .error .reply
  else
    match proposal with
    | none => .ok ()
    | some p =>
      if p.blockHeader.number ≠ job.blockNumber then
        .error (.blockNumber p.blockHeader.number job.blockNumber)
      else if p.round ≠ job.round then .error (.round p.round job.round)
      else if process p = .invalid then .error .invalid
      else .ok ()

theorem downloadProposalFromPeer_eq_ok_iff {validReply : Bool} {proposal : Option Proposal}
    {process : Proposal → ProcessorResult} :
    downloadProposalFromPeer validReply proposal process job = .ok () ↔
      validReply = true ∧ ∀ p, proposal = some p → p.roundKey = job.key ∧ process p ≠ .invalid := by
  unfold downloadProposalFromPeer
  cases validReply with
  | false => simp
  | true =>
    cases proposal with
    | none => simp
    | some p =>
      simp only [Bool.true_eq_false, if_false, Option.some.injEq, forall_eq', true_and,
        Proposal.roundKey, ProposalJob.key, RoundKey.mk.injEq]
      split_ifs with number round invalid <;> simp_all

end ProposalDownloader

/-- The proposal is of the proposer of its round and carries its signature. -/
def Intake.ValidProposal (intake : Intake) (env : Env) (p : Proposal) : Prop :=
  p.validatorIndex = env.proposerIndex p.blockHeader.number p.round ∧ intake.verifiesProposal p = true

/-- `ProposalProcessor.process`, called in the first state; the second one is that after the check of the
signature. -/
def ProposalProcessor.process (env : Env) (intake : Intake) (n n' : Node) (now : Nat) (p : Proposal) :
    ProcessorResult :=
  if n.isDisposed then .skipped
  else if hasValidBlockNumberAndRound n p.roundKey = false then .skipped
  else if isRoundAheadOfTime env intake n p.round now then .skipped
  else if p.validatorIndex ≠ env.proposerIndex n.blockNumber p.round then .invalid
  else if (n.roundStates p.roundKey).hasProposal then .skipped
  else if intake.verifiesProposal p = false then .invalid
  else if (n'.roundStates p.roundKey).hasProposal then .skipped
  else .accepted

theorem ProposalProcessor.process_ne_invalid {env : Env} {intake : Intake} {n' : Node} {now : Nat}
    {p : Proposal} (valid : intake.ValidProposal env p) : process env intake n n' now p ≠ .invalid := by
  obtain ⟨proposer, verifies⟩ := valid
  unfold process
  split_ifs with _ position _ other <;> try simp
  · -- The proposer is looked up at the block number of the node, which is that of the proposal.
    simp only [hasValidBlockNumberAndRound, Bool.and_eq_false_iff, not_or, Bool.not_eq_false,
      decide_eq_true_eq] at position
    have number : p.blockHeader.number = n.blockNumber := position.1
    exact other (by rw [proposer, number])
  · simp_all

/-! ## Exchanges -/

/-- The node that asks also processes the proposal. -/
structure ProposalExchange (env peerEnv : Env) extends Exchange env peerEnv where
  processing : Node
  verified : Node
  received_processing : Later env received processing
  processing_verified : Later env processing verified

open ProposalDownloader

open ProposalProcessor

/-- What the exchange comes to for the peer. Besides the header, the reply schema `getProposal` asks
for a buffer only. -/
def ProposalExchange.outcome {env peerEnv : Env} (intake : Intake) (x : ProposalExchange env peerEnv)
    (now : Nat) (job : ProposalJob) : Except Fault Unit :=
  downloadProposalFromPeer (validHeader env x.received (header peerEnv x.replying))
    (getProposal x.answering (header env x.written))
    (process env intake x.processing x.verified now) job

/-- The peer is not banned exactly if, when the request is written, the node is still at the position
it chose the peer in or the peer has no proposal for the new one, and the peer is not beyond a change of the
number of validators when it makes its header. -/
theorem proposalReply_tolerated_iff {env peerEnv : Env} (intake : Intake)
    (x : ProposalExchange env peerEnv) (blocksDownloading : Bool) (downloads : List RoundKey)
    (now : Nat) {job : ProposalJob} (shared : peerEnv.roundValidators = env.roundValidators)
    (valid : ∀ p, (x.answering.roundStates x.written.current).proposal = some p →
      intake.ValidProposal env p)
    (made : download blocksDownloading downloads (header env x.chosen)
      (header peerEnv x.known) = some job) :
    x.outcome intake now job = .ok () ↔
      env.roundValidators x.replying.blockNumber = currentRoundValidators env x.received ∧
        (x.written.current = x.chosen.current ∨ ¬ Holds x.answering x.written.current) := by
  rw [ProposalExchange.outcome, downloadProposalFromPeer_eq_ok_iff,
    x.validHeader_iff shared, key_of_download made]
  refine and_congr_right fun _ => ?_
  cases served : getProposal x.answering (header env x.written) with
  | none =>
    have silent := getProposal_eq_none_iff.mp served
    simp [silent]
  | some p =>
    obtain ⟨held, key⟩ := roundKey_of_getProposal served
    have serves : Holds x.answering x.written.current := by
      by_contra silent
      rw [getProposal_eq_none_iff.mpr silent] at served
      contradiction
    have processed : ∀ now, process env intake x.processing x.verified now p ≠
        .invalid := fun _ => process_ne_invalid (valid p held)
    simp [serves, key, processed]

namespace ProposalSample

open Quartet

def proposal (round : Nat) : Proposal := .fresh ⟨1, [7], 0⟩ round (round % 4) []

def receives (round : Nat) : List Event :=
  [.receiveProposal (proposal round), .proposalVerified (proposal round) true]

/-- A peer that has the proposal of round 0. -/
def known : Node := after started (receives 0)

/-- The peer in round 1, with the proposal of that round. -/
def answering : Node := after known (.onTimeoutPrecommit 1 0 :: receives 1)

theorem later_answering : Later env known answering :=
  later_after (by simp [receives, Event.Survives]) (by decide +kernel)

/-- The node is still in round 0 when it writes the request. -/
def stays : ProposalExchange env env where
  chosen := started
  written := started
  received := started
  processing := started
  verified := started
  known := known
  answering := answering
  replying := answering
  up := running_started
  peerUp := by decide +kernel
  known_blockNumber := by decide +kernel
  chosen_written := later_started
  written_received := later_started
  received_processing := later_started
  processing_verified := later_started
  known_answering := later_answering
  answering_replying := .refl

/-- The node has gone on to round 1 when it writes the request. -/
def movesOn : ProposalExchange env env :=
  { stays with
    written := after started [.onTimeoutPrecommit 1 0]
    received := after started [.onTimeoutPrecommit 1 0]
    processing := after started [.onTimeoutPrecommit 1 0]
    verified := after started [.onTimeoutPrecommit 1 0]
    chosen_written := later_after (by simp [Event.Survives]) (by decide +kernel)
    written_received := .refl
    received_processing := .refl
    processing_verified := .refl }

end ProposalSample

open Quartet ProposalSample in
theorem proposalReply_tolerated_iff_stays :
    Holds stays.answering stays.written.current ∧ stays.outcome intake 0 ⟨1, 0⟩ = .ok () := by
  have held : (stays.answering.roundStates stays.written.current).proposal = some (proposal 0) := by
    decide +kernel
  refine ⟨⟨by decide +kernel, by decide +kernel, by simp [RoundState.hasProposal, held]⟩, ?_⟩
  refine (proposalReply_tolerated_iff intake stays false [] 0 rfl ?_ (by decide +kernel)).mpr
    ⟨by decide +kernel, .inl rfl⟩
  intro p served
  rw [held] at served
  cases served
  exact ⟨rfl, rfl⟩

open Quartet ProposalSample in
/-- An honest peer in the same round is banned because the node went on to the next round
before its request was written. -/
theorem exists_ban_for_proposal :
    download false [] (header env movesOn.chosen) (header env movesOn.known) =
        some ⟨1, 0⟩ ∧
      (movesOn.answering.roundStates movesOn.written.current).proposal = some (proposal 1) ∧
      intake.ValidProposal env (proposal 1) ∧
      movesOn.outcome intake 0 ⟨1, 0⟩ = .error (.round 1 0) :=
  ⟨by decide +kernel, by decide +kernel, ⟨rfl, rfl⟩, by decide +kernel⟩

end Mainsail.P2P
