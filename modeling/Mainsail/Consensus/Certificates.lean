import Mainsail.Consensus.Aggregator
import Mainsail.Consensus.RoundState
import Mainsail.Crypto.Commits
import Mainsail.Crypto.Messages
import Mainsail.Foundation.Transition
import Mathlib.Algebra.BigOperators.Ring.List
import Mathlib.Data.UInt

/-!
# Proofs that peers accept

A round state builds a lock proof from its prevotes and the proof of a commit from its
precommits; `hasValidLockProof` and `hasValidSignature` check them on the nodes that receive
them. The builder goes through its map of votes, the checker through a bitmap, and each puts
together the signed bytes on its own.

The signature scheme is a parameter, with what is assumed of it in `Bls.Correct`. `getCommit`
keeps the first commit it built, so what it returns later may rest on fewer precommits than
the round state has by then; the last section goes over the calls made on a round state.
-/

namespace Mainsail

open RoundState CommitSerializer MessageSerializer List Except Option Aggregator

/-- The operations of the crypto worker on consensus signatures. -/
structure Bls where
  aggregate : List Bytes → Bytes
  aggregatePublicKeys : List Bytes → Bytes
  verify : (signature data publicKey : Bytes) → Bool

/-- Aggregation is correct: valid signatures of the same bytes make one that is valid under
the aggregate of their keys, in whatever order these are given. Signatures have a fixed size. -/
structure Bls.Correct (bls : Bls) : Prop where
  verify_aggregate : ∀ (signers : List (Bytes × Bytes)) (publicKeys : List Bytes) (data : Bytes),
    signers ≠ [] → (∀ s ∈ signers, bls.verify s.2 data s.1 = true) →
    publicKeys.Perm (signers.map (·.1)) →
    bls.verify (bls.aggregate (signers.map (·.2))) data (bls.aggregatePublicKeys publicKeys) = true
  length_signature : ∀ signature data publicKey, bls.verify signature data publicKey = true →
    signature.length = signatureSize

/-- What the checks of a node read: the chain it is on, the validators by index, and the number
of validators at each block number, which a milestone limits to 64. -/
structure Verifier where
  bls : Bls
  context : SignatureMessageContext
  publicKeys : List Bytes
  roundValidators : Nat → Nat
  roundValidators_le : ∀ blockNumber, roundValidators blockNumber ≤ 64

namespace Verifier

/-- `MessageProcessor.#hasValidSignature`. -/
def hasValidMessageSignature (v : Verifier) (m : Message) : Bool :=
  match serializeMessageForSignature m.signatureData v.context,
      v.publicKeys[m.validatorIndex]? with
  | .ok data, some publicKey => v.bls.verify m.signature data publicKey
  | _, _ => false

/-- A vote of one of the validators, which the message schema asks for, with its signature. -/
def Signed (v : Verifier) (m : Message) : Prop :=
  m.validatorIndex < v.roundValidators m.blockNumber ∧ v.hasValidMessageSignature m = true

instance (v : Verifier) (m : Message) : Decidable (v.Signed m) :=
  inferInstanceAs (Decidable (_ ∧ _))

/-- The signature check of `Aggregator.verify`, for the bytes of this vote. -/
def check (v : Verifier) (message : SignatureMessageData) (signers : List Nat)
    (signature : Bytes) : Bool :=
  match serializeMessageForSignature message v.context,
      signers.mapM (v.publicKeys[·]?) with
  | .ok data, some publicKeys =>
    v.bls.verify signature data (v.bls.aggregatePublicKeys publicKeys)
  | _, _ => false

/-- `ProposalProcessor.hasValidLockProof`. -/
def hasValidLockProof (v : Verifier) (p : Proposal) : Bool :=
  Mainsail.hasValidLockProof
    (v.check ⟨.prevote, p.blockHeader.number, p.validRound.getD 0, some p.blockHeader.hash⟩)
    (v.roundValidators p.blockHeader.number) p

/-- `CommitProcessor.hasValidSignature`, where the context names the previous block. -/
def hasValidSignature (v : Verifier) (commit : Commit) : Bool :=
  Mainsail.hasValidSignature
    (v.check ⟨.precommit, commit.block.number, commit.proof.round, some commit.block.hash⟩)
    (v.roundValidators commit.block.number) commit

end Verifier

inductive CertificateError
  /-- `assert.defined` on the proposal. -/
  | proposalUndefined
  | payloadNotDeserialized
  | aggregate (error : Aggregator.AggregateError)
  | serialize (error : BufferError)
  deriving DecidableEq, Repr

/-- `#getSignatures`: the votes for the block, by validator index. -/
def getSignatures (messages : List Message) (hash : Bytes) : List (Nat × Bytes) :=
  (messages.filter fun m => m.blockHash = some hash).map fun m => (m.validatorIndex, m.signature)

namespace RoundState

variable {key : RoundKey}

def aggregate (v : Verifier) (rs : RoundState key) (messages : List Message) :
    Except CertificateError AggregatedSignature :=
  match rs.proposal with
  | none => .error .proposalUndefined
  | some p =>
    (Aggregator.aggregate v.bls.aggregate (getSignatures messages p.blockHeader.hash)
      (v.roundValidators key.blockNumber)).mapError .aggregate

def aggregatePrevotes (v : Verifier) (rs : RoundState key) :
    Except CertificateError AggregatedSignature :=
  rs.aggregate v rs.prevotes.messages

def aggregatePrecommits (v : Verifier) (rs : RoundState key) :
    Except CertificateError AggregatedSignature :=
  rs.aggregate v rs.precommits.messages

/-- What `getCommit` does when it has no commit yet. `serialized` is the block of a parsed
proposal as bytes. -/
def makeCommit (v : Verifier) (serialized : Proposal → Bytes) (rs : RoundState key) :
    Except CertificateError (Commit × Bytes) :=
  match rs.proposal with
  | none => .error .proposalUndefined
  | some p => do
      let majority ← rs.aggregatePrecommits v
      if rs.isDataDeserialized then
        let commit : Commit := ⟨p.blockHeader, { majority with round := p.round }⟩
        let bytes ←
          (serializeCommit commit.proof (serialized p)).mapError .serialize
        return (commit, bytes)
      else .error .payloadNotDeserialized

end RoundState

/-! ## Aggregates of valid signatures -/

theorem mapM_eq_some_map {α β : Type} {f : α → Option β} {g : α → β} {l : List α}
    (h : ∀ a ∈ l, f a = some (g a)) : l.mapM f = some (l.map g) := by
  induction l with
  | nil => rfl
  | cons a l ih =>
    obtain ⟨head, tail⟩ := forall_mem_cons.mp h
    simp [mapM_cons, head, ih tail]

namespace Verifier

variable {v : Verifier}

theorem Signed.exists_data {m : Message} (h : v.Signed m) : ∃ data publicKey,
    serializeMessageForSignature m.signatureData v.context = .ok data ∧
      v.publicKeys[m.validatorIndex]? = some publicKey ∧
      v.bls.verify m.signature data publicKey = true := by
  have verified := h.2
  unfold hasValidMessageSignature at verified
  split at verified
  · next data publicKey serialized found => exact ⟨data, publicKey, serialized, found, verified⟩
  · contradiction

/-- Valid signatures of one vote, whatever the order in which the checker finds the keys. -/
theorem check_aggregate (correct : v.bls.Correct) {messages : List Message}
    {message : SignatureMessageData} {signers : List Nat} (nonempty : messages ≠ [])
    (signed : ∀ m ∈ messages, v.Signed m) (same : ∀ m ∈ messages, m.signatureData = message)
    (perm : signers.Perm (messages.map (·.validatorIndex))) :
    v.check message signers (v.bls.aggregate (messages.map (·.signature))) = true := by
  obtain ⟨first, member⟩ := exists_mem_of_ne_nil messages nonempty
  obtain ⟨data, -, serialized, -⟩ := (signed first member).exists_data
  rw [same first member] at serialized
  let publicKey : Nat → Bytes := fun i => v.publicKeys[i]?.getD []
  have valid : ∀ m ∈ messages, v.publicKeys[m.validatorIndex]? = some (publicKey m.validatorIndex) ∧
      v.bls.verify m.signature data (publicKey m.validatorIndex) = true := by
    intro m member
    obtain ⟨data', key, serialized', found, verified⟩ := (signed m member).exists_data
    rw [same m member, serialized, ok.injEq] at serialized'
    subst serialized'
    simp only [publicKey, found, getD_some, true_and]
    exact verified
  have keys : signers.mapM (v.publicKeys[·]?) = some (signers.map publicKey) := by
    apply mapM_eq_some_map
    intro i flagged
    obtain ⟨m, member, rfl⟩ := mem_map.mp (perm.mem_iff.mp flagged)
    exact (valid m member).1
  simp only [check, serialized, keys]
  have aggregated := correct.verify_aggregate
    (messages.map fun m => (publicKey m.validatorIndex, m.signature)) (signers.map publicKey) data
    (by simpa using nonempty)
    (by
      intro s listed
      obtain ⟨m, member, rfl⟩ := mem_map.mp listed
      exact (valid m member).2)
    (by simpa [Function.comp_def] using perm.map publicKey)
  simpa [Function.comp_def] using aggregated

/-- What a verified proof of a commit fits into. -/
theorem fits_of_verify (correct : v.bls.Correct) {proof : AggregatedSignature} {number round : Nat}
    {hash : Bytes} (h : verify (v.check ⟨.precommit, number, round, some hash⟩) proof
      (v.roundValidators number) = true) : CommitProof.Fits ⟨proof, round⟩ := by
  obtain ⟨length, -, checked⟩ := verify_eq_true.mp h
  have small : proof.validators.length ≤ 64 := length ▸ v.roundValidators_le number
  simp only [check] at checked
  split at checked
  · next data publicKeys serialized _ =>
      have packed : validatorSetPack proof.validators < 256 ^ 8 :=
        calc validatorSetPack proof.validators
            < 2 ^ proof.validators.length := validatorSetPack_lt _
          _ ≤ 2 ^ 64 := Nat.pow_le_pow_right (by omega) small
          _ = 256 ^ 8 := by norm_num
      exact CommitProof.fits_iff.mpr ⟨round_lt_of_serializeMessageForSignature serialized,
          correct.length_signature _ _ _ checked,
          ⟨show proof.validators.length < 256 ^ 1 by omega, packed⟩, trivial⟩
  · contradiction

end Verifier

section Votes

variable {v : Verifier} {type : MessageType} {key : RoundKey} {messages : List Message}
variable {hash : Bytes}

theorem length_getSignatures :
    (getSignatures messages hash).length = messages.countP fun m => m.blockHash = some hash := by
  rw [getSignatures, length_map, countP_eq_length_filter]

theorem map_fst_getSignatures : (getSignatures messages hash).map (·.1) =
    (messages.filter fun m => m.blockHash = some hash).map (·.validatorIndex) := by
  rw [getSignatures, List.map_map]
  rfl

theorem map_snd_getSignatures : (getSignatures messages hash).map (·.2) =
    (messages.filter fun m => m.blockHash = some hash).map (·.signature) := by
  rw [getSignatures, List.map_map]
  rfl

theorem nodup_getSignatures (nodup : (messages.map (·.validatorIndex)).Nodup) :
    ((getSignatures messages hash).map (·.1)).Nodup := by
  rw [map_fst_getSignatures]
  exact nodup.sublist (filter_sublist.map _)

/-- A majority for the block is aggregated. -/
theorem exists_aggregate {n : Nat}
    (majority : isMajority (messages.countP fun m => m.blockHash = some hash) n = true)
    (below : ∀ m ∈ messages, m.validatorIndex < n) :
    ∃ proof, aggregate v.bls.aggregate (getSignatures messages hash) n = .ok proof := by
  refine ⟨_, aggregate_eq_ok.mpr ⟨length_getSignatures ▸ majority, ?_, rfl⟩⟩
  intro s listed
  obtain ⟨m, member, rfl⟩ := mem_map.mp listed
  exact below m (mem_of_mem_filter member)

/-- The aggregate of valid votes verifies. -/
theorem verify_getSignatures (correct : v.bls.Correct) {proof : AggregatedSignature} {n : Nat}
    (routed : ∀ m ∈ messages, m.type = type ∧ m.roundKey = key)
    (nodup : (messages.map (·.validatorIndex)).Nodup) (signed : ∀ m ∈ messages, v.Signed m)
    (h : aggregate v.bls.aggregate (getSignatures messages hash) n = .ok proof) :
    verify (v.check ⟨type, key.blockNumber, key.round, some hash⟩) proof n = true := by
  refine verify_of_aggregate h (nodup_getSignatures nodup) ?_
  have perm := signers_perm h (nodup_getSignatures nodup)
  obtain ⟨majority, -, rfl⟩ := aggregate_eq_ok.mp h
  rw [map_fst_getSignatures] at perm
  simp only [map_snd_getSignatures]
  refine Verifier.check_aggregate correct ?_ (fun m member => ?_) (fun m member => ?_) perm
  · intro empty
    simp [getSignatures, empty, isMajority] at majority
  · exact signed m (mem_of_mem_filter member)
  · obtain ⟨member, forHash⟩ := mem_filter.mp member
    obtain ⟨rfl, rfl⟩ := routed m member
    simp only [decide_eq_true_eq] at forHash
    simp [Message.signatureData, Message.roundKey, forHash]

end Votes

namespace RoundState

variable {v : Verifier} {key : RoundKey} {rs : RoundState key}

theorem aggregate_of_proposal {p : Proposal} {messages : List Message} (held : rs.proposal = some p)
    {proof : AggregatedSignature} (h : Aggregator.aggregate v.bls.aggregate
      (getSignatures messages p.blockHeader.hash) (v.roundValidators key.blockNumber) = .ok proof) :
    rs.aggregate v messages = .ok proof := by
  simp [aggregate, held, h, Except.mapError]

/-- A majority of valid votes of one type for the proposed block is aggregated, and the
aggregate verifies. -/
theorem exists_aggregate_verify (correct : v.bls.Correct) {type : MessageType}
    {votes : Votes type key} {p : Proposal} (held : rs.proposal = some p)
    (majority : isMajority (votes.count (some p.blockHeader.hash))
      (v.roundValidators key.blockNumber) = true)
    (signed : ∀ m ∈ votes.messages, v.Signed m) :
    ∃ proof, rs.aggregate v votes.messages = .ok proof ∧
      verify (v.check ⟨type, key.blockNumber, key.round, some p.blockHeader.hash⟩) proof
        (v.roundValidators key.blockNumber) = true := by
  rw [votes.count_eq] at majority
  have below : ∀ m ∈ votes.messages, m.validatorIndex < v.roundValidators key.blockNumber := by
    intro m member
    have := (signed m member).1
    rwa [← (votes.routed m member).2]
  obtain ⟨proof, aggregated⟩ := exists_aggregate majority below
  exact ⟨proof, aggregate_of_proposal held aggregated,
    verify_getSignatures correct votes.routed votes.nodup signed aggregated⟩

/-- What `makeCommit` returns, and from which precommits. -/
theorem makeCommit_eq_ok {serialized : Proposal → Bytes} {commit : Commit} {bytes : Bytes}
    (h : rs.makeCommit v serialized = .ok (commit, bytes)) :
    ∃ p, rs.proposal = some p ∧ commit.block = p.blockHeader ∧ commit.proof.round = p.round ∧
      Aggregator.aggregate v.bls.aggregate (getSignatures rs.precommits.messages p.blockHeader.hash)
        (v.roundValidators key.blockNumber) = .ok commit.proof.toAggregatedSignature := by
  unfold makeCommit at h
  split at h
  · contradiction
  · next p held =>
      obtain ⟨majority, aggregated, h⟩ := bind_eq_ok.mp h
      split at h
      · obtain ⟨bytes', -, same⟩ := bind_eq_ok.mp h
        obtain ⟨rfl, -⟩ := Prod.mk.inj (ok.inj same)
        refine ⟨p, held, rfl, rfl, ?_⟩
        simp only [aggregatePrecommits, aggregate, held] at aggregated
        exact mapError_eq_ok.mp aggregated
      · contradiction

/-- With a majority of valid precommits for the parsed proposal, the commit is made. -/
theorem exists_makeCommit (correct : v.bls.Correct) (serialized : Proposal → Bytes)
    (majority : rs.hasMajorityPrecommits (v.roundValidators key.blockNumber) = true)
    (signed : ∀ m ∈ rs.precommits.messages, v.Signed m) :
    ∃ made, rs.makeCommit v serialized = .ok made := by
  obtain ⟨p, held, parsed, majority⟩ := hasMajorityPrecommits_iff.mp majority
  obtain ⟨proof, aggregated, verified⟩ := exists_aggregate_verify correct held majority signed
  obtain rfl := rs.proposal_routed p held
  have written := serializeCommit_of_fits (Verifier.fits_of_verify correct verified) (serialized p)
  refine ⟨(⟨p.blockHeader, ⟨proof, p.round⟩⟩, encodeProof ⟨proof, p.round⟩ ++ serialized p), ?_⟩
  have majority' : rs.aggregatePrecommits v = .ok proof := aggregated
  have written' : serializeCommit ⟨proof, p.round⟩ (serialized p) =
      .ok (encodeProof ⟨proof, p.round⟩ ++ serialized p) := written
  simp [makeCommit, held, majority', parsed, written', bind, Except.bind, Except.mapError, pure,
    Except.pure]

end RoundState

/-! ## The commit that a round state keeps -/

/-- A round state with `#commit`. -/
structure CommittingRoundState (key : RoundKey) where
  roundState : RoundState key
  commit : Option (Commit × Bytes)

/-- The calls that change a round state. -/
inductive RoundStateCall (key : RoundKey)
  | addProposal (p : Proposal) (belongs : p.roundKey = key)
  | addMessage (m : Message) (belongs : m.roundKey = key)
  | deserializePayload
  | setProcessorResult (success : Bool)
  | getCommit

namespace CommittingRoundState

variable {key : RoundKey}

def configure : CommittingRoundState key := ⟨.configure, none⟩

def getCommit (v : Verifier) (serialized : Proposal → Bytes) (s : CommittingRoundState key) :
    Except CertificateError ((Commit × Bytes) × CommittingRoundState key) :=
  match s.commit with
  | some commit => .ok (commit, s)
  | none => do
      let commit ← s.roundState.makeCommit v serialized
      return (commit, { s with commit := some commit })

/-- A call that throws leaves the round state as it is. -/
def step (v : Verifier) (serialized : Proposal → Bytes) (s : CommittingRoundState key) :
    RoundStateCall key → Option (CommittingRoundState key)
  | .addProposal p belongs =>
    (s.roundState.addProposal p belongs).map fun rs => { s with roundState := rs }
  | .addMessage m belongs =>
    (s.roundState.addMessage m belongs).map fun rs => { s with roundState := rs }
  | .deserializePayload => some { s with roundState := s.roundState.deserializePayload }
  | .setProcessorResult success =>
    some { s with roundState := s.roundState.setProcessorResult success }
  | .getCommit => (s.getCommit v serialized).toOption.map (·.2)

/-- The round states that calls lead to. -/
abbrev Reached (v : Verifier) (serialized : Proposal → Bytes) : CommittingRoundState key → Prop :=
  Transition.Reach (step v serialized) (fun _ _ => True) configure

/-- The commit that is kept was made from the proposal and from precommits that are there. -/
def Kept (v : Verifier) (s : CommittingRoundState key) : Prop :=
  ∀ commit bytes, s.commit = some (commit, bytes) → ∃ p messages,
    s.roundState.proposal = some p ∧ messages.Sublist s.roundState.precommits.messages ∧
      commit.block = p.blockHeader ∧ commit.proof.round = p.round ∧
      aggregate v.bls.aggregate (getSignatures messages p.blockHeader.hash)
        (v.roundValidators key.blockNumber) = .ok commit.proof.toAggregatedSignature

variable {v : Verifier} {serialized : Proposal → Bytes} {s s' : CommittingRoundState key}

theorem Kept.grows (h : s.Kept v) (same : s'.commit = s.commit)
    (grows : s.roundState.Grows s'.roundState) : s'.Kept v := by
  intro commit bytes present
  obtain ⟨p, messages, held, sub, made⟩ := h commit bytes (same ▸ present)
  exact ⟨p, messages, grows.proposal p held, sub.trans grows.precommits, made⟩

open CommittingRoundState

theorem Kept.step {call : RoundStateCall key} (h : s.Kept v)
    (taken : s.step v serialized call = some s') : s'.Kept v := by
  cases call with
  | addProposal p belongs =>
    obtain ⟨rs, added, rfl⟩ := map_eq_some_iff.mp taken
    exact h.grows rfl (grows_of_addProposal added)
  | addMessage m belongs =>
    obtain ⟨rs, added, rfl⟩ := map_eq_some_iff.mp taken
    exact h.grows rfl (grows_of_addMessage added)
  | deserializePayload =>
    cases taken
    exact h.grows rfl (grows_deserializePayload _)
  | setProcessorResult success =>
    cases taken
    exact h.grows rfl (grows_setProcessorResult _ success)
  | getCommit =>
    obtain ⟨⟨returned, _⟩, got, rfl⟩ := map_eq_some_iff.mp taken
    rw [toOption_eq_some, getCommit] at got
    split at got
    · obtain ⟨-, rfl⟩ := Prod.mk.inj (ok.inj got)
      exact h
    · obtain ⟨made, building, same⟩ := bind_eq_ok.mp got
      obtain ⟨-, rfl⟩ := Prod.mk.inj (ok.inj same)
      intro commit bytes present
      cases present
      obtain ⟨p, held, block, round, aggregated⟩ := makeCommit_eq_ok building
      exact ⟨p, _, held, Sublist.refl _, block, round, aggregated⟩

theorem kept_of_reached (h : s.Reached v serialized) : s.Kept v :=
  h.invariant (P := Kept v) (by intro commit bytes present; simp [configure] at present)
    fun _ _ _ kept _ taken => kept.step taken

/-- After `getCommit` the commit that it returned is kept, whichever branch was taken. -/
theorem kept_of_getCommit (kept : s.Kept v) {commit : Commit} {bytes : Bytes}
    (h : s.getCommit v serialized = .ok ((commit, bytes), s')) :
    s'.Kept v ∧ s'.roundState = s.roundState ∧ s'.commit = some (commit, bytes) := by
  have taken : s.step v serialized .getCommit = some s' := by simp [step, h, Except.toOption]
  refine ⟨kept.step taken, ?_⟩
  unfold getCommit at h
  split at h
  · next present =>
      obtain ⟨rfl, rfl⟩ := Prod.mk.inj (ok.inj h)
      exact ⟨rfl, present⟩
  · obtain ⟨made, -, same⟩ := bind_eq_ok.mp h
    obtain ⟨rfl, rfl⟩ := Prod.mk.inj (ok.inj same)
    exact ⟨rfl, rfl⟩

/-- The commit that `getCommit` returns verifies, be it new or kept. -/
theorem hasValidSignature_of_getCommit (correct : v.bls.Correct) (kept : s.Kept v)
    (signed : ∀ m ∈ s.roundState.precommits.messages, v.Signed m) {commit : Commit} {bytes : Bytes}
    (h : s.getCommit v serialized = .ok ((commit, bytes), s')) :
    v.hasValidSignature commit = true := by
  obtain ⟨kept', same, present⟩ := kept_of_getCommit kept h
  obtain ⟨p, messages, held, sub, block, round, aggregated⟩ := kept' commit bytes present
  rw [same] at held sub
  obtain rfl := s.roundState.proposal_routed p held
  have verified := verify_getSignatures correct
    (fun m member => s.roundState.precommits.routed m (sub.subset member))
    (s.roundState.precommits.nodup.sublist (sub.map _))
    (fun m member => signed m (sub.subset member)) aggregated
  rw [Verifier.hasValidSignature, Mainsail.hasValidSignature, block, round]
  exact verified

/-- What a round state builds from a majority of valid votes is accepted: the lock proof with
a proposal of the same block in any later round, and the commit. -/
theorem certificates_accepted (correct : v.bls.Correct) (reached : s.Reached v serialized) :
    ((∀ m ∈ s.roundState.prevotes.messages, v.Signed m) →
      s.roundState.hasMajorityPrevotes (v.roundValidators key.blockNumber) = true →
      ∃ proof, s.roundState.aggregatePrevotes v = .ok proof ∧
        ∀ p q : Proposal, s.roundState.proposal = some q → p.blockHeader = q.blockHeader →
          p.validRound = some key.round → p.lockProof = some proof →
          v.hasValidLockProof p = true) ∧
    ((∀ m ∈ s.roundState.precommits.messages, v.Signed m) →
      s.roundState.hasMajorityPrecommits (v.roundValidators key.blockNumber) = true →
      ∃ commit bytes s', s.getCommit v serialized = .ok ((commit, bytes), s') ∧
        v.hasValidSignature commit = true) := by
  constructor
  · intro signed majority
    obtain ⟨q, held, -, majority⟩ := hasMajorityPrevotes_iff.mp majority
    obtain ⟨proof, aggregated, verified⟩ :=
      exists_aggregate_verify correct held majority signed
    refine ⟨proof, aggregated, ?_⟩
    intro p q' held' block validRound lockProof
    obtain rfl : q = q' := some.inj (held.symm.trans held')
    have number : q.blockHeader.number = key.blockNumber :=
      congrArg RoundKey.blockNumber (s.roundState.proposal_routed q held)
    have later := p.validRound_lt _ validRound
    rw [← number] at verified
    simp only [Verifier.hasValidLockProof, Mainsail.hasValidLockProof, validRound, lockProof, block,
      getD_some, if_neg (Nat.not_le.mpr later)]
    exact verified
  · intro signed majority
    obtain ⟨commit, bytes, s', got⟩ :
        ∃ commit bytes s', s.getCommit v serialized = .ok ((commit, bytes), s') := by
      unfold getCommit
      split
      · next made present => exact ⟨made.1, made.2, s, rfl⟩
      · obtain ⟨made, building⟩ := exists_makeCommit correct serialized majority signed
        exact ⟨made.1, made.2, { s with commit := some made }, by rw [building]; rfl⟩
    exact ⟨commit, bytes, s', got,
      hasValidSignature_of_getCommit correct (kept_of_reached reached) signed got⟩

/-- A scheme on single bytes: a signature is the key times the sum of what is signed. -/
def byteBls : Bls where
  aggregate signatures := (signatures.map (·.headD 0)).sum :: replicate 95 0
  aggregatePublicKeys publicKeys := [(publicKeys.map (·.headD 0)).sum]
  verify signature data publicKey :=
    signature == publicKey.headD 0 * data.sum :: replicate 95 0

theorem byteBls_correct : byteBls.Correct where
  verify_aggregate := by
    intro signers publicKeys data _ valid perm
    have each : ∀ s ∈ signers, s.2.headD 0 = s.1.headD 0 * data.sum := by
      intro s member
      rw [beq_iff_eq.mp (valid s member)]
      rfl
    have sum : ((signers.map (·.2)).map (·.headD 0)).sum =
        (publicKeys.map (·.headD 0)).sum * data.sum := by
      rw [(perm.map _).sum_eq, List.map_map, List.map_map]
      exact (congrArg List.sum (map_congr_left each)).trans (sum_map_mul_right ..)
    simp only [byteBls, sum, headD_cons, beq_self_eq_true]
  length_signature := by
    intro signature data publicKey verified
    rw [beq_iff_eq.mp verified]
    rfl

/-- Four validators. -/
def fourVerifier : Verifier where
  bls := byteBls
  context := ⟨replicate 32 0, replicate 32 0⟩
  publicKeys := [[1], [2], [3], [4]]
  roundValidators := fun _ => 4
  roundValidators_le := fun _ => by omega

def fourProposal : Proposal := .fresh ⟨1, replicate 32 7, 0⟩ 0 0 []

/-- The block is proposed again in the next round, with a proof of the prevotes. -/
def proposedAgain (proof : AggregatedSignature) : Proposal where
  blockHeader := fourProposal.blockHeader
  round := 1
  validRound := some 0
  lockProof := some proof
  validatorIndex := 1
  signature := []
  paired := rfl
  validRound_lt := by simp

/-- A vote for the block. The signed bytes add up to 226 and the type. -/
def fourVote (type : MessageType) (key : UInt8) : Message where
  type := type
  blockNumber := 1
  round := 0
  blockHash := some (replicate 32 7)
  validatorIndex := key.toNat - 1
  signature := key * (226 + UInt8.ofNat type.toNat) :: replicate 95 0

/-- The proposal, the votes of three validators, and then the commit. -/
def fourCalls : List (RoundStateCall ⟨1, 0⟩) :=
  [.addProposal fourProposal rfl, .deserializePayload] ++
  [3, 1, 4].map (fun key => .addMessage (fourVote .prevote key) rfl) ++
  [2, 4, 1].map (fun key => .addMessage (fourVote .precommit key) rfl) ++ [.getCommit]

theorem certificates_accepted_fourCalls :
    ∃ s : CommittingRoundState ⟨1, 0⟩, s.Reached fourVerifier (fun _ => []) ∧
      (∃ proof, s.roundState.aggregatePrevotes fourVerifier = .ok proof ∧
        fourVerifier.hasValidLockProof (proposedAgain proof) = true) ∧
      ∃ commit bytes s', s.getCommit fourVerifier (fun _ => []) = .ok ((commit, bytes), s') ∧
        fourVerifier.hasValidSignature commit = true := by
  have evaluated : (Transition.run (step fourVerifier fun _ => []) configure fourCalls).map
      (fun s => (s.roundState.proposal, s.roundState.prevotes.messages,
        s.roundState.precommits.messages, s.roundState.hasMajorityPrevotes 4,
        s.roundState.hasMajorityPrecommits 4)) =
      some (some fourProposal, [3, 1, 4].map (fourVote .prevote),
        [2, 4, 1].map (fourVote .precommit), true, true) := by
    decide +kernel
  have guarded : Transition.Guarded (step fourVerifier fun _ => []) (fun _ _ => True) configure
      fourCalls := by
    decide +kernel
  obtain ⟨s, reached, observed⟩ := Transition.Reach.exists_of_run evaluated guarded
  simp only [Prod.mk.injEq] at observed
  obtain ⟨held, prevotes, precommits, majority, majority'⟩ := observed
  obtain ⟨lock, commit⟩ := certificates_accepted byteBls_correct reached
  rw [prevotes] at lock
  rw [precommits] at commit
  obtain ⟨proof, aggregated, accepted⟩ := lock (by decide +kernel) majority
  exact ⟨s, reached, ⟨proof, aggregated, accepted _ _ held rfl rfl rfl⟩,
    commit (by decide +kernel) majority'⟩

end CommittingRoundState

end Mainsail
