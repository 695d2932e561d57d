import Mainsail.Consensus.Locks
import Mainsail.Foundation.Locking

/-!
# The voting rules of an honest node

What a node signs, in terms of all votes signed so far. A precommit for a block rests on more
than two thirds prevotes for it, and puts the lock of the node at its round, in memory and in
every content a crash can leave of the store. A prevote for a block that comes after it
respects that lock. Together with the uniqueness of votes these are the rules of the
locking argument.

The votes of others are known by their signatures only. So the rules are stated for a
relation `signed` that says which validator has signed which vote for a block, and the
byzantine validators may sign anything.
-/

namespace Mainsail

open RoundState Repository Service Bootstrapper Option Finset

/-- The validators of each block number. Fewer than a third of them are byzantine. -/
structure Electorate where
  roundValidators : Nat → Nat
  byzantine : Nat → Finset Nat
  few : ∀ blockNumber, (byzantine blockNumber).card * 3 < roundValidators blockNumber

/-- A vote for a block, without its signer. -/
structure Ballot where
  type : MessageType
  key : RoundKey
  hash : Bytes
  deriving DecidableEq

namespace Electorate

variable (el : Electorate) (signed : Ballot → Nat → Prop)

/-- The validator is byzantine or has signed the vote. -/
def Vouched (ballot : Ballot) (validatorIndex : Nat) : Prop :=
  validatorIndex ∈ el.byzantine ballot.key.blockNumber ∨ signed ballot validatorIndex

/-- A vote that a validator may have cast. -/
def Genuine (m : Message) : Prop :=
  m.validatorIndex < el.roundValidators m.blockNumber ∧
    ∀ hash ∈ m.blockHash, el.Vouched signed ⟨m.type, m.roundKey, hash⟩ m.validatorIndex

instance (ballot : Ballot) (i : Nat) [Decidable (signed ballot i)] :
    Decidable (el.Vouched signed ballot i) :=
  inferInstanceAs (Decidable (_ ∨ _))

instance (m : Message) [∀ b i, Decidable (signed b i)] : Decidable (el.Genuine signed m) :=
  inferInstanceAs (Decidable (_ ∧ ∀ hash ∈ m.blockHash, _))

/-- More than two thirds of the validators vouch for the vote. -/
def Backed (type : MessageType) (key : RoundKey) (hash : Bytes) : Prop :=
  Locking.Backed (range (el.roundValidators key.blockNumber)) (el.byzantine key.blockNumber)
    (fun v round x => signed ⟨type, ⟨key.blockNumber, round⟩, x⟩ v) key.round hash

/-- More than two thirds of the validators decided for the block in some round. -/
def Decided (block : BlockHeader) : Prop :=
  ∃ round, el.Backed signed .precommit ⟨block.number, round⟩ block.hash

variable {el signed} {signed' : Ballot → Nat → Prop} {type : MessageType} {key : RoundKey}
variable {hash : Bytes}

variable {i : Nat} {m : Message}

theorem Vouched.mono {ballot : Ballot} (h : el.Vouched signed ballot i)
    (more : ∀ b v, signed b v → signed' b v) : el.Vouched signed' ballot i :=
  h.imp_right (more _ _)

theorem Genuine.mono (h : el.Genuine signed m)
    (more : ∀ b v, signed b v → signed' b v) : el.Genuine signed' m :=
  ⟨h.1, fun hash named => (h.2 hash named).mono more⟩

theorem Backed.mono (h : el.Backed signed type key hash)
    (more : ∀ b v, signed b v → signed' b v) : el.Backed signed' type key hash :=
  Locking.Backed.mono h fun _ _ _ => more _ _

theorem Decided.mono {block : BlockHeader} (h : el.Decided signed block)
    (more : ∀ b v, signed b v → signed' b v) : el.Decided signed' block := by
  obtain ⟨round, backed⟩ := h
  exact ⟨round, backed.mono more⟩

/-- A majority that a round state counts is one of validators that vouch for it. -/
theorem backed_of_count {votes : Votes type key}
    (genuine : ∀ m ∈ votes.messages, el.Genuine signed m)
    (enough : isMajority (votes.count (some hash)) (el.roundValidators key.blockNumber) = true) :
    el.Backed signed type key hash := by
  refine ⟨votes.voters (some hash), ?_, ?_, ?_⟩
  · intro i voted
    obtain ⟨m, member, -, rfl⟩ := Votes.mem_voters.mp voted
    have number : m.blockNumber = key.blockNumber :=
      congrArg RoundKey.blockNumber (votes.routed m member).2
    rw [mem_range, ← number]
    exact (genuine m member).1
  · rw [Votes.card_voters, card_range]
    exact isMajority_iff.mp enough
  · intro i voted
    obtain ⟨m, member, named, rfl⟩ := Votes.mem_voters.mp voted
    obtain ⟨rfl, rfl⟩ := votes.routed m member
    exact (genuine m member).2 hash named

/-- So is the majority of an aggregated signature that verifies. -/
theorem backed_of_verify {check : List Nat → Bytes → Bool} {signature : AggregatedSignature}
    (verified : Aggregator.verify check signature (el.roundValidators key.blockNumber) = true)
    (vouched : ∀ i ∈ signature.signers, el.Vouched signed ⟨type, key, hash⟩ i) :
    el.Backed signed type key hash := by
  obtain ⟨length, enough, -⟩ := Aggregator.verify_eq_true.mp verified
  refine ⟨signature.signers.toFinset, ?_, ?_, ?_⟩
  · intro i flagged
    rw [mem_range, ← length]
    exact AggregatedSignature.lt_of_mem_signers (List.mem_toFinset.mp flagged)
  · rw [List.toFinset_card_of_nodup signature.signers_nodup, card_range]
    exact isMajority_iff.mp enough
  · exact fun i flagged => vouched i (List.mem_toFinset.mp flagged)

end Electorate

namespace Core

variable (el : Electorate) (check : Ballot → List Nat → Bytes → Bool)
variable (signed : Ballot → Nat → Prop) (c : Core)

/-- The aggregated signature verifies only if every flagged validator vouches for the vote. -/
def Unforged (ballot : Ballot) (signature : AggregatedSignature) : Prop :=
  check ballot signature.signers signature.signature = true →
    ∀ i ∈ signature.signers, el.Vouched signed ballot i

instance (ballot : Ballot) (signature : AggregatedSignature) [∀ b i, Decidable (signed b i)] :
    Decidable (Unforged el check signed ballot signature) :=
  inferInstanceAs (Decidable (_ = true → ∀ i ∈ signature.signers, _))

/-- The reply to a handler that verifies a lock proof is what the signature scheme says. -/
def Replies (value : Bool) : Option Continuation → Prop
  | some (.verifyLockProof key) =>
    ∀ p ∈ (c.roundStates key).proposal, ∀ validRound ∈ p.validRound, ∀ proof ∈ p.lockProof,
      let ballot := ⟨.prevote, ⟨p.blockHeader.number, validRound⟩, p.blockHeader.hash⟩
      value = check ballot proof.signers proof.signature ∧ Unforged el check signed ballot proof
  | _ => True

instance (value : Bool) [∀ b i, Decidable (signed b i)] (k : Option Continuation) :
    Decidable (c.Replies el check signed value k) := by
  unfold Replies
  split <;> infer_instance

/-- Signatures that verify are genuine: those of votes, of lock proofs and of commits. -/
def Receives : Event → Prop
  | .messageVerified m true => el.Genuine signed m
  | .resume reply => c.Replies el check signed reply.value c.continuation
  | .handleCommitState commit =>
    let ballot :=
      ⟨.precommit, ⟨commit.block.number, commit.proof.round⟩, commit.block.hash⟩
    hasValidSignature (check ballot) (el.roundValidators commit.block.number) commit = true ∧
      Unforged el check signed ballot commit.proof.toAggregatedSignature
  | _ => True

instance [∀ b i, Decidable (signed b i)] (e : Event) :
    Decidable (c.Receives el check signed e) := by
  unfold Receives
  split <;> infer_instance

/-- What the node has signed counts as signed. -/
def Published : Prop :=
  ∀ v ∈ c.signedVotes, ∀ hash ∈ v.1.blockHash,
    signed ⟨v.1.type, v.1.roundKey, hash⟩ v.1.validatorIndex

/-- A prevote for this block, in this round, respects a lock at the given round. -/
def Respects (key : RoundKey) (locked : Nat) (hash : Bytes) : Prop :=
  locked < key.round ∧ ∃ z, el.Backed signed .prevote ⟨key.blockNumber, locked⟩ z ∧
    (hash = z ∨ ∃ proof, locked ≤ proof ∧ proof < key.round ∧
      el.Backed signed .prevote ⟨key.blockNumber, proof⟩ hash)

/-- The node may cast this vote where it stands. -/
def Warrants : MessageType → Option Bytes → Prop
  | _, none => True
  | .prevote, some hash =>
    ∀ key, c.lockedValue = some key → Respects el signed c.current key.round hash
  | .precommit, some hash =>
    c.lockedValue = some c.current ∧ el.Backed signed .prevote c.current hash

/-- What a handler persists before it votes. -/
def Plans : Next → Prop
  | .prevoteProposal _ => True
  | .prevoteLocked key => key = c.current
  | .prevote value => value = none
  | .precommit value => c.Warrants el signed .precommit value
  | .beginRound => True
  | .done => True

def Casting : Prop :=
  match c.continuation with
  | some (.persisted _ next) => c.Plans el signed next
  | some (.next next) => c.Plans el signed next
  | some (.votes type value _) => c.Warrants el signed type value
  | some (.signed m _) => c.Warrants el signed m.type m.blockHash
  | some (.saved _ m _) => c.Warrants el signed m.type m.blockHash
  | _ => True

/-- A handler on its way to commit a block. -/
def Deciding : Prop :=
  match c.continuation with
  | some (.processBlock commit) => el.Decided signed commit.block
  | some (.lockCommit block) => el.Decided signed block
  | some (.commitUnit block) => el.Decided signed block
  | _ => True

/-- The round state has a proposal, and its valid round is backed. -/
def LockProven (key : RoundKey) : Prop :=
  ∃ p, (c.roundStates key).proposal = some p ∧ ∀ validRound, p.validRound = some validRound →
    el.Backed signed .prevote ⟨p.blockHeader.number, validRound⟩ p.blockHeader.hash

structure Ruled : Prop where
  stored : c.storage.Always fun t => ∀ m ∈ t.messages, el.Genuine signed m
  prevotes : ∀ key, ∀ m ∈ (c.roundStates key).prevotes.messages, el.Genuine signed m
  precommits : ∀ key, ∀ m ∈ (c.roundStates key).precommits.messages, el.Genuine signed m
  verified : ∀ key, c.continuation = some (.process key) → c.LockProven el signed key
  result : ∀ key, (c.roundStates key).processorResult = some true → c.LockProven el signed key
  deciding : c.Deciding el signed
  committed : ∀ block ∈ c.committedBlocks, el.Decided signed block
  casting : c.Casting el signed
  precommit_backed : ∀ v ∈ c.signedVotes, v.1.type = .precommit → ∀ hash ∈ v.1.blockHash,
    el.Backed signed .prevote v.1.roundKey hash
  lock_kept : ∀ v ∈ c.signedVotes, v.1.type = .precommit → ∀ hash ∈ v.1.blockHash,
    c.storage.Always fun t =>
      v.1.blockNumber < c.next ∨ ∃ l, t.restoreLock c.next = some l ∧ v.1.round ≤ l
  lock_since : c.running = true → ∀ v ∈ c.signedVotes, v.1.type = .precommit →
    ∀ hash ∈ v.1.blockHash, v.1.blockNumber = c.blockNumber →
      ∃ key, c.lockedValue = some key ∧ v.1.round ≤ key.round
  prevote_locked : ∀ v ∈ c.signedVotes, ∀ w ∈ c.signedVotes, v.1.type = .precommit →
    w.1.type = .prevote → ∀ hash ∈ v.1.blockHash, ∀ hash' ∈ w.1.blockHash,
      v.1.blockNumber = w.1.blockNumber → v.1.round < w.1.round →
        ∃ locked, v.1.round ≤ locked ∧ Respects el signed w.1.roundKey locked hash'

variable {el check signed c} {signed' : Ballot → Nat → Prop} {env : Env} {c' : Core} {e : Event}

variable {continuation : Continuation} {p : Proposal} {repo : Repository}

theorem Casting.of_at (h : c.Casting el signed) (at_ : c.continuation = some continuation) :
    Casting el signed { c with continuation := some continuation } := by
  rw [← at_]
  exact h

theorem Deciding.of_at (h : c.Deciding el signed) (at_ : c.continuation = some continuation) :
    Deciding el signed { c with continuation := some continuation } := by
  rw [← at_]
  exact h

/-! ## More votes -/

section

variable (more : ∀ b v, signed b v → signed' b v)
include more

theorem Respects.mono {key : RoundKey} {locked : Nat} {hash : Bytes}
    (h : Respects el signed key locked hash) : Respects el signed' key locked hash := by
  obtain ⟨before, z, backed, reason⟩ := h
  refine ⟨before, z, backed.mono more, reason.imp_right ?_⟩
  rintro ⟨proof, after, earlier, proven⟩
  exact ⟨proof, after, earlier, proven.mono more⟩

variable {value : Option Bytes} {next : Next}

theorem Warrants.mono {type : MessageType}
    (h : c.Warrants el signed type value) : c.Warrants el signed' type value := by
  cases value with
  | none => trivial
  | some hash =>
    cases type with
    | prevote => exact fun key held => (h key held).mono more
    | precommit => exact ⟨h.1, h.2.mono more⟩

theorem Plans.mono (h : c.Plans el signed next) : c.Plans el signed' next := by
  cases next with
  | precommit value => exact Warrants.mono more h
  | _ => exact h

theorem Casting.mono (h : c.Casting el signed) : c.Casting el signed' := by
  unfold Casting at h ⊢
  split at h
  · exact Plans.mono more h
  · exact Plans.mono more h
  · exact Warrants.mono more h
  · exact Warrants.mono more h
  · exact Warrants.mono more h
  · trivial

theorem Deciding.mono (h : c.Deciding el signed) : c.Deciding el signed' := by
  unfold Deciding at h ⊢
  split at h
  · exact h.mono more
  · exact h.mono more
  · exact h.mono more
  · trivial

theorem LockProven.mono {key : RoundKey} (h : c.LockProven el signed key) :
    c.LockProven el signed' key := by
  obtain ⟨p, held, proven⟩ := h
  exact ⟨p, held, fun validRound named => (proven validRound named).mono more⟩

/-- The votes of other nodes do not break the rules of this one. -/
theorem Ruled.mono (h : c.Ruled el signed) : c.Ruled el signed' where
  stored := h.stored.imp fun t genuine m member => (genuine m member).mono more
  prevotes := fun key m member => (h.prevotes key m member).mono more
  precommits := fun key m member => (h.precommits key m member).mono more
  verified := fun key at_ => (h.verified key at_).mono more
  result := fun key known => (h.result key known).mono more
  deciding := h.deciding.mono more
  committed := fun block member => (h.committed block member).mono more
  casting := h.casting.mono more
  precommit_backed := fun v member type hash named =>
    (h.precommit_backed v member type hash named).mono more
  lock_kept := h.lock_kept
  lock_since := h.lock_since
  prevote_locked := fun v hv w hw typeV typeW hash named hash' named' number round => by
    obtain ⟨locked, after, respects⟩ :=
      h.prevote_locked v hv w hw typeV typeW hash named hash' named' number round
    exact ⟨locked, after, respects.mono more⟩

theorem Receives.mono (h : c.Receives el check signed e) : c.Receives el check signed' e := by
  have unforged {ballot : Ballot} {signature : AggregatedSignature}
      (old : Unforged el check signed ballot signature) :
      Unforged el check signed' ballot signature :=
    fun verified i flagged => (old verified i flagged).mono more
  cases e with
  | messageVerified m valid =>
    cases valid with
    | false => trivial
    | true => exact Electorate.Genuine.mono h more
  | resume reply =>
    unfold Receives Replies at h ⊢
    dsimp only at h ⊢
    split at h
    · intro p held validRound named proof given
      obtain ⟨answer, old⟩ := h p held validRound named proof given
      exact ⟨answer, unforged old⟩
    · trivial
  | handleCommitState commit => exact ⟨h.1, unforged h.2⟩
  | _ => trivial

end

/-! ## One step -/

theorem ruled_off {database : BlockHeader} {tables : Tables} {votes : List (Message × Bytes)}
    {proposals : List Proposal} {blocks : List BlockHeader}
    (stored : ∀ m ∈ tables.messages, el.Genuine signed m)
    (committed : ∀ block ∈ blocks, el.Decided signed block)
    (backed : ∀ v ∈ votes, v.1.type = .precommit → ∀ hash ∈ v.1.blockHash,
      el.Backed signed .prevote v.1.roundKey hash)
    (kept : ∀ v ∈ votes, v.1.type = .precommit → ∀ hash ∈ v.1.blockHash,
      v.1.blockNumber < database.number + 1 ∨
        ∃ l, tables.restoreLock (database.number + 1) = some l ∧ v.1.round ≤ l)
    (locked : ∀ v ∈ votes, ∀ w ∈ votes, v.1.type = .precommit → w.1.type = .prevote →
      ∀ hash ∈ v.1.blockHash, ∀ hash' ∈ w.1.blockHash, v.1.blockNumber = w.1.blockNumber →
        v.1.round < w.1.round →
          ∃ locked, v.1.round ≤ locked ∧ Respects el signed w.1.roundKey locked hash') :
    (off database tables votes proposals blocks).Ruled el signed where
  stored := stored
  prevotes := by simp [off, empty, configure, Votes.empty]
  precommits := by simp [off, empty, configure, Votes.empty]
  verified := by simp [off]
  result := by simp [off, empty, configure]
  deciding := trivial
  committed := committed
  casting := trivial
  precommit_backed := backed
  lock_kept := kept
  lock_since := by simp [off]
  prevote_locked := locked

/-- A round state in which more than two thirds prevoted its proposal. -/
theorem Ruled.backed_of_majority (h : c.Ruled el signed) {key : RoundKey}
    (majority : (c.roundStates key).hasMajorityPrevotes (el.roundValidators key.blockNumber) = true)
    (held : (c.roundStates key).proposal = some p) :
    el.Backed signed .prevote key p.blockHeader.hash := by
  obtain ⟨q, same, -, enough⟩ := hasMajorityPrevotes_iff.mp majority
  obtain rfl := some.inj (held.symm.trans same)
  exact Electorate.backed_of_count (h.prevotes key) enough

theorem LockProven.grow {key : RoundKey} (h : c.LockProven el signed key)
    (grows : (c.roundStates key).Grows (repo key)) :
    LockProven el signed { c with roundStates := repo } key := by
  obtain ⟨p, held, proven⟩ := h
  exact ⟨p, grows.proposal p held, proven⟩

section

variable (same : env.roundValidators = el.roundValidators)
include same

variable (h : c.Ruled el signed)
include h

/-- The round the node is locked on comes before the one it prevotes in, and is backed by the
prevotes in memory. -/
theorem Ruled.locked_backed (locks : c.Locks env) (up : c.running = true)
    (prevoting : c.step = .prevote) {key : RoundKey} (held : c.lockedValue = some key) :
    key.round < c.round ∧ ∃ q, (c.roundStates key).proposal = some q ∧
      el.Backed signed .prevote ⟨c.blockNumber, key.round⟩ q.blockHeader.hash := by
  have ordered := locks.ordered up
  obtain ⟨valid, named, le⟩ := ordered.locked_le key.round (by simp [getState, held])
  have before : valid < c.round := ordered.valid_lt valid named (by simp [getState, prevoting])
  obtain ⟨number, majority⟩ := locks.locked up key held
  obtain ⟨q, present, -⟩ := hasMajorityPrevotes_iff.mp majority
  refine ⟨Nat.lt_of_le_of_lt le before, q, present, ?_⟩
  rw [same] at majority
  rw [← number]
  exact h.backed_of_majority majority present

/-- The value a handler casts is one it may vote for. -/
theorem Ruled.warrants_of_casts (voted : c.Voted env) (locks : c.Locks env)
    (up : c.running = true) {next : Next} {type : MessageType} {value : Option Bytes}
    (at_ : c.continuation = some (.next next)) (casts : Casts env c next type value) :
    c.Warrants el signed type value := by
  have plans : c.Plans el signed next := h.casting.of_at at_
  obtain ⟨-, entitled⟩ := voted.voting.of_at at_
  have step := (entitled type casts.votes).1
  cases casts with
  | prevote =>
    obtain rfl := plans
    trivial
  | precommit => exact plans
  | proposal key now =>
    cases chosen : c.proposalValue env key now with
    | none => trivial
    | some hash =>
      -- `onProposal` prevotes a block only without a lock.
      intro locked held
      unfold proposalValue at chosen
      split at chosen
      · contradiction
      · simp [held] at chosen
  | proposalLocked key =>
    obtain rfl := plans
    cases chosen : c.lockedProposalValue c.current with
    | none => trivial
    | some hash =>
      intro locked held
      obtain ⟨before, q, present, backed⟩ := h.locked_backed same locks up step.symm held
      refine ⟨before, q.blockHeader.hash, backed, ?_⟩
      unfold lockedProposalValue at chosen
      split at chosen
      · contradiction
      · next p proposed =>
          split at chosen
          · contradiction
          · next validRound valid =>
              rw [ite_none_right_eq_some, Bool.and_eq_true, decide_eq_true_eq] at chosen
              obtain ⟨⟨allowed, accepted⟩, chosen⟩ := chosen
              cases chosen
              simp only [isAllowedByLock, held, Bool.or_eq_true, decide_eq_true_eq, present,
                map_some, some.injEq] at allowed
              rcases allowed with after | equal
              · obtain ⟨p', proposed', proven⟩ := h.result c.current accepted
                obtain rfl := some.inj (proposed.symm.trans proposed')
                have routed := (c.roundStates c.current).proposal_routed p proposed
                have number : p.blockHeader.number = c.blockNumber :=
                  congrArg RoundKey.blockNumber routed
                have round : p.round = c.current.round := congrArg RoundKey.round routed
                refine .inr ⟨validRound, after, round ▸ p.validRound_lt validRound valid, ?_⟩
                have proof := proven validRound valid
                rwa [number] at proof
              · exact .inl equal.symm

/-- A state record keeps the lock of every precommit. -/
theorem Ruled.persist (sound : c.Sound env) (up : c.running = true)
    {round : Nat} {step : Step} {locked valid : Option RoundKey} {next : Next}
    (shift : Shift env c round step locked valid next) :
    Ruled el signed ({ c with
      round := round
      step := step
      lockedValue := locked
      validValue := valid }.persistState next) := by
  have bound := sound.heights.blockNumber_le up
  have since : ∀ v ∈ c.signedVotes, v.1.type = .precommit → ∀ hash ∈ v.1.blockHash,
      v.1.blockNumber = c.blockNumber → ∃ key, locked = some key ∧ v.1.round ≤ key.round := by
    intro v member type hash named number
    cases shift with
    | lock => exact ⟨c.current, rfl, sound.voted.round_le up member number⟩
    | _ => exact h.lock_since up v member type hash named number
  refine { h with
    stored := ?_, verified := by simp [persistState], deciding := trivial, casting := ?_,
    lock_kept := ?_, lock_since := fun _ => since }
  · refine always_write.mpr ⟨h.stored, ?_⟩
    intro m stored
    rcases eq_or_holds_of_latest_write (x := .message m) stored with new | ⟨-, old, -⟩
    · contradiction
    · exact h.stored.latest m old
  · cases shift with
    | lock _ majority held =>
      rw [same] at majority
      exact ⟨rfl, h.backed_of_majority majority held⟩
    | proposalLocked | proposeTimeout => exact rfl
    | proposal | valid | nil | round => trivial
  · intro v member type hash named
    refine always_write.mpr ⟨h.lock_kept v member type hash named, ?_⟩
    have le := sound.voted.blockNumber_le up member
    by_cases behind : v.1.blockNumber < c.next
    · exact .inl behind
    · obtain ⟨key, held, round⟩ := since v member type hash named (by omega)
      refine .inr ⟨key.round, ?_, round⟩
      have current : c.blockNumber = c.next := by omega
      rw [Tables.restoreLock_of_eq state_latest_write current]
      exact congrArg (Option.map _) held

end

section

variable (h : c.Ruled el signed)
include h

/-- One more vote of the loop. A precommit comes with the lock, and a prevote respects it. -/
theorem Ruled.sign (voted : c.Voted env) (up : c.running = true)
    {type : MessageType} {value : Option Bytes} {i : Nat} {indices : List Nat}
    (at_ : c.continuation = some (.votes type value (i :: indices))) :
    Ruled el signed { c with
      signedVotes := c.signedVotes ++ [(c.vote env type value i, c.stateStore.hash)]
      continuation := some (.signed (c.vote env type value i) indices) } := by
  have warrants := h.casting.of_at at_
  obtain ⟨reached, -⟩ := voted.voting.of_at at_
  -- Each rule is known of the votes before, and has to be shown of the one just signed.
  refine { h with
    verified := by simp, deciding := trivial, casting := warrants, precommit_backed := ?_,
    lock_kept := ?_, lock_since := ?_, prevote_locked := ?_ }
  · refine forall_mem_concat h.precommit_backed ?_
    rintro (rfl : type = .precommit) hash (rfl : value = some hash)
    exact warrants.2
  · refine forall_mem_concat h.lock_kept ?_
    rintro (rfl : type = .precommit) hash (rfl : value = some hash)
    exact reached.imp fun t known => known.2 c.current warrants.1
  · intro _
    refine forall_mem_concat (h.lock_since up) ?_
    rintro (rfl : type = .precommit) hash (rfl : value = some hash) _
    exact ⟨c.current, warrants.1, Nat.le_refl _⟩
  · refine forall_mem_concat (fun v hv => forall_mem_concat (h.prevote_locked v hv) ?_)
      (forall_mem_concat (fun w hw => ?_) ?_)
    · rintro typeV (rfl : type = .prevote) hash named hash' (rfl : value = some hash') number round
      obtain ⟨key, held, le⟩ := h.lock_since up v hv typeV hash named number
      exact ⟨key.round, le, warrants key held⟩
    · -- A prevote of a later round would be beyond the position of the node.
      rintro _ _ hash _ hash' _ (number : c.blockNumber = w.1.blockNumber)
        (round : c.round < w.1.round)
      exact absurd (voted.round_le up hw number.symm) (Nat.not_le.mpr round)
    · rintro (rfl : type = .precommit) different
      contradiction

/-- Messages and proposals are stored; no lock is lost. -/
theorem Ruled.lock_kept_write (recorded : c.Recorded) {r : Record}
    (notState : r.key ≠ .state) (le : r.blockNumber ≤ c.next) :
    ∀ v ∈ c.signedVotes, v.1.type = .precommit → ∀ hash ∈ v.1.blockHash,
      (c.storage.write r).Always fun t =>
        v.1.blockNumber < c.next ∨ ∃ l, t.restoreLock c.next = some l ∧ v.1.round ≤ l := by
  intro v member type hash named
  have kept := h.lock_kept v member type hash named
  refine always_write.mpr ⟨kept, ?_⟩
  rw [recorded.covers.restoreLock_write notState le]
  exact kept.latest

theorem Ruled.writeMessage (recorded : c.Recorded) {m : Message}
    (le : m.blockNumber ≤ c.next) (genuine : el.Genuine signed m) :
    Ruled el signed { c with storage := c.storage.write (.message m) } :=
  { h with
    stored := by
      refine always_write.mpr ⟨h.stored, ?_⟩
      intro x stored
      rcases eq_or_holds_of_latest_write (x := .message x) stored with new | ⟨-, old, -⟩
      · obtain rfl := Record.message.inj new
        exact genuine
      · exact h.stored.latest x old
    lock_kept := h.lock_kept_write recorded (Record.key_message_ne _) le }

theorem Ruled.writeProposal (recorded : c.Recorded) (le : p.blockHeader.number ≤ c.next) :
    Ruled el signed { c with storage := c.storage.write (.proposal p) } :=
  { h with
    stored := by
      refine always_write.mpr ⟨h.stored, ?_⟩
      intro x stored
      rcases eq_or_holds_of_latest_write (x := .message x) stored with new | ⟨-, old, -⟩
      · contradiction
      · exact h.stored.latest x old
    lock_kept := h.lock_kept_write recorded (Record.key_proposal_ne _) le }

theorem Ruled.addMessage {m : Message}
    (added : c.roundStates.addMessage m = some repo) (genuine : el.Genuine signed m) :
    Ruled el signed { c with roundStates := repo } := by
  have grows := grows_of_addMessage added
  obtain ⟨-, -, -, unchanged, prevotes, precommits⟩ := addMessage_eq_some added
  refine { h with prevotes := ?_, precommits := ?_, verified := ?_, result := ?_ }
  · intro key x member
    rcases prevotes key x member with old | rfl
    · exact h.prevotes key x old
    · exact genuine
  · intro key x member
    rcases precommits key x member with old | rfl
    · exact h.precommits key x old
    · exact genuine
  · exact fun key at_ => (h.verified key at_).grow (grows key)
  · exact fun key known => (h.result key ((unchanged key).2 ▸ known)).grow (grows key)

theorem Ruled.addProposal (added : c.roundStates.addProposal p = some repo) :
    Ruled el signed { c with roundStates := repo } := by
  have grows := grows_of_addProposal added
  obtain ⟨-, -, -, unchanged⟩ := addProposal_eq_some added
  refine { h with prevotes := ?_, precommits := ?_, verified := ?_, result := ?_ }
  · exact fun key m member => h.prevotes key m ((unchanged key).1 ▸ member)
  · exact fun key m member => h.precommits key m ((unchanged key).2.1 ▸ member)
  · exact fun key at_ => (h.verified key at_).grow (grows key)
  · exact fun key known => (h.result key ((unchanged key).2.2 ▸ known)).grow (grows key)

end

/-- The lock proof of a proposal verified. -/
theorem lockProven_of_verified (same : env.roundValidators = el.roundValidators) {reply : Reply}
    {key : RoundKey} (receives : c.Receives el check signed (.resume reply))
    (at_ : c.continuation = some (.verifyLockProof key))
    (held : (c.roundStates key).proposal = some p)
    (verified : hasValidLockProof (fun _ _ => reply.value)
      (env.roundValidators p.blockHeader.number) p = true) : c.LockProven el signed key := by
  refine ⟨p, held, ?_⟩
  intro validRound valid
  unfold Receives Replies at receives
  simp only [at_] at receives
  unfold hasValidLockProof at verified
  split at verified
  · next absent _ => simp [absent] at valid
  · contradiction
  · contradiction
  · next validRound' proof valid' given =>
      obtain rfl := some.inj (valid.symm.trans valid')
      split at verified
      · contradiction
      · obtain ⟨answer, unforged⟩ := receives p held validRound valid proof given
        rw [same] at verified
        have accepted := (Aggregator.verify_eq_true.mp verified).2.2
        exact Electorate.backed_of_verify verified (unforged (answer.symm.trans accepted))

/-- Setting a part of one round state that is neither a proposal nor a vote. -/
theorem Ruled.setRoundState (h : c.Ruled el signed) {key : RoundKey} {rs : RoundState key}
    {k : Option Continuation} (records : (c.roundStates key).SameRecords rs)
    (verified : ∀ other, k = some (.process other) → c.LockProven el signed other)
    (result : rs.processorResult = some true → c.LockProven el signed key)
    (casting : Casting el signed { c with continuation := k })
    (deciding : Deciding el signed { c with continuation := k }) :
    Ruled el signed { c with roundStates := c.roundStates.set key rs, continuation := k } := by
  have same := sameRecords_set records
  have proven {other : RoundKey} (old : c.LockProven el signed other) :
      LockProven el signed { c with roundStates := c.roundStates.set key rs, continuation := k }
        other := by
    obtain ⟨p, held, backed⟩ := old
    exact ⟨p, (same other).proposal.trans held, backed⟩
  refine { h with
    prevotes := ?_, precommits := ?_, verified := fun other at_ => proven (verified other at_),
    result := ?_, deciding := deciding, casting := casting }
  · exact fun other m member => h.prevotes other m ((same other).prevotes ▸ member)
  · exact fun other m member => h.precommits other m ((same other).precommits ▸ member)
  · intro other (known : (c.roundStates.set key rs other).processorResult = some true)
    by_cases here : other = key
    · subst here
      rw [set_self] at known
      exact proven (result known)
    · rw [set_of_ne _ _ here] at known
      exact proven (h.result other known)

theorem Ruled.move (same : env.roundValidators = el.roundValidators)
    (registered : ∀ blockNumber, ∀ i ∈ env.registered blockNumber,
      i < el.roundValidators blockNumber)
    (h : c.Ruled el signed) (sound : c.Sound env) (locks : c.Locks env)
    (published : c.Published signed) (receives : c.Receives el check signed e)
    (up : c.running = true) (move : Move env c e c') : c'.Ruled el signed := by
  have heights := sound.heights
  have recorded := sound.recorded
  cases move with
  | leave | throw | deserialize | storeCommit | build =>
    exact { h with verified := by simp, deciding := trivial, casting := trivial }
  | begin disposed =>
    exact { h with
      verified := by cases disposed <;> simp
      deciding := by cases disposed <;> trivial
      casting := by cases disposed <;> trivial }
  | deserialized =>
    exact h.setRoundState (sameRecords_deserializePayload _) (by simp) (h.result _) trivial trivial
  | lockProofVerified at_ held verified =>
    have proven := lockProven_of_verified same receives at_ held verified
    refine { h with verified := ?_, deciding := trivial, casting := trivial }
    intro key at_'
    obtain rfl := Continuation.process.inj (some.inj at_')
    exact proven
  | failed =>
    exact h.setRoundState (sameRecords_setProcessorResult _ _) (by simp)
      (by simp [setProcessorResult]) trivial trivial
  | processed at_ =>
    exact h.setRoundState (sameRecords_setProcessorResult _ _) (by simp)
      (fun _ => h.verified _ at_) trivial trivial
  | persist _ shift => exact h.persist same sound up shift
  | persisted at_ | voteSaved at_ =>
    have casting := h.casting.of_at at_
    exact { h with verified := by simp, deciding := trivial, casting := casting }
  | cast at_ casts =>
    have warrants := h.warrants_of_casts same sound.voted locks up at_ casts
    exact { h with verified := by simp, deciding := trivial, casting := warrants }
  | sign at_ => exact h.sign sound.voted up at_
  | @saveVote _ m indices at_ =>
    have casting := h.casting.of_at at_
    obtain ⟨v, member, rfl⟩ := List.mem_map.mp (sound.voted.signing.of_at at_).1
    have genuine : el.Genuine signed v.1 :=
      ⟨registered _ _ (sound.voted.registered v member), fun hash named =>
        .inr (published v member hash named)⟩
    exact { h.writeMessage recorded (heights.signed_le up at_) genuine with
      verified := by simp, deciding := trivial, casting := casting }
  | @processBlock commit =>
    refine { h with verified := by simp, deciding := ?_, casting := trivial }
    obtain ⟨valid, unforged⟩ := receives
    exact ⟨commit.proof.round, Electorate.backed_of_verify valid
      (unforged (Aggregator.verify_eq_true.mp valid).2.2)⟩
  | decideCommit at_ | lockCommit at_ =>
    have deciding := h.deciding.of_at at_
    exact { h with verified := by simp, deciding := deciding, casting := trivial }
  | @decide _ key block _ _ majority held =>
    refine { h with verified := by simp, deciding := ?_, casting := trivial }
    obtain ⟨p, present, parsed, enough⟩ := hasMajorityPrecommits_iff.mp majority
    have block_eq : block = p.blockHeader := by
      simpa [getBlock, parsed, present, eq_comm] using held
    have number : block.number = key.blockNumber := number_of_getBlock held
    rw [same] at enough
    refine ⟨key.round, ?_⟩
    have backed := Electorate.backed_of_count (h.precommits key) enough
    rw [← block_eq] at backed
    obtain ⟨blockNumber, round⟩ := key
    obtain rfl : block.number = blockNumber := number
    exact backed
  | @commitUnit _ block at_ =>
    have known := heights.commitUnit_eq at_
    refine { h with
      verified := by simp, deciding := trivial, casting := trivial, committed := ?_,
      lock_kept := ?_ }
    · exact forall_mem_concat h.committed (h.deciding.of_at at_)
    · intro v member type hash named
      refine (h.lock_kept v member type hash named).imp fun t _ => .inl ?_
      have le := sound.voted.blockNumber_le up member
      change v.1.blockNumber < block.number + 1
      omega
  | advance disposed =>
    refine { h with
      prevotes := ?_, precommits := ?_, result := ?_,
      verified := by cases disposed <;> simp
      deciding := by cases disposed <;> trivial
      casting := by cases disposed <;> trivial
      lock_since := ?_ }
    · simp [empty, configure, Votes.empty]
    · simp [empty, configure, Votes.empty]
    · simp [empty, configure]
    · intro _ v member _ hash _ (number : v.1.blockNumber = c.blockNumber + 1)
      have le := sound.voted.blockNumber_le up member
      omega
  | addMessage member added =>
    exact { (h.addMessage added receives).writeMessage { recorded with }
      (heights.message_le up member) receives with }
  | addProposal member added =>
    exact { (h.addProposal added).writeProposal { recorded with } (heights.proposal_le up member)
      with }
  | saveProposal found resolved =>
    exact { h.writeProposal recorded
      (heights.resolved_le _ (mem_of_findBuild found).1 _ resolved) with }
  | flush flushed =>
    exact { h with
      stored := h.stored.flush flushed
      lock_kept := fun v member type hash named =>
        (h.lock_kept v member type hash named).flush flushed }
  | crash =>
    exact ruled_off (h.stored.crash _) h.committed h.precommit_backed
      (fun v member type hash named => (h.lock_kept v member type hash named).crash _)
      h.prevote_locked
  | _ => exact { h with }

/-- A restart comes back with genuine votes, and with the lock of every precommit. -/
theorem Ruled.restart (h : c.Ruled el signed) (recorded : c.Recorded) {parses : Bool}
    {state : Restored}
    (booted : bootstrap env.roundValidators (fun _ => parses) c.database
      (some c.storage.tables) = .ok state) : (c.restored state).Ruled el signed := by
  have storage := recorded.storage_restored booted
  have loads := loads_of_bootstrap booted
  have number : state.blockNumber = c.next :=
    bootstrap_some_blockNumber booted
  refine { h with
    stored := ?_, prevotes := ?_, precommits := ?_, verified := by simp [restored], result := ?_,
    deciding := trivial, casting := trivial, lock_kept := ?_, lock_since := ?_ }
  · rw [storage]
    exact h.stored
  · exact fun key m member => h.stored.here m (loads.prevote_stored key m member).1
  · exact fun key m member => h.stored.here m (loads.precommit_stored key m member).1
  · intro key known
    exact absurd ((loads.unprocessed key).symm.trans known) (by simp)
  · rw [storage]
    exact h.lock_kept
  · intro _ v member type hash named current
    rcases (h.lock_kept v member type hash named).here with behind | ⟨l, kept, le⟩
    · exact absurd (current.trans number) (Nat.ne_of_lt behind)
    · have lock := bootstrap_lockedValue booted
      rw [show c.storage.tables.restoreLock (c.database.number + 1) = some l from kept] at lock
      obtain ⟨key, held, rfl⟩ := map_eq_some_iff.mp lock
      exact ⟨key, held, le⟩

end Core

end Mainsail
