import Mainsail.Consensus.Recorded

/-!
# No double vote

A handler moves the position of the node forward, makes the new position durable, and only
then lets its validators vote. So a vote is never signed at a position that a crash could
take back, and since votes are cast only on entering a step, all votes of one step and
position come from one loop and name the same value.

The invariant is about every content that a crash can leave in the store, not only about
the durable one: the position of a restart is at or after every vote signed so far.
-/

namespace Mainsail

open Position List

/-- The votes that a handler is about to cast. -/
def Next.votes : Next → Option MessageType
  | .prevoteProposal _ => some .prevote
  | .prevoteLocked _ => some .prevote
  | .prevote _ => some .prevote
  | .precommit _ => some .precommit
  | .beginRound => none
  | .done => none

theorem MessageType.step_injective {a b : MessageType} (h : a.step = b.step) : a = b := by
  cases a <;> cases b <;> simp_all

variable {next : Next} {type : MessageType} {value : Option Bytes} {m m' : Message} {round : Nat}
variable {locked valid : Option RoundKey}

theorem Casts.votes {env : Env} {c : Core}
    (h : Casts env c next type value) : next.votes = some type := by
  cases h <;> rfl

/-- Two votes at one position are of the same type, block number and round. -/
theorem Message.position_eq_iff : m.position = m'.position ↔
    m.type = m'.type ∧ m.blockNumber = m'.blockNumber ∧ m.round = m'.round := by
  simp only [position, Position.mk.injEq]
  constructor
  · rintro ⟨number, round, step⟩
    exact ⟨MessageType.step_injective step, number, round⟩
  · rintro ⟨type, number, round⟩
    exact ⟨number, round, congrArg MessageType.step type⟩

namespace Core

variable {env : Env} {c c' : Core} {e : Event}

/-- A restart from this content comes back with this locked round or a later one. -/
def Locked (c : Core) (round : Nat) (t : Tables) : Prop :=
  c.blockNumber < c.next ∨ ∃ l, t.restoreLock c.next = some l ∧ round ≤ l

/-- A restart from this content comes back to the position and the lock of the node, or to
later ones. -/
def Reached (c : Core) (t : Tables) : Prop :=
  c.position ≤ t.restorePosition c.next ∧ ∀ key, c.lockedValue = some key → c.Locked key.round t

/-- What the loop over the registered validators knows of those it lets vote. -/
def Signing (env : Env) (c : Core) : Prop :=
  match c.continuation with
  | some (.votes _ _ indices) => ∀ i ∈ indices, i ∈ env.registered c.blockNumber
  | some (.signed m indices) => m ∈ c.signedVotes.map (·.1) ∧
      ∀ i ∈ indices, i ∈ env.registered c.blockNumber
  | some (.saved _ _ indices) => ∀ i ∈ indices, i ∈ env.registered c.blockNumber
  | _ => True

variable {continuation : Continuation} {s : Service}

theorem Signing.of_at {env : Env} {c : Core} (h : c.Signing env)
    (at_ : c.continuation = some continuation) :
    Signing env { c with continuation := some continuation } := by
  rw [← at_]
  exact h

/-- Votes are due at this position, and none has been signed there. -/
def Entitled (c : Core) (next : Next) : Prop :=
  ∀ type, next.votes = some type → type.step = c.step ∧
    ∀ v ∈ c.signedVotes, v.1.position ≠ c.position

/-- All votes signed at this position name this value, under the same previous block. -/
def Holds (c : Core) (value : Option Bytes) : Prop :=
  ∀ v ∈ c.signedVotes, v.1.position = c.position → v.1.blockHash = value ∧ v.2 = c.stateStore.hash

/-- What a handler knows on its way from a state record to the last of its votes. -/
def Voting (c : Core) : Prop :=
  match c.continuation with
  | some (.persisted ticket next) =>
    ticket ≤ c.storage.issued ∧ c.storage.After c.Reached ticket ∧ c.Entitled next
  | some (.next next) => c.storage.Always c.Reached ∧ c.Entitled next
  | some (.votes type value _) => c.storage.Always c.Reached ∧ type.step = c.step ∧ c.Holds value
  | some (.signed m _) =>
    c.storage.Always c.Reached ∧ m.type.step = c.step ∧ c.Holds m.blockHash
  | some (.saved _ m _) =>
    c.storage.Always c.Reached ∧ m.type.step = c.step ∧ c.Holds m.blockHash
  | _ => True

theorem Voting.of_at {c : Core} (h : c.Voting) (at_ : c.continuation = some continuation) :
    Voting { c with continuation := some continuation } := by
  rw [← at_]
  exact h

structure Voted (env : Env) (c : Core) : Prop where
  votes_le : c.running = true → ∀ v ∈ c.signedVotes, v.1.position ≤ c.position
  votes_safe : ∀ v ∈ c.signedVotes, c.Safe v.1.position
  unanimous : ∀ v ∈ c.signedVotes, ∀ w ∈ c.signedVotes, v.1.position = w.1.position →
    v.1.blockHash = w.1.blockHash ∧ v.2 = w.2
  signature : ∀ v ∈ c.signedVotes, v.1.signature = env.sign { v.1 with signature := [] } v.2
  registered : ∀ v ∈ c.signedVotes, v.1.validatorIndex ∈ env.registered v.1.blockNumber
  signing : c.Signing env
  voting : c.Voting

/-- The facts of a voting handler only ask of the store what a longer queue, or a shorter one
with the same latest content, still gives. -/
theorem Voting.storage (h : c.Voting) (issued : c.storage.issued ≤ s.issued)
    (always : c.storage.Always c.Reached → s.Always c.Reached)
    (after : ∀ ticket ≤ c.storage.issued, c.storage.After c.Reached ticket →
      s.After c.Reached ticket) : Voting { c with storage := s } := by
  unfold Voting at h ⊢
  split at h
  · next ticket next at_ =>
      simp only [at_]
      exact ⟨Nat.le_trans h.1 issued, after ticket h.1 h.2.1, h.2.2⟩
  · next next at_ =>
      simp only [at_]
      exact ⟨always h.1, h.2⟩
  · next type value indices at_ =>
      simp only [at_]
      exact ⟨always h.1, h.2⟩
  · next m indices at_ =>
      simp only [at_]
      exact ⟨always h.1, h.2⟩
  · next ticket m indices at_ =>
      simp only [at_]
      exact ⟨always h.1, h.2⟩
  · trivial

theorem Voting.flush (h : c.Voting) (flushed : c.storage.flush = some s) :
    Voting { c with storage := s } :=
  h.storage (Nat.le_of_eq (Service.issued_flush flushed).symm) (·.flush flushed)
    fun _ _ after => after.flush flushed

/-- A proposal or a vote is written beside a voting handler. -/
theorem Voting.write (h : c.Voting) (covers : c.storage.Covers) {r : Record}
    (notState : r.key ≠ .state) (le : r.blockNumber ≤ c.next) :
    Voting { c with storage := c.storage.write r } := by
  have latest (before : c.Reached c.storage.latest) : c.Reached (c.storage.write r).latest := by
    simp only [Reached, Locked, covers.restorePosition_write notState le,
      covers.restoreLock_write notState le]
    exact before
  refine h.storage (by rw [Service.issued_write]; omega) ?_ ?_
  · exact fun always => Service.always_write.mpr ⟨always, latest always.latest⟩
  · exact fun ticket known after => after.write known (latest (WriteQueue.After.settle after))

theorem voted_off {database : BlockHeader} {tables : Tables} {votes : List (Message × Bytes)}
    {proposals : List Proposal} {blocks : List BlockHeader}
    (safe : ∀ v ∈ votes, v.1.position ≤ tables.restorePosition (database.number + 1))
    (unanimous : ∀ v ∈ votes, ∀ w ∈ votes, v.1.position = w.1.position →
      v.1.blockHash = w.1.blockHash ∧ v.2 = w.2)
    (signature : ∀ v ∈ votes, v.1.signature = env.sign { v.1 with signature := [] } v.2)
    (registered : ∀ v ∈ votes, v.1.validatorIndex ∈ env.registered v.1.blockNumber) :
    (off database tables votes proposals blocks).Voted env where
  votes_le := by simp [off]
  votes_safe := safe
  unanimous := unanimous
  signature := signature
  registered := registered
  signing := trivial
  voting := trivial

end Core

/-- Where votes follow, a persisted change moves the position strictly forward. -/
theorem Shift.entitled {env : Env} {c : Core} {step : Step}
    (h : Shift env c round step locked valid next) (votes : next.votes = some type) :
    type.step = step ∧ ¬ (⟨c.blockNumber, round, step⟩ : Position) ≤ c.position := by
  cases h <;> simp_all [le_def, Core.position, Next.votes] <;> subst votes <;> rfl

namespace Core

variable {env : Env} {c c' : Core} {e : Event}

/-- The state record that a handler persists brings every restart from then on at least to
the position it has moved to. -/
theorem Voted.entitled (h : c.Voted env) (heights : c.Heights) (up : c.running = true) {step : Step}
    (shift : Shift env c round step locked valid next) :
    Voting ({ c with
      round := round
      step := step
      lockedValue := locked
      validValue := valid }.persistState next) := by
  have reached := heights.reached up round step (locked.map (·.round)) (valid.map (·.round))
  refine ⟨Nat.le_refl _, Service.after_issued_write.mpr ⟨reached, ?_⟩, ?_⟩
  · rintro key (held : locked = some key)
    rcases Nat.lt_or_eq_of_le (heights.blockNumber_le up) with behind | same
    · exact .inl behind
    · refine .inr ⟨key.round, ?_, Nat.le_refl _⟩
      rw [Tables.restoreLock_of_eq Service.state_latest_write same]
      exact congrArg (Option.map _) held
  intro type votes
  obtain ⟨at_, strictly⟩ := shift.entitled votes
  refine ⟨at_, ?_⟩
  intro v member (same : v.1.position = ⟨c.blockNumber, round, step⟩)
  exact strictly (same ▸ h.votes_le up v member)

variable {v : Message × Bytes}

section

variable (h : c.Voted env)
include h

theorem Voted.blockNumber_le (up : c.running = true)
    (member : v ∈ c.signedVotes) : v.1.blockNumber ≤ c.blockNumber := by
  have le := h.votes_le up v member
  simp only [Message.position, position, le_def] at le
  omega

theorem Voted.round_le (up : c.running = true) (member : v ∈ c.signedVotes)
    (number : v.1.blockNumber = c.blockNumber) : v.1.round ≤ c.round := by
  have le := h.votes_le up v member
  simp only [Message.position, position, le_def] at le
  omega

/-- One more vote of the loop: it agrees with those signed at this position before. -/
theorem Voted.sign {i : Nat}
    {indices : List Nat} (at_ : c.continuation = some (.votes type value (i :: indices))) :
    Voted env { c with
      signedVotes := c.signedVotes ++ [(c.vote env type value i, c.stateStore.hash)]
      continuation := some (.signed (c.vote env type value i) indices) } := by
  obtain ⟨reached, step, holds⟩ := h.voting.of_at at_
  have signing := h.signing.of_at at_
  have here : (c.vote env type value i).position = c.position := by
    simp only [vote, Message.position, position, step]
  have agrees : ∀ v ∈ c.signedVotes ++ [(c.vote env type value i, c.stateStore.hash)],
      v.1.position = c.position → v.1.blockHash = value ∧ v.2 = c.stateStore.hash :=
    forall_mem_concat holds fun _ => ⟨rfl, rfl⟩
  constructor
  · intro up
    refine forall_mem_concat (h.votes_le up) ?_
    exact here ▸ le_refl _
  · refine forall_mem_concat h.votes_safe ?_
    exact here ▸ reached.imp fun t known => known.1
  · intro v hv w hw same
    rcases mem_append.mp hv with oldV | newV
    · rcases mem_append.mp hw with oldW | newW
      · exact h.unanimous v oldV w oldW same
      · obtain rfl := mem_singleton.mp newW
        exact agrees v hv (same.trans here)
    · obtain rfl := mem_singleton.mp newV
      obtain ⟨hash, context⟩ := agrees w hw (same.symm.trans here)
      exact ⟨hash.symm, context.symm⟩
  · exact forall_mem_concat h.signature rfl
  · exact forall_mem_concat h.registered (signing i (mem_cons_self ..))
  · exact ⟨by simp, fun j member => signing j (mem_cons_of_mem _ member)⟩
  · exact ⟨reached, step, agrees⟩

theorem Voted.voting_move (heights : c.Heights) (recorded : c.Recorded)
    (up : c.running = true) (move : Move env c e c') : c'.Voting := by
  have covers := recorded.covers
  cases move with
  | stay | unlockCommit | processMessage | receiveProposal | dropIncoming | forge | built | wait |
    stale | dropProposal | handOver => exact h.voting
  | begin disposed | advance disposed => cases disposed <;> trivial
  | persist _ shift => exact h.entitled heights up shift
  | persisted at_ durable =>
    obtain ⟨-, reached, entitled⟩ := h.voting.of_at at_
    exact ⟨reached.always durable, entitled⟩
  | cast at_ casts =>
    obtain ⟨reached, entitled⟩ := h.voting.of_at at_
    obtain ⟨step, none⟩ := entitled _ casts.votes
    refine ⟨reached, step, ?_⟩
    intro v member same
    exact absurd same (none v member)
  | sign at_ => exact (h.sign at_).voting
  | saveVote at_ =>
    have written := h.voting.write covers (r := .message _) (Record.key_message_ne _)
      (heights.signed_le up at_)
    have signed := written.of_at at_
    exact signed
  | voteSaved at_ =>
    have saved := h.voting.of_at at_
    exact saved
  | addMessage member =>
    exact h.voting.write covers (r := .message _) (Record.key_message_ne _)
      (heights.message_le up member)
  | addProposal member =>
    exact h.voting.write covers (r := .proposal _) (Record.key_proposal_ne _)
      (heights.proposal_le up member)
  | saveProposal found resolved =>
    exact h.voting.write covers (r := .proposal _) (Record.key_proposal_ne _)
      (heights.resolved_le _ (mem_of_findBuild found).1 _ resolved)
  | flush flushed => exact h.voting.flush flushed
  | _ => trivial

end

theorem Signing.move (h : c.Signing env) (move : Move env c e c') : c'.Signing env := by
  cases move with
  | stay | unlockCommit | processMessage | receiveProposal | dropIncoming | forge | built | wait |
    stale | dropProposal | handOver | addMessage | addProposal | saveProposal | flush => exact h
  | begin disposed | advance disposed => cases disposed <;> trivial
  | cast => exact fun i member => mem_of_mem_filter member
  | @sign _ type value i indices at_ =>
    have signing := h.of_at at_
    exact ⟨by simp, fun j member => signing j (mem_cons_of_mem _ member)⟩
  | saveVote at_ => exact (h.of_at at_).2
  | voteSaved at_ =>
    have signing := h.of_at at_
    exact signing
  | _ => trivial

/-- Apart from the loop itself no move signs a vote, so votes stay behind the position and safe. -/
theorem Voted.move (h : c.Voted env) (heights : c.Heights) (recorded : c.Recorded)
    (up : c.running = true) (move : Move env c e c') : c'.Voted env := by
  have voting := h.voting_move heights recorded up move
  have signing := h.signing.move move
  have safe : c'.running = true → ∀ v ∈ c.signedVotes, c'.Safe v.1.position := fun up' v member =>
    (h.votes_safe v member).move (h.votes_le up v member) heights recorded up move up'
  cases move with
  | sign at_ => exact h.sign at_
  | crash =>
    exact voted_off (fun v member => (h.votes_safe v member).crash _) h.unanimous h.signature
      h.registered
  | persist _ shift =>
    exact { h with
      votes_le := fun _ v member => le_trans (h.votes_le up v member) shift.position_le
      votes_safe := safe up
      signing := signing
      voting := voting }
  | advance =>
    exact { h with
      votes_le := fun _ v member =>
        le_trans (h.votes_le up v member) (.inl (Nat.lt_succ_self _))
      votes_safe := safe up
      signing := signing
      voting := voting }
  | _ => exact { h with votes_safe := safe up, signing := signing, voting := voting }

theorem Voted.restart (h : c.Voted env) (recorded : c.Recorded) {parses : Bool}
    {state : Bootstrapper.Restored}
    (booted : Bootstrapper.bootstrap env.roundValidators (fun _ => parses) c.database
      (some c.storage.tables) = .ok state) : (c.restored state).Voted env := by
  have kept := recorded.storage_restored booted
  refine { h with votes_le := ?_, votes_safe := ?_, signing := trivial, voting := trivial }
  · intro _ v member
    have := (h.votes_safe v member).here
    rwa [next, ← Bootstrapper.bootstrap_position booted] at this
  · intro v member
    unfold Safe
    rw [kept]
    exact h.votes_safe v member

/-- Votes of one type, block number, round and validator are the same vote. -/
theorem Voted.unique (h : c.Voted env) (first : m ∈ c.signedVotes.map (·.1))
    (second : m' ∈ c.signedVotes.map (·.1)) (type : m.type = m'.type)
    (blockNumber : m.blockNumber = m'.blockNumber) (round : m.round = m'.round)
    (validatorIndex : m.validatorIndex = m'.validatorIndex) : m = m' := by
  obtain ⟨⟨m, context⟩, mem, rfl⟩ := mem_map.mp first
  obtain ⟨⟨m', context'⟩, mem', rfl⟩ := mem_map.mp second
  obtain ⟨hash, same⟩ := h.unanimous _ mem _ mem'
    (Message.position_eq_iff.mpr ⟨type, blockNumber, round⟩)
  have signed := h.signature _ mem
  have signed' := h.signature _ mem'
  cases m
  cases m'
  simp_all

/-- The invariants that hold together in every state of a node. -/
structure Sound (env : Env) (c : Core) : Prop where
  down : c.Down
  heights : c.Heights
  recorded : c.Recorded
  voted : c.Voted env

theorem Sound.move (h : c.Sound env) (up : c.running = true) (move : Move env c e c') :
    c'.Sound env where
  down := down_of_step (.move up move)
  heights := h.heights.move up move
  recorded := h.recorded.move h.heights up move
  voted := h.voted.move h.heights h.recorded up move

end Core

/-- A restart finds the consensus store readable. -/
def Event.Readable : Event → Prop
  | .restart readable _ => readable = true
  | _ => True

instance (e : Event) : Decidable e.Readable := by
  unfold Event.Readable
  split <;> infer_instance

namespace Core

variable {env : Env} {c c' : Core} {e : Event}

theorem sound_start (database : BlockHeader) : (Node.start database).Sound env where
  down := fun _ => rfl
  heights := heights_off ..
  recorded := recorded_off (by simp [Tables.empty])
  voted := voted_off (by simp) (by simp) (by simp) (by simp)

theorem Sound.step (h : c.Sound env) (readable : e.Readable) (step : CoreStep env c e c') :
    c'.Sound env := by
  cases step with
  | move up move => exact h.move up move
  | restart off same booted restored =>
    subst same restored
    obtain rfl := readable
    have step := CoreStep.restart off rfl booted rfl
    exact {
      down := down_of_step step
      heights := h.heights.step h.down step
      recorded := h.recorded.restored _
      voted := h.voted.restart h.recorded booted }

end Core

namespace Node

variable {env : Env} {database : BlockHeader} {n : Node}

/-- A run from an empty consensus store, with any number of crashes and restarts. -/
abbrev Runs (env : Env) (ok : Node → Event → Prop) (database : BlockHeader) : Node → Prop :=
  Transition.Reach (Node.transition env) ok (Node.start database)

theorem sound_of_runs {ok : Node → Event → Prop} (readable : ∀ n e, ok n e → e.Readable)
    (run : Runs env ok database n) : n.Sound env :=
  run.invariant (P := fun n => n.Sound env) (Core.sound_start database)
    fun n e _ sound guard taken => sound.step (readable n e guard) (transition_step taken)

/-- A node does not sign two different votes of one type for the same validator, block
number and round, however often it crashes and restarts in between. -/
theorem signedVotes_unique (run : Runs env (fun _ e => e.Readable) database n)
    {m m' : Message} {context context' : Bytes}
    (first : (m, context) ∈ n.signedVotes) (second : (m', context') ∈ n.signedVotes)
    (type : m.type = m'.type) (blockNumber : m.blockNumber = m'.blockNumber)
    (round : m.round = m'.round) (validatorIndex : m.validatorIndex = m'.validatorIndex) :
    m = m' := by
  have voted := (sound_of_runs (fun _ _ readable => readable) run).voted
  exact voted.unique (mem_map_of_mem first) (mem_map_of_mem second) type blockNumber
    round validatorIndex

/-- One validator, registered on the node and proposer of every round. -/
def soloEnv : Env where
  roundValidators := fun _ => 1
  registered := fun _ => [0]
  proposerIndex := fun _ _ => 0
  tolerance := 0
  sign := fun _ _ => []

def genesisHeader : BlockHeader := ⟨0, [], 0⟩

/-- An awaited call that succeeds. -/
def succeeds : Event := .resume ⟨false, true, 0⟩

/-- The propose timeout, a crash after the prevote is signed and before it is stored, and
the prevote timeout after the restart. -/
def crashAfterPrevote : List Event :=
  [.restart true true, .abort, .onTimeoutPropose 1 0, .flush, succeeds, succeeds, succeeds,
    .crash 0, .restart true true, .abort, .onTimeoutPrevote 1 0, .flush, succeeds, succeeds,
    succeeds]

theorem signedVotes_unique_crashAfterPrevote :
    ∃ n, Runs soloEnv (fun _ e => e.Readable) genesisHeader n ∧
      n.signedVotes.map (·.1) = [⟨.prevote, 1, 0, none, 0, []⟩, ⟨.precommit, 1, 0, none, 0, []⟩] ∧
      ∀ m context, (m, context) ∈ n.signedVotes → m.type = .prevote → m.blockNumber = 1 →
        m.round = 0 → m.validatorIndex = 0 → m = ⟨.prevote, 1, 0, none, 0, []⟩ := by
  have evaluated : (Transition.run (Node.transition soloEnv) (Node.start genesisHeader)
      crashAfterPrevote).map (·.signedVotes) =
        some [(⟨.prevote, 1, 0, none, 0, []⟩, []), (⟨.precommit, 1, 0, none, 0, []⟩, [])] := by
    decide
  have guarded : Transition.Guarded (Node.transition soloEnv) (fun _ e => e.Readable)
      (Node.start genesisHeader) crashAfterPrevote := .of_forall fun _ => by decide
  obtain ⟨n, run, votes⟩ := Transition.Reach.exists_of_run evaluated guarded
  refine ⟨n, run, by rw [votes]; rfl, ?_⟩
  intro m context member type blockNumber round validatorIndex
  exact signedVotes_unique run member (by rw [votes]; exact mem_cons_self ..)
    type blockNumber round validatorIndex

end Node

end Mainsail
