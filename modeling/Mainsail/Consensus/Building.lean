import Mainsail.Consensus.Locks

/-!
# Proposals under construction

`#createProposal` fixes its position before the first `await`. A proposal that comes out of
a build is for that position as long as the block is forged on the block before it, which
`ForgesCurrent` asks of each call of `forgeBlock`: the call reads the state store, and not
the block number that was fixed.

A build is only started in a round that has just begun, and only once for each position,
because a position is entered once in the life of a process.
-/

namespace Mainsail

open Position List

/-- Where a round begins. -/
def RoundKey.start (key : RoundKey) : Position := ⟨key.blockNumber, key.round, .propose⟩

namespace Core

variable {env : Env} {c c' : Core} {e : Event}

/-- The block that is forged follows the last block of the state store exactly where it is
the block the build was started for. -/
def ForgesCurrent (c : Core) : Event → Prop
  | .forgeBlock id => ∀ b ∈ c.findBuild id, b.key.blockNumber = c.stateStore.number + 1
  | _ => True

instance (c : Core) (e : Event) : Decidable (c.ForgesCurrent e) := by
  unfold ForgesCurrent
  split <;> infer_instance

/-- The round has been entered, and whether to build a proposal for it is still to be decided. -/
def Beginning (c : Core) : Prop :=
  match c.continuation with
  | some (.persisted _ .beginRound) => True
  | some (.next .beginRound) => True
  | some .beginRound => True
  | some .roundStarted => True
  | _ => False

/-- What holds of the builds whatever the store does. -/
structure Underway (c : Core) : Prop where
  le : c.running = true → ∀ b ∈ c.builds, b.key.start ≤ c.position
  id_lt : ∀ b ∈ c.builds, b.id < c.nextBuild
  nodup : (c.builds.map (·.id)).Nodup
  valid_number : ∀ b ∈ c.builds, ∀ v, b.validValue = some v → v.2.number = b.key.blockNumber
  forging_number : ∀ b ∈ c.builds, ∀ k, b.stage = .forging k → k = b.key.blockNumber
  resolved_key : ∀ b ∈ c.builds, ∀ p, b.stage = .resolved (some p) → p.roundKey = b.key
  beginning : c.Beginning → ∀ b ∈ c.builds, b.key ≠ c.current

structure Building (c : Core) : Prop extends c.Underway where
  safe : ∀ b ∈ c.builds, c.Safe b.key.start
  live : ∀ id, c.proposalPromise = some id → ∀ b ∈ c.builds, b.id = id →
    b.key.blockNumber = c.blockNumber
  begun : c.continuation = some .beginRound ∨ c.continuation = some .roundStarted →
    c.Safe c.current.start

theorem underway_of_empty (builds : c.builds = []) : c.Underway := by
  constructor <;> simp [builds]

theorem building_off (database : BlockHeader) (tables : Tables) (votes : List (Message × Bytes))
    (proposals : List Proposal) (blocks : List BlockHeader) :
    (off database tables votes proposals blocks).Building where
  toUnderway := underway_of_empty rfl
  safe := by simp [off]
  live := by simp [off]
  begun := by simp [off]

variable {b : Build} {p : Proposal} {id : Nat}

/-- A proposal is for the position of its build. -/
theorem roundKey_of_propose {built : Node.Built} (h : Node.propose b built = some p)
    (valid : ∀ v, b.validValue = some v → v.2.number = b.key.blockNumber)
    (forging : ∀ k, b.stage = .forging k → k = b.key.blockNumber) : p.roundKey = b.key := by
  have number : p.blockHeader.number = b.key.blockNumber := by
    rcases number_of_propose h with ⟨stage, -⟩ | ⟨validRound, found⟩
    · exact forging _ stage
    · exact valid _ found
  have round : p.round = b.key.round := by
    unfold Node.propose at h
    split at h
    · cases h
      rfl
    · split at h
      · cases h
        rfl
      · contradiction
    · contradiction
  simp only [Proposal.roundKey, number, round]

theorem build_id : (c.build env).id = c.nextBuild := by
  unfold Core.build
  split
  · rfl
  · split <;> rfl

theorem build_key : (c.build env).key = c.current := by
  unfold Core.build
  split
  · rfl
  · split <;> rfl

/-- The proposal of the pending build is for the current block number. -/
theorem Building.number_of_live (h : c.Building)
    (found : c.findBuild id = some b) (resolved : b.stage = .resolved (some p))
    (pending : c.proposalPromise = some id) : p.blockHeader.number = c.blockNumber := by
  obtain ⟨member, same⟩ := mem_of_findBuild found
  have key := h.resolved_key b member p resolved
  have number : p.blockHeader.number = b.key.blockNumber := congrArg RoundKey.blockNumber key
  exact number.trans (h.live id pending b member same)

section

variable (h : c.Underway)
include h

/-- A build is known by its id. -/
theorem Underway.eq_of_id {b' : Build} (member : b ∈ c.builds)
    (member' : b' ∈ c.builds) (same : b.id = b'.id) : b = b' :=
  inj_on_of_nodup_map h.nodup member member' same

theorem Underway.setStage {b₀ : Build} {stage : BuildStage}
    (found : c.findBuild id = some b₀) (forging : ∀ k, stage = .forging k → k = b₀.key.blockNumber)
    (resolved : ∀ p, stage = .resolved (some p) → p.roundKey = b₀.key) :
    (c.setStage id stage).Underway := by
  obtain ⟨member₀, named₀⟩ := mem_of_findBuild found
  have ids : (c.setStage id stage).builds.map (·.id) = c.builds.map (·.id) := by
    simp only [Core.setStage, map_map]
    refine map_congr_left ?_
    intro b _
    simp only [Function.comp]
    split <;> rfl
  constructor
  · intro up b member
    obtain ⟨b', member', -, key, -⟩ := mem_setStage member
    rw [key]
    exact h.le up b' member'
  · intro b member
    obtain ⟨b', member', same, -⟩ := mem_setStage member
    rw [same]
    exact h.id_lt b' member'
  · rw [ids]
    exact h.nodup
  · intro b member v hv
    obtain ⟨b', member', -, key, -, valid, -⟩ := mem_setStage member
    rw [key]
    exact h.valid_number b' member' v (valid ▸ hv)
  · intro b member k hk
    obtain ⟨b', member', same, key, -, -, old | ⟨named, new⟩⟩ := mem_setStage member
    · rw [key]
      exact h.forging_number b' member' k (old ▸ hk)
    · obtain rfl := h.eq_of_id member₀ member' (named₀.trans (named.symm.trans same))
      rw [key]
      exact forging k (new ▸ hk)
  · intro b member p hp
    obtain ⟨b', member', same, key, -, -, old | ⟨named, new⟩⟩ := mem_setStage member
    · rw [key]
      exact h.resolved_key b' member' p (old ▸ hp)
    · obtain rfl := h.eq_of_id member₀ member' (named₀.trans (named.symm.trans same))
      rw [key]
      exact resolved p (new ▸ hp)
  · intro beginning b member
    obtain ⟨b', member', -, key, -⟩ := mem_setStage member
    rw [key]
    exact h.beginning beginning b' member'

/-- A round is entered that no build was started for. -/
theorem Underway.ne_of_lt (up : c.running = true) {key : RoundKey}
    (later : ¬ key.start ≤ c.position) (member : b ∈ c.builds) : b.key ≠ key := by
  rintro rfl
  exact later (h.le up b member)

/-- The build of a round that begins is the only one with its number. -/
theorem Underway.eq_build (member : b ∈ c.builds ++ [c.build env])
    (named : b.id = c.nextBuild) : b = c.build env := by
  rcases mem_append.mp member with before | started
  · exact absurd named (Nat.ne_of_lt (h.id_lt b before))
  · exact mem_singleton.mp started

theorem Underway.build (locks : c.Locks env) (up : c.running = true) :
    Underway { c with
      proposalPromise := some c.nextBuild
      builds := c.builds ++ [c.build env]
      nextBuild := c.nextBuild + 1
      continuation := none } := by
  have named := @build_id env c
  have key := @build_key env c
  -- Each fact is known of the builds before, and has to be shown of the one just started.
  constructor
  · intro _
    refine forall_mem_concat (h.le up) ?_
    rw [key]
    exact .inr ⟨rfl, .inr ⟨rfl, by simp [RoundKey.start]⟩⟩
  · refine forall_mem_concat (fun b member => Nat.lt_succ_of_lt (h.id_lt b member)) ?_
    simp [named]
  · simp only [map_append, map_cons, map_nil, named]
    refine nodup_append.mpr ⟨h.nodup, by simp, ?_⟩
    intro i member j last
    obtain ⟨b, before, rfl⟩ := mem_map.mp member
    obtain rfl := mem_singleton.mp last
    exact Nat.ne_of_lt (h.id_lt b before)
  · refine forall_mem_concat h.valid_number ?_
    intro v found
    obtain ⟨valid, held, known⟩ := valid_of_build found
    rw [key]
    exact (RoundState.number_of_getBlock known).trans (locks.valid up valid held).1
  · refine forall_mem_concat h.forging_number ?_
    intro k forging
    exact absurd forging (build_stage_ne_forging k)
  · refine forall_mem_concat h.resolved_key ?_
    intro p resolved
    exact absurd resolved (build_stage_ne_resolved p)
  · simp [Beginning]

/-- Moves that leave the builds alone. -/
theorem Underway.keep (up : c.running = true) (builds : c'.builds = c.builds)
    (next : c'.nextBuild = c.nextBuild) (forward : c.position ≤ c'.position)
    (beginning : c'.Beginning → ∀ b ∈ c.builds, b.key ≠ c'.current) : c'.Underway where
  le := by
    rw [builds]
    exact fun _ b member => le_trans (h.le up b member) forward
  id_lt := by
    rw [builds, next]
    exact h.id_lt
  nodup := builds ▸ h.nodup
  valid_number := builds ▸ h.valid_number
  forging_number := builds ▸ h.forging_number
  resolved_key := builds ▸ h.resolved_key
  beginning := builds ▸ beginning

theorem Underway.move (locks : c.Locks env) (up : c.running = true)
    (forges : c.ForgesCurrent e) (move : Move env c e c') : c'.Underway := by
  have stays := le_refl c.position
  cases move with
  | build at_ => exact h.build locks up
  | @forge id b found =>
    refine h.setStage found ?_ (by simp)
    intro k same
    obtain rfl := BuildStage.forging.inj same
    exact (forges b found).symm
  | @built _ id b built found =>
    refine h.setStage found (by simp) ?_
    intro p same
    obtain ⟨made, rfl, proposed⟩ := Option.bind_eq_some_iff.mp (BuildStage.resolved.inj same)
    have member := (mem_of_findBuild found).1
    exact roundKey_of_propose proposed (h.valid_number b member) (h.forging_number b member)
  | crash => exact underway_of_empty rfl
  | @begin _ disposed at_ =>
    have beginning : c.Beginning := by
      rcases at_ with at_ | at_ <;> simp [Beginning, at_]
    exact h.keep up rfl rfl stays fun _ => h.beginning beginning
  | @persist _ round step locked valid next _ shift =>
    refine h.keep up rfl rfl shift.position_le ?_
    intro beginning b member
    refine h.ne_of_lt up ?_ member
    cases shift with
    | round higher =>
      simp only [RoundKey.start, current, persistState, position, le_def]
      omega
    | _ => simp [Beginning, persistState] at beginning
  | @advance _ block disposed at_ =>
    refine h.keep up rfl rfl (.inl (Nat.lt_succ_self _)) ?_
    intro _ b member
    refine h.ne_of_lt up ?_ member
    simp only [RoundKey.start, current, position, le_def]
    omega
  | persisted at_ =>
    refine h.keep up rfl rfl stays ?_
    intro beginning
    refine h.beginning ?_
    revert beginning
    simp only [Beginning, at_]
    split <;> simp_all
  | stay | unlockCommit | processMessage | addMessage | receiveProposal | addProposal |
    dropIncoming | wait | stale | handOver | flush | dropProposal | saveProposal =>
      exact h.keep up rfl rfl stays h.beginning
  | _ => exact h.keep up rfl rfl stays (by simp [Beginning, setResult])

end

/-- A build after a move is one from before it, or the one that the move starts. -/
theorem mem_builds_of_move (move : Move env c e c') (member : b ∈ c'.builds) :
    (∃ b' ∈ c.builds, b.id = b'.id ∧ b.key = b'.key) ∨
      c.continuation = some .roundStarted ∧ b = c.build env := by
  have old (same : c'.builds = c.builds) : ∃ b' ∈ c.builds, b.id = b'.id ∧ b.key = b'.key :=
    ⟨b, same ▸ member, rfl, rfl⟩
  cases move with
  | build at_ =>
    rcases mem_append.mp member with before | started
    · exact .inl ⟨b, before, rfl, rfl⟩
    · exact .inr ⟨at_, mem_singleton.mp started⟩
  | forge | built =>
    obtain ⟨b', member', same, key, -⟩ := mem_setStage member
    exact .inl ⟨b', member', same, key⟩
  | crash => cases member
  | _ => exact .inl (old rfl)

theorem Building.move (h : c.Building) (sound : c.Sound env) (locks : c.Locks env)
    (up : c.running = true) (forges : c.ForgesCurrent e) (move : Move env c e c') :
    c'.Building := by
  have started : c.current.start ≤ c.position :=
    .inr ⟨rfl, .inr ⟨rfl, by simp [RoundKey.start]⟩⟩
  have begun : c'.running = true →
      c.continuation = some .beginRound ∨ c.continuation = some .roundStarted →
      c'.Safe c.current.start := fun up' at_ =>
    (h.begun at_).move started sound.heights sound.recorded up move up'
  refine ⟨h.toUnderway.move locks up forges move, fun b member => ?_, fun id pending b member named => ?_,
    ?_⟩
  · have up' : c'.running = true := by
      cases move with
      | crash => cases member
      | _ => exact up
    obtain ⟨b', member', -, key⟩ | ⟨at_, rfl⟩ := mem_builds_of_move move member
    · rw [key]
      exact (h.safe b' member').move (h.le up b' member') sound.heights sound.recorded up move up'
    · rw [build_key]
      exact begun up' (.inr at_)
  · cases move with
    | build =>
      cases pending
      rw [h.eq_build member named, build_key]
      rfl
    | forge | built =>
      obtain ⟨b', member', same, key, -⟩ := mem_setStage member
      rw [key]
      exact h.live id pending b' member' (same ▸ named)
    | crash | begin | advance | dropProposal | saveProposal => cases pending
    | _ => exact h.live id pending b member named
  · cases move with
    | @begin _ disposed at_ =>
      intro _
      rcases at_ with at_ | at_
      · exact h.begun (.inl at_)
      · have voting := sound.voted.voting
        unfold Voting at voting
        rw [at_] at voting
        exact voting.1.imp fun t reached => le_trans started reached.1
    | @advance _ block disposed at_ =>
      have known := sound.heights.committed_eq at_
      intro _
      refine sound.recorded.state_le.imp ?_
      intro t _
      change (⟨c.blockNumber + 1, 0, .propose⟩ : Position) ≤
        t.restorePosition (c.database.number + 1)
      rw [known.2.1, known.1]
      exact t.start_le_restorePosition _
    | crash => simp [crash, off]
    | stay | unlockCommit | processMessage | addMessage | receiveProposal | addProposal |
      dropIncoming | wait | stale | handOver | flush | dropProposal | saveProposal | forge | built =>
        exact begun up
    | _ => simp [persistState, setResult]

theorem building_restart (down : c.Down) (recorded : c.Recorded)
    (off : c.running = false) {parses : Bool} {state : Bootstrapper.Restored}
    (booted : Bootstrapper.bootstrap env.roundValidators (fun _ => parses) c.database
      (some c.storage.tables) = .ok state) : (c.restored state).Building := by
  have none : (c.restored state).builds = [] := by
    change c.builds = []
    rw [down off]
    rfl
  have position := Bootstrapper.bootstrap_position booted
  refine ⟨underway_of_empty none, by simp [none], by simp [none], fun _ => ?_⟩
  unfold Safe
  rw [recorded.storage_restored booted, down.storage off]
  change (⟨state.blockNumber, state.round, .propose⟩ : Position) ≤
    c.storage.tables.restorePosition (c.database.number + 1)
  rw [← position]
  exact .inr ⟨rfl, .inr ⟨rfl, by simp⟩⟩

end Core

end Mainsail
