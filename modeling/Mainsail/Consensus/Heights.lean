import Mainsail.Consensus.Move

/-!
# Block numbers of a node

A commit makes a block durable in the database, then moves the state store, then the
consensus. So the three never differ by more than one, and no record that the node writes,
or is about to write, lies beyond the block number after the last durable block. The last
fact is what keeps a write from clearing the state record of the block the node would
restart in.
-/

namespace Mainsail

open List Nat

/-- A log, or a list of what is under way, with one more entry. -/
theorem forall_mem_concat {α : Type} {P : α → Prop} {xs : List α} {x : α} (old : ∀ y ∈ xs, P y)
    (new : P x) : ∀ y ∈ xs ++ [x], P y :=
  forall_mem_append.mpr ⟨old, forall_mem_singleton.mpr new⟩

namespace Core

/-- What a handler that is about to save a vote, or to commit a block, knows of its block
number. -/
def Committing (c : Core) : Prop :=
  match c.continuation with
  | some (.signed m _) => m.blockNumber = c.blockNumber
  | some (.processBlock commit) => commit.block.number = c.blockNumber
  | some (.lockCommit block) => block.number = c.blockNumber
  | some (.commitUnit block) => block.number = c.blockNumber
  | some (.storeCommit block) => block.number = c.blockNumber ∧ c.database = block
  | some (.committed block) =>
    block.number = c.blockNumber ∧ c.database = block ∧ c.stateStore = block
  | _ => True

variable {c : Core}

variable {continuation : Continuation} {m : Message} {p : Proposal} {indices : List Nat}
variable {block : BlockHeader}

theorem Committing.of_at (h : c.Committing) (at_ : c.continuation = some continuation) :
    Committing { c with continuation := some continuation } := by
  rw [← at_]
  exact h

/-- A commit holds the commit lock, and from its first durable change on no processor is
under way. -/
def Drained (c : Core) : Prop :=
  match c.continuation with
  | some (.commitUnit _) => c.exclusive = true
  | some (.storeCommit _) => c.exclusive = true ∧ c.processing = []
  | some (.committed _) => c.exclusive = true ∧ c.processing = []
  | _ => True

theorem Drained.of_at (h : c.Drained) (at_ : c.continuation = some continuation) :
    Drained { c with continuation := some continuation } := by
  rw [← at_]
  exact h

/-- The block number the node restarts in. -/
def next (c : Core) : Nat := c.database.number + 1

/-- A process that is down has nothing in memory. -/
def Down (c : Core) : Prop :=
  c.running = false →
    c = off c.database c.storage.tables c.signedVotes c.handedProposals c.committedBlocks

theorem Down.storage (h : c.Down) (off : c.running = false) :
    c.storage = .initializeFrom c.storage.tables := by
  rw [h off]
  rfl

structure Heights (c : Core) : Prop where
  stateStore_le : c.stateStore.number ≤ c.database.number
  le_stateStore : c.running = true → c.blockNumber ≤ c.stateStore.number + 1
  le_blockNumber : c.running = true → c.database.number ≤ c.blockNumber
  committing : c.Committing
  drained : c.Drained
  message_eq : ∀ m, .message m ∈ c.processing → m.blockNumber = c.blockNumber
  proposal_eq : ∀ p, .proposal p ∈ c.processing → p.blockHeader.number = c.blockNumber
  valid_le : ∀ key, c.validValue = some key → key.blockNumber ≤ c.next
  valid_block_le : ∀ b ∈ c.builds, ∀ v, b.validValue = some v → v.2.number ≤ c.next
  forging_le : ∀ b ∈ c.builds, ∀ k, b.stage = .forging k → k ≤ c.next
  resolved_le : ∀ b ∈ c.builds, ∀ p, b.stage = .resolved (some p) → p.blockHeader.number ≤ c.next

section

variable (h : c.Heights)
include h

section

variable (up : c.running = true)
include up

theorem Heights.blockNumber_le : c.blockNumber ≤ c.next := by
  have := h.stateStore_le
  have := h.le_stateStore up
  unfold next
  omega

theorem Heights.message_le (member : .message m ∈ c.processing) : m.blockNumber ≤ c.next :=
  h.message_eq m member ▸ h.blockNumber_le up

theorem Heights.proposal_le (member : .proposal p ∈ c.processing) : p.blockHeader.number ≤ c.next :=
  h.proposal_eq p member ▸ h.blockNumber_le up

end

theorem Heights.signed_eq
    (at_ : c.continuation = some (.signed m indices)) : m.blockNumber = c.blockNumber :=
  h.committing.of_at at_

theorem Heights.signed_le (up : c.running = true)
    (at_ : c.continuation = some (.signed m indices)) : m.blockNumber ≤ c.next :=
  h.signed_eq at_ ▸ h.blockNumber_le up

theorem Heights.commitUnit_eq
    (at_ : c.continuation = some (.commitUnit block)) : block.number = c.blockNumber :=
  h.committing.of_at at_

theorem Heights.committed_eq (at_ : c.continuation = some (.committed block)) :
    block.number = c.blockNumber ∧ c.database = block ∧ c.stateStore = block :=
  h.committing.of_at at_

/-- A commit moves the database from the block before to its own, or leaves it where it is. -/
theorem Heights.next_le (up : c.running = true)
    (at_ : c.continuation = some (.commitUnit block)) : c.next ≤ block.number + 1 := by
  rw [h.commitUnit_eq at_]
  exact succ_le_succ (h.le_blockNumber up)

end

theorem heights_off (database : BlockHeader) (tables : Tables) (votes : List (Message × Bytes))
    (proposals : List Proposal) (blocks : List BlockHeader) :
    (off database tables votes proposals blocks).Heights where
  stateStore_le := le_refl _
  le_stateStore := by simp [off]
  le_blockNumber := by simp [off]
  committing := trivial
  drained := trivial
  message_eq := by simp [off]
  proposal_eq := by simp [off]
  valid_le := by simp [off]
  valid_block_le := by simp [off]
  forging_le := by simp [off]
  resolved_le := by simp [off]

end Core

theorem RoundState.number_of_getBlock {key : RoundKey} {rs : RoundState key} {block : BlockHeader}
    (h : rs.getBlock = some block) : block.number = key.blockNumber := by
  unfold getBlock at h
  split at h
  · obtain ⟨p, held, rfl⟩ := Option.map_eq_some_iff.mp h
    exact congrArg RoundKey.blockNumber (rs.proposal_routed p held)
  · contradiction

namespace Core

variable {env : Env} {c c' : Core} {e : Event}

/-- Only a crash takes the process down, and it leaves nothing in memory. -/
theorem down_of_step (step : CoreStep env c e c') : c'.Down := by
  intro off
  cases step with
  | move up move =>
    cases move with
    | crash => rfl
    | _ => exact absurd (up.symm.trans off) (by simp)
  | restart _ _ _ same =>
    subst same
    contradiction

variable {id : Nat} {b : Build} {stage : BuildStage} {calls : List Incoming} {x : Incoming}

theorem mem_of_findBuild (h : c.findBuild id = some b) : b ∈ c.builds ∧ b.id = id := by
  unfold findBuild at h
  exact ⟨mem_of_find?_eq_some h, by simpa using find?_some h⟩

/-- A build after `setStage`: only the stage of the named build has changed. -/
theorem mem_setStage (h : b ∈ (c.setStage id stage).builds) :
    ∃ b₀ ∈ c.builds, b.id = b₀.id ∧ b.key = b₀.key ∧ b.validatorIndex = b₀.validatorIndex ∧
      b.validValue = b₀.validValue ∧ (b.stage = b₀.stage ∨ b.id = id ∧ b.stage = stage) := by
  obtain ⟨b₀, member, rfl⟩ := mem_map.mp h
  refine ⟨b₀, member, ?_⟩
  split
  · next same => exact ⟨rfl, rfl, rfl, rfl, .inr ⟨same, rfl⟩⟩
  · exact ⟨rfl, rfl, rfl, rfl, .inl rfl⟩

/-- The block of a proposal is the forged one or the one found valid. -/
theorem number_of_propose {built : Node.Built} {p : Proposal} (h : Node.propose b built = some p) :
    b.stage = .forging p.blockHeader.number ∧ b.validValue = none ∨
      ∃ validRound, b.validValue = some (validRound, p.blockHeader) := by
  unfold Node.propose at h
  split at h
  · next number fresh forging =>
      cases h
      exact .inl ⟨forging, fresh⟩
  · next validRound block valid _ =>
      split at h
      · cases h
        exact .inr ⟨validRound, valid⟩
      · contradiction
  · contradiction

/-- What changes of the heights when a stage is set: the stage must be within bounds. -/
theorem Heights.setStage (h : c.Heights) (forging : ∀ k, stage = .forging k → k ≤ c.next)
    (resolved : ∀ p, stage = .resolved (some p) → p.blockHeader.number ≤ c.next) :
    (c.setStage id stage).Heights :=
  { h with
    valid_block_le := by
      intro b member v hv
      obtain ⟨b₀, member₀, -, -, -, same, -⟩ := mem_setStage member
      exact h.valid_block_le b₀ member₀ v (same ▸ hv)
    forging_le := by
      intro b member k hk
      obtain ⟨b₀, member₀, -, -, -, -, old | ⟨-, new⟩⟩ := mem_setStage member
      · exact h.forging_le b₀ member₀ k (old ▸ hk)
      · exact forging k (new ▸ hk)
    resolved_le := by
      intro b member p hp
      obtain ⟨b₀, member₀, -, -, -, -, old | ⟨-, new⟩⟩ := mem_setStage member
      · exact h.resolved_le b₀ member₀ p (old ▸ hp)
      · exact resolved p (new ▸ hp) }

/-- A call that has added its record still waits for the write. -/
theorem mem_of_mem_saving {y : Incoming} {ticket : Nat}
    (h : x ∈ calls.erase y ++ [.saving ticket]) (ne : x ≠ .saving ticket) : x ∈ calls := by
  rcases mem_append.mp h with old | new
  · exact mem_of_mem_erase old
  · exact absurd (mem_singleton.mp new) ne

/-- A processor that is not locked out may begin. -/
theorem Drained.of_open (h : c.Drained) (open_ : c.exclusive = false) :
    Drained { c with processing := calls } := by
  unfold Drained at h ⊢
  split at h <;> simp_all

/-- A processor under way shows that no commit has come to its durable change. -/
theorem Drained.of_mem (h : c.Drained) (member : x ∈ c.processing)
    : Drained { c with processing := calls } := by
  unfold Drained at h ⊢
  split at h <;> simp_all

theorem Drained.erase (h : c.Drained) (x : Incoming) :
    Drained { c with processing := c.processing.erase x } := by
  unfold Drained at h ⊢
  split at h <;> simp_all

/-- The block of a build is that of the round state found valid. -/
theorem valid_of_build {v : Nat × BlockHeader} (h : (c.build env).validValue = some v) :
    ∃ key, c.validValue = some key ∧ (c.roundStates key).getBlock = some v.2 := by
  unfold Core.build at h
  split at h
  · contradiction
  · next key valid =>
      split at h
      · contradiction
      · next block held =>
          cases h
          exact ⟨key, valid, held⟩

theorem Heights.build (h : c.Heights) (v : Nat × BlockHeader)
    (valid : (c.build env).validValue = some v) : v.2.number ≤ c.next := by
  obtain ⟨key, found, held⟩ := valid_of_build valid
  rw [RoundState.number_of_getBlock held]
  exact h.valid_le key found

theorem build_stage : (c.build env).stage = .started ∨ (c.build env).stage = .resolved none := by
  unfold Core.build
  split
  · exact .inl rfl
  · split
    · exact .inr rfl
    · exact .inl rfl

theorem build_stage_ne_forging (k : Nat) : (c.build env).stage ≠ .forging k := by
  rcases @build_stage env c with stage | stage <;> simp [stage]

theorem build_stage_ne_resolved (p : Proposal) : (c.build env).stage ≠ .resolved (some p) := by
  rcases @build_stage env c with stage | stage <;> simp [stage]

theorem Heights.move (h : c.Heights) (up : c.running = true) (move : Move env c e c') :
    c'.Heights := by
  have bound := h.blockNumber_le up
  cases move with
  | stay => exact h
  | unlockCommit free => exact { h with drained := by unfold Drained; simp only [free] }
  | begin disposed =>
    cases disposed <;> exact { h with committing := trivial, drained := trivial }
  | sign => exact { h with committing := rfl, drained := trivial }
  | persist _ shift =>
    refine { h with committing := trivial, drained := trivial, valid_le := ?_ }
    intro key hkey
    cases shift with
    | lock | valid =>
      cases hkey
      exact bound
    | _ => exact h.valid_le key hkey
  | processBlock _ same =>
    exact { h with committing := same, drained := trivial }
  | @decideCommit _ commit at_ =>
    have known : commit.block.number = c.blockNumber := h.committing.of_at at_
    exact { h with committing := known, drained := trivial }
  | @lockCommit _ block at_ =>
    have known : block.number = c.blockNumber := h.committing.of_at at_
    exact { h with committing := known, drained := rfl }
  | decide _ same _ held =>
    refine { h with committing := ?_, drained := trivial }
    exact (RoundState.number_of_getBlock held).trans same
  | @commitUnit _ block at_ empty =>
    have known := h.commitUnit_eq at_
    have le_next := h.next_le up at_
    exact { h with
      stateStore_le := le_trans h.stateStore_le (le_of_succ_le_succ le_next)
      le_blockNumber := fun _ => le_of_eq known
      committing := ⟨known, rfl⟩
      drained := ⟨h.drained.of_at at_, empty⟩
      valid_le := fun key hkey => le_trans (h.valid_le key hkey) le_next
      valid_block_le := fun b hb v hv => le_trans (h.valid_block_le b hb v hv) le_next
      forging_le := fun b hb k hk => le_trans (h.forging_le b hb k hk) le_next
      resolved_le := fun b hb p hp => le_trans (h.resolved_le b hb p hp) le_next }
  | @storeCommit _ block at_ =>
    obtain ⟨number, stored⟩ : block.number = c.blockNumber ∧ c.database = block :=
      h.committing.of_at at_
    exact { h with
      stateStore_le := by rw [stored]
      le_stateStore := fun _ => by
        change c.blockNumber ≤ block.number + 1
        omega
      committing := ⟨number, stored, rfl⟩
      drained := h.drained.of_at at_ }
  | @advance _ block disposed at_ =>
    obtain ⟨number, stored, moved⟩ := h.committed_eq at_
    have drained : c.processing = [] := (h.drained.of_at at_).2
    exact { h with
      le_stateStore := fun _ => by
        change c.blockNumber + 1 ≤ c.stateStore.number + 1
        rw [moved]
        omega
      le_blockNumber := fun _ => by
        change c.database.number ≤ c.blockNumber + 1
        rw [stored]
        omega
      committing := by cases disposed <;> trivial
      drained := by cases disposed <;> trivial
      message_eq := by simp [drained]
      proposal_eq := by simp [drained]
      valid_le := by simp }
  | @processMessage m open_ same =>
    refine { h with drained := h.drained.of_open open_, message_eq := ?_, proposal_eq := ?_ }
    · intro x hx
      rcases mem_append.mp hx with old | new
      · exact h.message_eq x old
      · obtain rfl : x = m := by simpa using new
        exact same
    · intro x hx
      exact h.proposal_eq x (by simpa using hx)
  | addMessage member | addProposal member =>
    refine { h with drained := h.drained.of_mem member, message_eq := ?_, proposal_eq := ?_ }
    · intro x hx
      exact h.message_eq x (mem_of_mem_saving hx (by simp))
    · intro x hx
      exact h.proposal_eq x (mem_of_mem_saving hx (by simp))
  | @receiveProposal p open_ same =>
    refine { h with drained := h.drained.of_open open_, message_eq := ?_, proposal_eq := ?_ }
    · intro x hx
      exact h.message_eq x (by simpa using hx)
    · intro x hx
      rcases mem_append.mp hx with old | new
      · exact h.proposal_eq x old
      · obtain rfl : x = p := by simpa using new
        exact same
  | dropIncoming x =>
    exact { h with
      drained := h.drained.erase x
      message_eq := fun m hm => h.message_eq m (mem_of_mem_erase hm)
      proposal_eq := fun p hp => h.proposal_eq p (mem_of_mem_erase hp) }
  | build =>
    refine { h with
      committing := trivial
      drained := trivial
      valid_block_le := ?_
      forging_le := ?_
      resolved_le := ?_ }
    · exact forall_mem_concat h.valid_block_le h.build
    · refine forall_mem_concat h.forging_le ?_
      intro k forging
      exact absurd forging (build_stage_ne_forging k)
    · refine forall_mem_concat h.resolved_le ?_
      intro p resolved
      exact absurd resolved (build_stage_ne_resolved p)
  | forge =>
    refine h.setStage ?_ ?_
    · intro k hk
      obtain rfl := BuildStage.forging.inj hk
      exact succ_le_succ h.stateStore_le
    · intro p hp
      contradiction
  | @built _ id b built found =>
    refine h.setStage (fun k hk => by contradiction) ?_
    intro p hp
    obtain ⟨made, rfl, proposed⟩ := Option.bind_eq_some_iff.mp (BuildStage.resolved.inj hp)
    have member := (mem_of_findBuild found).1
    rcases number_of_propose proposed with ⟨forging, -⟩ | ⟨validRound, valid⟩
    · exact h.forging_le b member _ forging
    · exact h.valid_block_le b member _ valid
  | wait | stale | dropProposal | saveProposal | handOver | flush => exact { h with }
  | crash => exact heights_off ..
  | _ => exact { h with committing := trivial, drained := trivial }

theorem Heights.step (h : c.Heights) (down : c.Down) (step : CoreStep env c e c') : c'.Heights := by
  cases step with
  | move up move => exact h.move up move
  | @restart readable parses state off _ booted same =>
    subst same
    have number := Bootstrapper.bootstrap_blockNumber booted
    have stored : c.stateStore = c.database := by rw [down off]; rfl
    have idle : (c.restored state).processing = [] := by
      change c.processing = []
      rw [down off]
      rfl
    exact { h with
      le_stateStore := fun _ => by
        change state.blockNumber ≤ c.stateStore.number + 1
        rw [number, stored]
      le_blockNumber := fun _ => by
        change c.database.number ≤ state.blockNumber
        omega
      committing := trivial
      drained := trivial
      message_eq := by simp [idle]
      proposal_eq := by simp [idle]
      valid_le := fun key valid =>
        le_of_eq (Bootstrapper.bootstrap_validValue booted valid) }

end Core

end Mainsail
