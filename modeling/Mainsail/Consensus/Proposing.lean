import Mainsail.Consensus.Waking

/-!
# No double proposal

A proposal that `onTimeoutBlockPrepare` has saved claims its block number and round. Wherever
a crash leaves the store from then on, the node either restarts past the propose step of
that round, or it finds a proposal of the round stored and does not build another.

The proof follows the proposal from the build through the write to the hand-over. It needs
that a block is forged for the block number its build was started in; the run at the end
shows what happens where the state store has moved on in between.
-/

namespace Mainsail

open RoundKey Position Core Record Service Bootstrapper List Proposal

/-- Just past the propose step of the round of a proposal. -/
def Proposal.passed (p : Proposal) : Position := ⟨p.blockHeader.number, p.round, .prevote⟩

/-- A restart from this content does not build another proposal for the round. -/
def Proposal.Kept (p : Proposal) (blockNumber : Nat) (t : Tables) : Prop :=
  p.passed ≤ t.restorePosition blockNumber ∨
    p.roundKey.start ≤ t.restorePosition blockNumber ∧ ∃ q ∈ t.proposals, q.roundKey = p.roundKey

variable {p : Proposal}

/-- A persisted state is past the propose step of every round up to the current one. -/
theorem Shift.passed_le {env : Env} {c : Core} {round : Nat} {step : Step}
    {locked valid : Option RoundKey} {next : Next} (h : Shift env c round step locked valid next)
    (le : p.roundKey.start ≤ c.position) : p.passed ≤ ⟨c.blockNumber, round, step⟩ := by
  simp only [passed, roundKey, start, position, le_def] at le ⊢
  cases h <;> simp only [Step.toNat_propose, Step.toNat_prevote, Step.toNat_precommit] at le ⊢ <;>
    omega

namespace Core

variable {env : Env} {c c' : Core} {e : Event}

/-- The proposal was handed over, or is saved to be handed over. -/
def Claims (c : Core) (p : Proposal) : Prop :=
  p ∈ c.handedProposals ∨ ∃ ticket, .saving ticket p ∈ c.prepares

structure Proposing (c : Core) : Prop where
  claims_le : c.running = true → ∀ p, c.Claims p → p.roundKey.start ≤ c.position
  unique : ∀ p q, c.Claims p → c.Claims q → p.roundKey = q.roundKey → p = q
  handed_kept : ∀ p ∈ c.handedProposals, c.storage.Always (p.Kept c.next)
  saving_kept : ∀ ticket p, .saving ticket p ∈ c.prepares →
    ticket ≤ c.storage.issued ∧ c.storage.After (p.Kept c.next) ticket
  live : ∀ id, c.proposalPromise = some id → ∀ b ∈ c.builds, b.id = id →
    ∀ p, c.Claims p → p.roundKey ≠ b.key
  beginning : c.Beginning → ∀ p, c.Claims p → p.roundKey = c.current → c.step = .propose →
    (c.roundStates c.current).hasProposal = true

/-- The latest content keeps every claim. -/
theorem Proposing.kept_latest (h : c.Proposing) (claims : c.Claims p) :
    p.Kept c.next c.storage.latest := by
  rcases claims with handed | ⟨ticket, saving⟩
  · exact (h.handed_kept p handed).latest
  · exact WriteQueue.After.settle (h.saving_kept ticket p saving).2

variable {r : Record}

/-- A write that does not clear a stored proposal of round 0 keeps a claim: if it replaces the
stored proposal, it does so by one of the same round. -/
theorem Proposing.kept_write (h : c.Proposing) (covers : c.storage.Covers) (up : c.running = true)
    (bound : c.blockNumber ≤ c.next) (notState : r.key ≠ .state)
    (number : r.blockNumber = c.blockNumber) (clear : c.storage.blockNumber < c.blockNumber →
      ∀ q ∈ c.storage.latest.proposals, q.roundKey ≠ ⟨c.blockNumber, 0⟩)
    (claims : c.Claims p) : p.Kept c.next (c.storage.write r).latest := by
  have same := covers.restorePosition_write notState (number ▸ bound)
  unfold Proposal.Kept
  rw [same]
  rcases h.kept_latest claims with passed | ⟨started, q, stored, key⟩
  · exact .inl passed
  have le := h.claims_le up p claims
  by_cases earlier : p.blockHeader.number < c.next
  · refine .inl (.inl ?_)
    rw [Tables.restorePosition_blockNumber]
    exact earlier
  -- The claim is of the block number of a restart, and that is the current one.
  have current : p.blockHeader.number = c.blockNumber ∧ c.blockNumber = c.next := by
    simp only [RoundKey.start, roundKey, position, le_def] at le
    omega
  refine .inr ⟨started, ?_⟩
  by_cases clears : c.storage.blockNumber < r.blockNumber
  · -- The state that is cleared is older, so a restart begins in round 0 and so does the claim.
    exfalso
    have begins : c.storage.latest.restorePosition c.next = ⟨c.next, 0, .propose⟩ := by
      refine Tables.restorePosition_of_ne ?_
      intro state present
      have := covers state present
      omega
    rw [begins] at started
    have round : p.round = 0 := by
      simp only [RoundKey.start, roundKey, le_def] at started
      omega
    refine clear (number ▸ clears) q stored ?_
    rw [key, roundKey, current.1, round]
  · by_cases replaced : (proposal q).key = r.key
    · cases r with
      | proposal x =>
        refine ⟨x, holds_latest_write_self (r := .proposal x), ?_⟩
        have rounds : q.round = x.round := by
          simp only [Record.key, Proposal.key, Record.Key.proposal.injEq] at replaced
          exact replaced.1
        have pRound : q.round = p.round := congrArg RoundKey.round key
        have xNumber : x.blockHeader.number = c.blockNumber := number
        simp only [Proposal.roundKey, RoundKey.mk.injEq]
        exact ⟨xNumber.trans current.1.symm, rounds.symm.trans pRound⟩
      | state data => exact absurd rfl notState
      | message m => simp [Record.key, Proposal.key, Message.key] at replaced
    · exact ⟨q, holds_latest_write_of_ne (x := .proposal q) clears stored replaced, key⟩

theorem proposing_off {database : BlockHeader} {tables : Tables} {votes : List (Message × Bytes)}
    {proposals : List Proposal} {blocks : List BlockHeader}
    (unique : ∀ p ∈ proposals, ∀ q ∈ proposals, p.roundKey = q.roundKey → p = q)
    (kept : ∀ p ∈ proposals, p.Kept (database.number + 1) tables) :
    (off database tables votes proposals blocks).Proposing where
  claims_le := by simp [off]
  unique := fun p q hp hq => unique p (by simpa [Claims, off] using hp) q
    (by simpa [Claims, off] using hq)
  handed_kept := kept
  saving_kept := by simp [off]
  live := by simp [off]
  beginning := by simp [off, Beginning]

/-- Wherever a claim was kept, it still is. -/
def Keeps (c c' : Core) : Prop :=
  ∀ p, c.Claims p → (c.storage.Always (p.Kept c.next) → c'.storage.Always (p.Kept c'.next)) ∧
    ∀ ticket ≤ c.storage.issued, c.storage.After (p.Kept c.next) ticket →
      ticket ≤ c'.storage.issued ∧ c'.storage.After (p.Kept c'.next) ticket

theorem keeps_of_eq (storage : c'.storage = c.storage) (database : c'.database = c.database) :
    c.Keeps c' := by
  intro p _
  simp only [next, storage, database]
  exact ⟨id, fun ticket known after => ⟨known, after⟩⟩

theorem keeps_of_write (storage : c'.storage = c.storage.write r)
    (database : c'.database = c.database)
    (latest : ∀ p, c.Claims p → p.Kept c.next (c.storage.write r).latest) : c.Keeps c' := by
  intro p claims
  simp only [next, storage, database]
  refine ⟨fun always => always_write.mpr ⟨always, latest p claims⟩, ?_⟩
  intro ticket known after
  refine ⟨?_, after.write known (latest p claims)⟩
  rw [issued_write]
  exact Nat.le_succ_of_le known

theorem keeps_of_flush (flushed : c.storage.flush = some c'.storage)
    (database : c'.database = c.database) : c.Keeps c' := by
  intro p _
  simp only [next, database]
  refine ⟨fun always => always.flush flushed, ?_⟩
  intro ticket known after
  exact ⟨issued_flush flushed ▸ known, after.flush flushed⟩

section

variable (h : c.Proposing)
include h

section

variable (up : c.running = true)
include up

/-- A commit takes a restart beyond every claim. -/
theorem Proposing.keeps_of_commit
    (storage : c'.storage = c.storage) (later : c.blockNumber < c'.next) : c.Keeps c' := by
  intro p claims
  have kept (t : Tables) : p.Kept c'.next t := by
    refine .inl (.inl ?_)
    rw [Tables.restorePosition_blockNumber]
    have le := h.claims_le up p claims
    simp only [start, roundKey, position, le_def] at le
    change p.blockHeader.number < c'.next
    omega
  rw [storage]
  exact ⟨fun always => always.imp fun t _ => kept t,
    fun ticket known after => ⟨known, WriteQueue.After.imp after fun t _ => kept t⟩⟩

/-- Moves that make no claim. -/
theorem Proposing.keep (keeps : c.Keeps c') (handed : c'.handedProposals = c.handedProposals)
    (saving : ∀ ticket p, .saving ticket p ∈ c'.prepares → .saving ticket p ∈ c.prepares)
    (forward : c.position ≤ c'.position)
    (live : ∀ id, c'.proposalPromise = some id → ∀ b ∈ c'.builds, b.id = id →
      ∀ p, c.Claims p → p.roundKey ≠ b.key)
    (beginning : c'.Beginning → ∀ p, c.Claims p → p.roundKey = c'.current → c'.step = .propose →
      (c'.roundStates c'.current).hasProposal = true) : c'.Proposing := by
  have before (p : Proposal) (claims : c'.Claims p) : c.Claims p := by
    rcases claims with old | ⟨ticket, pending⟩
    · exact .inl (handed ▸ old)
    · exact .inr ⟨ticket, saving ticket p pending⟩
  constructor
  · exact fun _ p claims => le_trans (h.claims_le up p (before p claims)) forward
  · exact fun p q first second => h.unique p q (before p first) (before q second)
  · intro p old
    rw [handed] at old
    exact (keeps p (.inl old)).1 (h.handed_kept p old)
  · intro ticket p pending
    obtain ⟨known, after⟩ := h.saving_kept ticket p (saving ticket p pending)
    exact (keeps p (.inr ⟨ticket, saving ticket p pending⟩)).2 ticket known after
  · exact fun id pending b member same p claims => live id pending b member same p (before p claims)
  · exact fun begun p claims => beginning begun p (before p claims)

/-- A round is entered that nothing was claimed for. -/
theorem Proposing.ne_of_lt {key : RoundKey}
    (later : ¬ key.start ≤ c.position) (claims : c.Claims p) : p.roundKey ≠ key := by
  rintro rfl
  exact later (h.claims_le up p claims)

end

/-- `onTimeoutBlockPrepare` saves the proposal of the pending build. -/
theorem Proposing.saveProposal (building : c.Building) (recorded : c.Recorded)
    (up : c.running = true) (bound : c.blockNumber ≤ c.next) {id : Nat} {b : Build}
    (found : c.findBuild id = some b) (resolved : b.stage = .resolved (some p))
    (pending : c.proposalPromise = some id) (clear : c.storage.blockNumber < c.blockNumber →
      ∀ q ∈ c.storage.latest.proposals, q.roundKey ≠ ⟨c.blockNumber, 0⟩) :
    Proposing { c with
      proposalPromise := none
      storage := c.storage.write (.proposal p)
      prepares := c.prepares.erase (.waiting id) ++
        [.saving (c.storage.write (.proposal p)).issued p] } := by
  obtain ⟨member, same⟩ := mem_of_findBuild found
  have key : p.roundKey = b.key := building.resolved_key b member p resolved
  have number : (proposal p).blockNumber = c.blockNumber :=
    building.number_of_live found resolved pending
  have notState := key_proposal_ne p
  have fresh (q : Proposal) (claims : c.Claims q) : q.roundKey ≠ p.roundKey := by
    rw [key]
    exact h.live id pending b member same q claims
  have keptOld (q : Proposal) (claims : c.Claims q) :
      q.Kept c.next (c.storage.write (.proposal p)).latest :=
    h.kept_write recorded.covers up bound notState number clear claims
  have keptNew : p.Kept c.next (c.storage.write (.proposal p)).latest := by
    refine .inr ⟨?_, p, ?_, rfl⟩
    · rw [recorded.covers.restorePosition_write notState (number ▸ bound), key]
      exact (building.safe b member).latest
    · exact holds_latest_write_self (r := .proposal p)
  have keeps : c.Keeps { c with storage := c.storage.write (.proposal p) } :=
    keeps_of_write rfl rfl keptOld
  have claims {q : Proposal} (new : Claims { c with
      proposalPromise := none
      storage := c.storage.write (.proposal p)
      prepares := c.prepares.erase (.waiting id) ++
        [.saving (c.storage.write (.proposal p)).issued p] } q) : c.Claims q ∨ q = p := by
    rcases new with old | ⟨ticket, pending⟩
    · exact .inl (.inl old)
    · rcases mem_append.mp pending with old | new
      · exact .inl (.inr ⟨ticket, mem_of_mem_erase old⟩)
      · exact .inr (Prepare.saving.inj (mem_singleton.mp new)).2
  constructor
  · intro _ q new
    rcases claims new with old | rfl
    · exact h.claims_le up q old
    · rw [key]
      exact building.le up b member
  · intro q r first second
    rcases claims first with old | rfl <;> rcases claims second with old' | rfl
    · exact h.unique q r old old'
    · exact fun same => absurd same (fresh q old)
    · exact fun same => absurd same.symm (fresh r old')
    · exact fun _ => rfl
  · exact fun q old => (keeps q (.inl old)).1 (h.handed_kept q old)
  · intro ticket q pending
    rcases mem_append.mp pending with old | new
    · have old := mem_of_mem_erase old
      obtain ⟨known, after⟩ := h.saving_kept ticket q old
      exact (keeps q (.inr ⟨ticket, old⟩)).2 ticket known after
    · obtain ⟨rfl, rfl⟩ := Prepare.saving.inj (mem_singleton.mp new)
      exact ⟨Nat.le_refl _, after_issued_write.mpr keptNew⟩
  · simp
  · intro begun q new same
    rcases claims new with old | rfl
    · exact h.beginning begun q old same
    · exact absurd (key.symm.trans same) (building.beginning begun b member)

/-- The fields of a claim that is handed over. -/
theorem Proposing.handOver {ticket : Nat}
    (saving : .saving ticket p ∈ c.prepares) (durable : ticket ≤ c.storage.flushed) :
    Proposing { c with
      prepares := c.prepares.erase (.saving ticket p)
      handedProposals := c.handedProposals ++ [p]
      ownProposals := c.ownProposals ++ [p] } := by
  have handed {q : Proposal} (member : q ∈ c.handedProposals ++ [p]) :
      q ∈ c.handedProposals ∨ q = p := by
    simpa using member
  have claims {q : Proposal} (new : Claims { c with
      prepares := c.prepares.erase (.saving ticket p)
      handedProposals := c.handedProposals ++ [p]
      ownProposals := c.ownProposals ++ [p] } q) : c.Claims q := by
    rcases new with member | ⟨ticket', pending⟩
    · rcases handed member with old | rfl
      · exact .inl old
      · exact .inr ⟨ticket, saving⟩
    · exact .inr ⟨ticket', mem_of_mem_erase pending⟩
  constructor
  · exact fun up q new => h.claims_le up q (claims new)
  · exact fun q r first second => h.unique q r (claims first) (claims second)
  · intro q member
    rcases handed member with old | rfl
    · exact h.handed_kept q old
    · exact (h.saving_kept ticket q saving).2.always durable
  · exact fun ticket' q pending => h.saving_kept ticket' q (mem_of_mem_erase pending)
  · exact fun id pending b member same q new => h.live id pending b member same q (claims new)
  · exact fun begun q new => h.beginning begun q (claims new)

end

/-- The process is not about to clear a stored proposal of round 0. -/
theorem Written.clear (h : c.Written) (up : c.running = true) (known : ¬ c.Orphaned)
    (behind : c.storage.blockNumber < c.blockNumber) :
    ∀ q ∈ c.storage.latest.proposals, q.roundKey ≠ ⟨c.blockNumber, 0⟩ := fun q stored same =>
  known ⟨up, behind, (h.unwritten up behind).2 q stored same⟩

theorem Proposing.move (h : c.Proposing) (sound : c.Sound env) (building : c.Building)
    (written : c.Written) (up : c.running = true)
    (quiet : c.Orphaned → c.processing = [] ∧ c.proposalPromise = none)
    (move : Move env c e c') : c'.Proposing := by
  have bound := sound.heights.blockNumber_le up
  have covers := sound.recorded.covers
  have stays := le_refl c.position
  have same := fun {c' : Core} => @keeps_of_eq c c'
  -- A write of the current block number that is not the first beside a stored proposal.
  have writes {r : Record} {c' : Core} (notState : r.key ≠ .state)
      (number : r.blockNumber = c.blockNumber) (known : ¬ c.Orphaned)
      (storage : c'.storage = c.storage.write r) (database : c'.database = c.database) :
      c.Keeps c' :=
    keeps_of_write storage database fun p claims =>
      h.kept_write covers up bound notState number (written.clear up known) claims
  cases move with
  | @persist _ round step locked valid next _ shift =>
    refine h.keep up (keeps_of_write rfl rfl ?_) rfl (fun _ _ => id) shift.position_le h.live ?_
    · intro p claims
      refine .inl (le_trans (shift.passed_le (h.claims_le up p claims)) ?_)
      exact sound.heights.reached up round step _ _
    · intro beginning p claims current
      refine absurd current (h.ne_of_lt up ?_ claims)
      cases shift with
      | round higher =>
        simp only [start, Core.current, persistState, position, le_def]
        omega
      | _ => simp [Beginning, persistState] at beginning
  | @saveVote _ m indices at_ =>
    have number := sound.heights.signed_eq at_
    have stands := written.recording (by simp [Recording, at_])
    refine h.keep up (writes (r := .message m) (key_message_ne _) number ?_
      rfl rfl) rfl (fun _ _ => id) stays h.live (by simp [Beginning])
    exact fun orphaned => absurd orphaned.2.1 (Nat.not_lt.mpr stands)
  | @addMessage m repo member added =>
    have known : ¬ c.Orphaned := fun orphaned => by simp [(quiet orphaned).1] at member
    exact h.keep up (writes (r := .message m) (key_message_ne _)
      (sound.heights.message_eq m member) known rfl rfl) rfl (fun _ _ => id) stays h.live
      fun begun p claims current step =>
        (Repository.grows_of_addMessage added _).hasProposal
          (h.beginning begun p claims current step)
  | @addProposal p repo member added =>
    have known : ¬ c.Orphaned := fun orphaned => by simp [(quiet orphaned).1] at member
    exact h.keep up (writes (r := .proposal p) (key_proposal_ne _)
      (sound.heights.proposal_eq p member) known rfl rfl) rfl (fun _ _ => id) stays h.live
      fun begun p claims current step =>
        (Repository.grows_of_addProposal added _).hasProposal
          (h.beginning begun p claims current step)
  | saveProposal found resolved pending =>
    have known : ¬ c.Orphaned := fun orphaned => by simp [(quiet orphaned).2] at pending
    exact h.saveProposal building sound.recorded up bound found resolved pending
      (written.clear up known)
  | handOver saving durable => exact h.handOver saving durable
  | build at_ proposing vacant =>
    refine h.keep up (same rfl rfl) rfl (fun _ _ => id) stays ?_ (by simp [Beginning])
    intro id pending b member named p claims key
    cases pending
    obtain rfl := building.eq_build member named
    -- The round has just begun, and a claim of it would have been loaded.
    have current : p.roundKey = c.current := key.trans build_key
    have held := h.beginning (by simp [Beginning, at_]) p claims current proposing
    simp [held] at vacant
  | forge | built =>
    refine h.keep up (same rfl rfl) rfl (fun _ _ => id) stays ?_ h.beginning
    intro id pending b member named
    obtain ⟨b', member', sameId, key, -⟩ := mem_setStage member
    rw [key]
    exact h.live id pending b' member' (sameId ▸ named)
  | @commitUnit _ block at_ =>
    have known := sound.heights.commitUnit_eq at_
    refine h.keep up (h.keeps_of_commit up rfl ?_) rfl (fun _ _ => id) stays h.live
      (by simp [Beginning])
    change c.blockNumber < block.number + 1
    omega
  | @advance _ block disposed at_ =>
    refine h.keep up (same rfl rfl) rfl (fun _ _ => id) (.inl (Nat.lt_succ_self _)) (by simp) ?_
    intro _ p claims current
    refine absurd current (h.ne_of_lt up ?_ claims)
    simp only [start, Core.current, position, le_def]
    omega
  | @begin _ disposed at_ =>
    have begun : c.Beginning := by
      rcases at_ with at_ | at_ <;> simp [Beginning, at_]
    exact h.keep up (same rfl rfl) rfl (fun _ _ => id) stays (by simp) fun _ => h.beginning begun
  | persisted at_ =>
    refine h.keep up (same rfl rfl) rfl (fun _ _ => id) stays h.live ?_
    intro beginning
    refine h.beginning ?_
    revert beginning
    simp only [Beginning, at_]
    split <;> simp_all
  | flush flushed =>
    exact h.keep up (keeps_of_flush flushed rfl) rfl (fun _ _ => id) stays h.live h.beginning
  | wait =>
    exact h.keep up (same rfl rfl) rfl (by simp) stays h.live h.beginning
  | stale =>
    exact h.keep up (same rfl rfl) rfl (fun _ _ => mem_of_mem_erase) stays h.live h.beginning
  | dropProposal =>
    exact h.keep up (same rfl rfl) rfl (fun _ _ => mem_of_mem_erase) stays (by simp)
      h.beginning
  | crash =>
    refine proposing_off ?_ fun p handed => (h.handed_kept p handed).crash _
    exact fun p first q second => h.unique p q (.inl first) (.inl second)
  | stay | unlockCommit | processMessage | receiveProposal | dropIncoming =>
    exact h.keep up (same rfl rfl) rfl (fun _ _ => id) stays h.live h.beginning
  | _ =>
    exact h.keep up (same rfl rfl) rfl (fun _ _ => id) stays h.live (by simp [Beginning, setResult])

/-- A restart is past the propose step of a handed-over proposal, or loads a proposal of its
round. -/
theorem Proposing.restart (h : c.Proposing) (down : c.Down) (recorded : c.Recorded)
    (off : c.running = false) {parses : Bool} {state : Restored}
    (booted : bootstrap env.roundValidators (fun _ => parses) c.database
      (some c.storage.tables) = .ok state) : (c.restored state).Proposing := by
  have storage := recorded.storage_restored booted
  have position : (c.restored state).position = c.storage.tables.restorePosition c.next :=
    bootstrap_position booted
  have memory := down off
  have none : (c.restored state).prepares = [] := congrArg prepares memory
  have handed {p : Proposal} (claims : (c.restored state).Claims p) : p ∈ c.handedProposals := by
    rcases claims with handed | ⟨ticket, pending⟩
    · exact handed
    · simp [none] at pending
  have kept {p : Proposal} (claims : (c.restored state).Claims p) :
      p.Kept c.next c.storage.tables := WriteQueue.Always.here (h.handed_kept p (handed claims))
  constructor
  · intro _ p claims
    rw [position]
    rcases kept claims with passed | ⟨started, -⟩
    · refine le_trans ?_ passed
      exact .inr ⟨rfl, .inr ⟨rfl, by simp [start, passed]⟩⟩
    · exact started
  · exact fun p q first second => h.unique p q (.inl (handed first)) (.inl (handed second))
  · intro p member
    rw [storage]
    exact h.handed_kept p member
  · simp [none]
  · intro id pending
    exact absurd ((congrArg Core.proposalPromise memory).symm.trans pending) (by simp [Core.off])
  · intro _ p claims current proposing
    have here : p.roundKey.start = (c.restored state).position := by
      rw [current, start, Core.position, proposing]
      rfl
    rcases kept claims with passed | ⟨-, q, stored, key⟩
    · -- The position would be past the propose step it is in.
      rw [← position, ← here] at passed
      simp [Proposal.passed, Proposal.roundKey, start, le_def] at passed
    · have number : q.blockHeader.number = c.database.number + 1 := by
        have := congrArg Position.blockNumber (here.trans position)
        rw [Tables.restorePosition_blockNumber] at this
        exact (congrArg RoundKey.blockNumber key).trans this
      have loaded := (loads_of_bootstrap booted).proposal q stored number
      rw [← current, ← key]
      change (state.roundStates q.roundKey).hasProposal = true
      simp [RoundState.hasProposal, loaded]

end Core

namespace Node

variable {env : Env} {database : BlockHeader} {n n' : Node} {e : Event}

/-- What every step keeps as long as blocks are forged for the block number of their build. -/
structure Proposes (env : Env) (n : Node) : Prop where
  sound : n.Sound env
  locks : n.Locks env
  building : n.Building
  written : n.Written
  down : n.Down
  waking : n.Orphaned → n.Waking
  proposing : n.Proposing

open Node

theorem proposes_start (database : BlockHeader) : (start database).Proposes env where
  sound := sound_start database
  locks := locks_start database
  building := building_off ..
  written := written_off fun r held => absurd held (Tables.not_holds_empty r)
  down := fun _ => rfl
  waking := fun orphaned => absurd orphaned.1 (by simp [start, off, Core.off])
  proposing := proposing_off (by simp) (by simp)

/-- Beside an orphaned proposal the handler of `run` has not written yet. -/
theorem Proposes.silent (h : n.Proposes env) (orphaned : n.Orphaned) : ¬ n.Recording :=
  fun recording => absurd orphaned.2.1 (Nat.not_lt.mpr (h.written.recording recording))

theorem Proposes.transition (h : n.Proposes env) (readable : e.Readable)
    (forges : n.ForgesCurrent e) (taken : n.transition env e = some n') : n'.Proposes env := by
  have sound := h.sound.step readable (transition_step taken)
  have locks := h.locks.step (transition_step taken)
  have down := down_of_transition taken
  unfold Node.transition at taken
  split at taken
  · next up =>
      have move := move_stepRunning taken
      exact {
        sound := sound
        locks := locks
        building := h.building.move h.sound h.locks up forges move
        written := h.written.move h.sound.heights h.building up move
        down := down
        waking := fun orphaned' => by
          have orphaned := orphaned'.of_move h.sound.heights h.building up move
          exact waking_stepRunning (h.waking orphaned) orphaned
            (h.written.unwritten up orphaned.2.1).1 (h.silent orphaned) taken orphaned'
        proposing := h.proposing.move h.sound h.building h.written up
          (fun orphaned => ⟨(h.waking orphaned).processing, (h.waking orphaned).promise⟩) move }
  · next stopped =>
      have off : n.running = false := by simpa using stopped
      split at taken
      · obtain rfl := readable
        have waking := waking_restart h.sound.down h.down off taken
        unfold restart at taken
        split at taken
        · contradiction
        · next state booted =>
            cases taken
            exact {
              sound := sound
              locks := locks
              building := building_restart h.sound.down h.sound.recorded off booted
              written := h.written.restart h.sound.down h.sound.recorded off booted
              down := down
              waking := fun _ => waking
              proposing := h.proposing.restart h.sound.down h.sound.recorded off booted }
      · contradiction

/-- Every restart reads the store, and every block is forged for the block number its build
was started in. -/
def ForgesInTime (n : Node) (e : Event) : Prop := e.Readable ∧ n.ForgesCurrent e

instance (n : Node) (e : Event) : Decidable (n.ForgesInTime e) :=
  inferInstanceAs (Decidable (_ ∧ _))

theorem proposes_of_runs {ok : Node → Event → Prop} (inTime : ∀ n e, ok n e → n.ForgesInTime e)
    (run : Runs env ok database n) : n.Proposes env :=
  run.invariant (P := fun n => n.Proposes env) (proposes_start database)
    fun n e _ h guard taken => h.transition (inTime n e guard).1 (inTime n e guard).2 taken

/-- A node does not hand over two different proposals for the same block number and round,
however often it crashes and restarts in between. -/
theorem handedProposals_unique (run : Runs env ForgesInTime database n) {p q : Proposal}
    (first : p ∈ n.handedProposals) (second : q ∈ n.handedProposals)
    (blockNumber : p.blockHeader.number = q.blockHeader.number) (round : p.round = q.round) :
    p = q := by
  have proposing := (proposes_of_runs (fun _ _ inTime => inTime) run).proposing
  refine proposing.unique p q (.inl first) (.inl second) ?_
  simp only [roundKey, blockNumber, round]

/-- Nothing is pending where a round starts, so the proposer builds. -/
def startsBuilding : Event := .resume ⟨false, false, 0⟩

theorem handedProposals_unique_crashAfterHandOver :
    ∃ n, Runs soloEnv ForgesInTime genesisHeader n ∧ n.handedProposals = [soloProposal] ∧
      n.builds = [] ∧ ∀ p ∈ n.handedProposals, p.blockHeader.number = 1 → p.round = 0 →
        p = soloProposal := by
  have evaluated : (Transition.run (transition soloEnv) (start genesisHeader)
      (proposes ++ [.crash 0, .restart true true, succeeds, startsBuilding])).map
        (fun n => (n.handedProposals, n.builds)) = some ([soloProposal], []) := by
    decide +kernel
  have guarded : Transition.Guarded (transition soloEnv) ForgesInTime
      (start genesisHeader)
      (proposes ++ [.crash 0, .restart true true, succeeds, startsBuilding]) := by
    decide +kernel
  obtain ⟨n, run, observed⟩ := Transition.Reach.exists_of_run evaluated guarded
  obtain ⟨handed, builds⟩ := Prod.mk.inj observed
  refine ⟨n, run, handed, builds, ?_⟩
  intro p member number round
  exact handedProposals_unique run member (by simp [handed]) number round

/-- Four validators that propose in turn, of which the node has the first. -/
def fourEnv : Env where
  roundValidators := fun _ => 4
  registered := fun _ => [0]
  proposerIndex := fun _ round => round % 4
  tolerance := 0
  sign := fun _ _ => []

/-- A proposal of the node for block 2. -/
def forkProposal (hash : Bytes) : Proposal := .fresh ⟨2, hash, 0⟩ 0 0 []

/-- The calls from `forgeBlock` to the hand-over, for one build. -/
def forgesAndHandsOver (id : Nat) (hash : Bytes) : List Event :=
  [.forgeBlock id, .proposalBuilt id (some ⟨hash, 0, ⟨[], []⟩, []⟩), .onTimeoutBlockPrepare,
    .proposalAwaited id, .flush, .proposalSaved (id + 1) (forkProposal hash)]

/-- The build for block 1 is started, and block 1 is committed from a peer. Between the state
store and the next round the build forges block 2, and the next round builds block 2 again. -/
def forgesAcrossCommit : List Event :=
  [.restart true true, succeeds, startsBuilding] ++ replicate 12 succeeds ++
  [.handleCommitState ⟨⟨1, [1], 0⟩, ⟨⟨[], [false, true, true, true]⟩, 3⟩⟩] ++
  replicate 4 succeeds ++ forgesAndHandsOver 0 [8] ++
  [succeeds, startsBuilding] ++ forgesAndHandsOver 1 [9]

theorem not_forall_handedProposals_unique : ¬ ∀ (env : Env) (database : BlockHeader) (n : Node),
      Runs env (fun _ e => e.Readable) database n →
      ∀ p ∈ n.handedProposals, ∀ q ∈ n.handedProposals, p.validatorIndex = q.validatorIndex →
        p.blockHeader.number = q.blockHeader.number → p.round = q.round → p = q := by
  intro unique
  have evaluated : (Transition.run (transition fourEnv) (start genesisHeader)
      forgesAcrossCommit).map (·.handedProposals) = some [forkProposal [8], forkProposal [9]] := by
    decide +kernel
  have guarded : Transition.Guarded (transition fourEnv) (fun _ e => e.Readable)
      (start genesisHeader) forgesAcrossCommit := by
    decide +kernel
  obtain ⟨n, run, handed⟩ := Transition.Reach.exists_of_run evaluated guarded
  have same := unique fourEnv genesisHeader n run (forkProposal [8]) (by simp [handed])
    (forkProposal [9]) (by simp [handed]) rfl rfl rfl
  exact absurd same (by decide)

end Node

end Mainsail
