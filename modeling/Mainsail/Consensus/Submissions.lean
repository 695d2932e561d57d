import Mainsail.Consensus.Proposing
import Mainsail.Consensus.CommitPath

/-!
# Stale proposals

`onTimeoutBlockPrepare` compares promises: a proposal is submitted if its promise is still the
pending one. `startRound` enters its round first, then waits for the store, and only then drops the
promise of the round before. A call of `onTimeoutBlockPrepare` that goes on in between, or after the
write has failed, submits a proposal of the round that has ended.

A proposal that is submitted is saved before it is handed to the processor, and another round may be
entered while the store writes. The third way to a proposal of the wrong position is a block that is
forged when the state store has already moved on to the next one. Where none of these happens, a
proposal is saved and handed over in its own round.
-/

namespace Mainsail

open Core Transition Node List Option

/-- The events that must not fall between entering a round and dropping the promise: the write of
the state fails, or a call of `onTimeoutBlockPrepare` goes on. -/
def Event.intrudes : Event → Bool
  | .abort | .proposalAwaited _ => true
  | _ => false

/-- The proposal that a call of `onTimeoutBlockPrepare` is saving. -/
def Prepare.saves : Prepare → Option Proposal
  | .saving _ p => some p
  | .waiting _ => none

namespace Core

variable {env : Env} {c c' : Core} {e : Event}

/-- A round is entered, and the promise of the round before is not dropped yet. -/
def Entering (c : Core) : Prop :=
  match c.continuation with
  | some (.persisted _ .beginRound) => True
  | some (.next .beginRound) => True
  | _ => False

instance (c : Core) : Decidable c.Entering := by
  unfold Entering
  split <;> infer_instance

/-- A build for this round has been submitted, and the pending one is of another round. -/
structure Spent (key : RoundKey) (c : Core) : Prop where
  built : ∃ b ∈ c.builds, b.key = key
  pending : ∀ id, c.proposalPromise = some id → ∀ b ∈ c.builds, b.id = id → b.key ≠ key

theorem Spent.keep {key : RoundKey} (h : c.Spent key) (builds : c'.builds = c.builds)
    (promise : c'.proposalPromise = c.proposalPromise ∨ c'.proposalPromise = none) :
    c'.Spent key := by
  refine ⟨builds ▸ h.built, ?_⟩
  intro id pending
  rw [builds]
  rcases promise with same | none_left
  · exact h.pending id (same ▸ pending)
  · simp [none_left] at pending

theorem Spent.setStage {key : RoundKey} (h : c.Spent key) (id : Nat) (stage : BuildStage) :
    (c.setStage id stage).Spent key := by
  constructor
  · obtain ⟨b, member, same⟩ := h.built
    refine ⟨_, mem_map_of_mem member, ?_⟩
    split <;> exact same
  · intro id' pending b member named
    obtain ⟨b', member', same, key_eq, -⟩ := mem_setStage member
    exact key_eq ▸ h.pending id' pending b' member' (same ▸ named)

/-- No second build is started for a round that has one. -/
theorem Spent.move {key : RoundKey} (h : c.Spent key) (underway : c.Underway) (survives : e.Survives)
    (move : Move env c e c') : c'.Spent key := by
  cases move with
  | build at_ =>
    obtain ⟨b, member, same⟩ := h.built
    refine ⟨⟨b, mem_append_left _ member, same⟩, ?_⟩
    intro id pending b' member' named
    cases pending
    rw [underway.eq_build member' named, build_key, ← same]
    exact (underway.beginning (by simp [Beginning, at_]) b member).symm
  | forge | built => exact h.setStage _ _
  | crash => contradiction
  | begin | advance | dropProposal | saveProposal => exact h.keep rfl (.inr rfl)
  | _ => exact h.keep rfl (.inl rfl)

/-- The proposals that calls of `onTimeoutBlockPrepare` are saving. -/
def saving (c : Core) : List Proposal := c.prepares.filterMap Prepare.saves

/-- What a move does to the proposals that are being saved. -/
theorem saving_of_move (survives : e.Survives) (move : Move env c e c') :
    c'.saving ~ c.saving ∨
      (∃ id b p, e = .proposalAwaited id ∧ c.findBuild id = some b ∧ b.stage = .resolved (some p) ∧
        c.proposalPromise = some id ∧ c'.saving ~ p :: c.saving ∧ c'.current = c.current ∧
        c'.builds = c.builds ∧ c'.proposalPromise = none) ∨
      ∃ p, p :: c'.saving ~ c.saving := by
  -- A call that waits is not one that saves.
  have waiting (id : Nat) : (c.prepares.erase (.waiting id)).filterMap Prepare.saves ~ c.saving := by
    by_cases member : .waiting id ∈ c.prepares
    · exact ((perm_cons_erase member).filterMap Prepare.saves).symm
    · rw [erase_of_not_mem member]
      exact .refl _
  cases move with
  | wait =>
    left
    simp only [saving, filterMap_append]
    exact .of_eq (append_nil _)
  | stale id | dropProposal id => exact .inl (waiting id)
  | @saveProposal id b p found resolved pending =>
    refine .inr (.inl ⟨id, b, p, rfl, found, resolved, pending, ?_, rfl, rfl, rfl⟩)
    simp only [saving, filterMap_append]
    exact perm_append_comm.trans ((waiting id).cons p)
  | @handOver _ ticket p member =>
    exact .inr (.inr ⟨p, ((perm_cons_erase member).filterMap Prepare.saves).symm⟩)
  | crash => contradiction
  | _ => exact .inl (.refl _)

/-- The builds, which of them is pending, and the one proposal that may be on its way to the processor. -/
structure Prepared (c : Core) : Prop extends c.Underway where
  live : ∀ id, c.proposalPromise = some id → ¬ c.Entering → ∀ b ∈ c.builds, b.id = id →
    b.key = c.current
  saved : c.saving = [] ∨ ∃ p, c.saving = [p] ∧ p.roundKey = c.current ∧ c.Spent c.current

theorem prepared_of_empty (builds : c.builds = []) (prepares : c.prepares = []) : c.Prepared :=
  ⟨underway_of_empty builds, by simp [builds], .inl (by rw [saving, prepares]; rfl)⟩

/-- The proposal of the pending build is for the current round. -/
theorem Prepared.roundKey (h : c.Prepared) (entered : ¬ c.Entering) {id : Nat} {b : Build}
    {p : Proposal} (found : c.findBuild id = some b) (resolved : b.stage = .resolved (some p))
    (pending : c.proposalPromise = some id) : p.roundKey = b.key ∧ b.key = c.current := by
  obtain ⟨member, named⟩ := mem_of_findBuild found
  exact ⟨h.resolved_key b member p resolved, h.live id pending entered b member named⟩

/-- One step. A round that is being entered must get to drop its promise, and a proposal that is being
saved must get to the processor in its round. -/
theorem Prepared.move (h : c.Prepared) (locks : c.Locks env) (up : c.running = true)
    (survives : e.Survives) (forges : c.ForgesCurrent e) (intrudes : c.Entering → e.intrudes = false)
    (entering : c.Entering → c'.Entering ∨ c'.proposalPromise = none)
    (settled : c.saving ≠ [] → c'.current = c.current) (move : Move env c e c') : c'.Prepared := by
  refine ⟨h.toUnderway.move locks up forges move, fun id pending entered b member named => ?_, ?_⟩
  · -- The pending build of a move that changes neither the promise nor the round.
    have live (promise : c'.proposalPromise = c.proposalPromise) (current : c'.current = c.current) :
        ∀ b ∈ c.builds, b.id = id → b.key = c'.current := by
      have before : ¬ c.Entering := by
        intro still
        rcases entering still with still | none_left
        · exact entered still
        · simp [none_left] at pending
      rw [current]
      exact h.live id (promise ▸ pending) before
    cases move with
    | build =>
      cases pending
      rw [h.eq_build member named]
      exact build_key
    | forge | built =>
      obtain ⟨b', member', same, key, -⟩ := mem_setStage member
      exact key ▸ live rfl rfl b' member' (same ▸ named)
    | persist _ shift =>
      cases shift with
      | round => exact absurd trivial entered
      | _ => exact live rfl rfl b member named
    | crash | begin | advance | dropProposal | saveProposal => cases pending
    | _ => exact live rfl rfl b member named
  · rcases saving_of_move survives move with
      same | ⟨id, b, p, rfl, found, resolved, pending, added, current, builds, dropped⟩ | ⟨p, removed⟩
    · rcases h.saved with none | ⟨p, one, key, spent⟩
      · exact .inl (perm_nil.mp (none ▸ same))
      · rw [settled (by simp [one])]
        exact .inr ⟨p, perm_singleton.mp (one ▸ same), key, spent.move h.toUnderway survives move⟩
    · have entered : ¬ c.Entering := fun entering =>
        absurd (intrudes entering) (by simp [Event.intrudes])
      obtain ⟨key, here⟩ := h.roundKey entered found resolved pending
      obtain ⟨member, named⟩ := mem_of_findBuild found
      rcases h.saved with none | ⟨q, -, -, spent⟩
      · rw [current]
        refine .inr ⟨p, perm_singleton.mp (none ▸ added), key.trans here, ⟨b, builds ▸ member, here⟩, ?_⟩
        simp [dropped]
      · exact absurd here (spent.pending id pending b member named)
    · rcases h.saved with none | ⟨q, one, -⟩
      · rw [none] at removed
        exact absurd removed.symm (by simp)
      · rw [one] at removed
        exact .inl (cons.inj (perm_singleton.mp removed)).2

end Core

namespace Node

variable {env : Env} {database : BlockHeader} {n n' : Node} {e : Event}

/-- A round that is being entered goes on to drop the promise, unless its write fails. -/
theorem entering_stepRunning (h : n.Entering) (lasts : e ≠ .abort)
    (taken : n.stepRunning env e = some n') : n'.Entering ∨ n'.proposalPromise = none := by
  have busy : n.idle = false := by
    revert h
    simp only [Entering, idle]
    split <;> simp_all
  obtain ⟨reply, goes⟩ | ⟨rfl, -⟩ | ⟨kept, rfl⟩ | beside := stepRunning_of_busy busy taken
  · simp only [goOn] at goes
    simp only [Entering] at h
    split at h
    · next ticket at_ =>
        simp only [at_, resume, ite_none_right_eq_some, some.injEq] at goes
        obtain ⟨-, rfl⟩ := goes
        exact .inl trivial
    · next at_ =>
        simp only [at_, resume, some.injEq] at goes
        obtain rfl := goes
        exact .inr rfl
    · contradiction
  · contradiction
  · exact .inr rfl
  · refine .inl ?_
    simpa only [Entering, beside.continuation] using h

/-- The step of a call of `onTimeoutBlockPrepare` that saves a proposal, to process it then. -/
def Submits (env : Env) (n : Node) (id : Nat) (p : Proposal) (n' : Node) : Prop :=
  n.transition env (.proposalAwaited id) = some n' ∧ n'.prepares =
    n.prepares.erase (.waiting id) ++ [.saving (n.storage.write (.proposal p)).issued p]

/-- What is submitted is the result of the pending build. -/
theorem Submits.cases {id : Nat} {p : Proposal} (h : n.Submits env id p n') :
    n.running = true ∧ n.proposalPromise = some id ∧
      (∃ b, n.findBuild id = some b ∧ b.stage = .resolved (some p)) ∧
      n'.proposalPromise = none ∧ n'.builds = n.builds := by
  obtain ⟨taken, saving⟩ := h
  have longer {rest : List Prepare} {x : Prepare} : rest ≠ rest ++ [x] := by simp
  by_cases up : n.running = true
  · rw [transition_of_running up] at taken
    obtain ⟨-, taken⟩ := ite_none_right_eq_some.mp taken
    split at taken
    · next b found =>
      split at taken
      · cases taken
        exact absurd saving longer
      · next valid =>
        split at taken
        · cases taken
          exact absurd saving longer
        · next q =>
          cases taken
          simp only [append_cancel_left_eq, cons.injEq, Prepare.saving.injEq, and_true] at saving
          obtain ⟨-, rfl⟩ := saving
          push Not at valid
          exact ⟨up, valid.2, ⟨_, found, rfl⟩, rfl, rfl⟩
    · contradiction
  · simp [transition, up] at taken

/-- The step in which a call of `onTimeoutBlockPrepare` hands its proposal to the processor. -/
def HandsOver (env : Env) (n : Node) (ticket : Nat) (p : Proposal) (n' : Node) : Prop :=
  n.transition env (.proposalSaved ticket p) = some n'

theorem HandsOver.cases {ticket : Nat} {p : Proposal} (h : n.HandsOver env ticket p n') :
    n.running = true ∧ p :: n'.saving ~ n.saving ∧ n'.current = n.current := by
  by_cases up : n.running = true
  · rw [HandsOver, transition_of_running up] at h
    obtain ⟨⟨member, -⟩, h⟩ := ite_none_right_eq_some.mp h
    cases h
    exact ⟨up, ((perm_cons_erase member).filterMap Prepare.saves).symm, rfl⟩
  · simp [HandsOver, transition, up] at h

/-- The promise of a round that has ended is dropped before anything can use it, a block is forged for
the block number its build was started in, and no other round or block number is entered while a proposal
is being saved. -/
def PreparesInTime (env : Env) (n : Node) (e : Event) : Prop :=
  n.ForgesCurrent e ∧ (n.Entering → e.intrudes = false) ∧
    (n.saving ≠ [] → ∀ n' ∈ n.transition env e, n'.running = true → n'.current = n.current)

instance (env : Env) (n : Node) (e : Event) : Decidable (n.PreparesInTime env e) :=
  inferInstanceAs (Decidable (_ ∧ (_ → _) ∧ (_ → _)))

theorem Prepared.transition (h : n.Prepared) (locks : n.Locks env) (down : n.toCore.Down)
    (inTime : n.PreparesInTime env e) (taken : n.transition env e = some n') : n'.Prepared := by
  by_cases up : n.running = true
  · obtain ⟨forges, intrudes, settled⟩ := inTime
    by_cases survives : e.Survives
    · have move := move_stepRunning (transition_of_running up ▸ taken)
      refine h.move locks up survives forges intrudes (fun entering => ?_) (fun some => ?_) move
      · refine entering_stepRunning entering ?_ (transition_of_running up ▸ taken)
        rintro rfl
        exact absurd (intrudes entering) (by simp [Event.intrudes])
      · exact settled some n' taken (move.forward up survives).1
    · cases e with
      | crash kept =>
        rw [transition_of_running up] at taken
        cases taken
        exact prepared_of_empty rfl rfl
      | _ => exact absurd trivial survives
  · have memory := down (by simpa using up)
    cases transition_step taken with
    | move running => exact absurd running up
    | restart _ _ _ restored =>
      rw [restored]
      exact prepared_of_empty (congrArg builds memory) (congrArg prepares memory)

theorem prepared_of_runs (run : Runs env (PreparesInTime env) database n) :
    n.toCore.Down ∧ n.Locks env ∧ n.Prepared :=
  run.invariant (P := fun n => n.toCore.Down ∧ n.Locks env ∧ n.Prepared)
    ⟨fun _ => rfl, locks_start database, prepared_of_empty rfl rfl⟩
    fun _ _ _ h inTime taken =>
      ⟨down_of_step (transition_step taken), h.2.1.step (transition_step taken),
        Prepared.transition h.2.2 h.2.1 h.1 inTime taken⟩

/-- A proposal for the round has been saved, and where it has been `handed` over none for the round is
being saved. -/
structure Submitted (env : Env) (key : RoundKey) (handed : Prop) (n : Node) : Prop where
  up : n.running = true
  locks : n.Locks env
  prepared : n.Prepared
  spent : n.Spent key
  passed : handed → ∀ p ∈ n.saving, p.roundKey ≠ key

/-- The step after which a proposal has been saved or handed over. -/
theorem submitted_of_step {key : RoundKey} {handed : Prop} (up : n.running = true)
    (locks : n.Locks env) (prepared : n.Prepared) (inTime : n.PreparesInTime env e)
    (survives : e.Survives) (taken : n.transition env e = some n') (spent : n'.Spent key)
    (passed : handed → ∀ p ∈ n'.saving, p.roundKey ≠ key) : n'.Submitted env key handed where
  up := ((move_stepRunning (transition_of_running up ▸ taken)).forward up survives).1
  locks := locks.step (transition_step taken)
  prepared := Prepared.transition prepared locks (fun off => by simp [up] at off) inTime taken
  spent := spent
  passed := passed

theorem Submitted.transition {key : RoundKey} {handed : Prop} (h : n.Submitted env key handed)
    (inTime : n.PreparesInTime env e) (survives : e.Survives)
    (taken : n.transition env e = some n') : n'.Submitted env key handed := by
  have move := move_stepRunning (transition_of_running h.up ▸ taken)
  refine submitted_of_step h.up h.locks h.prepared inTime survives taken
    (h.spent.move h.prepared.toUnderway survives move) fun done p member => ?_
  have passed := h.passed done
  rcases saving_of_move survives move with
    same | ⟨id, b, q, -, found, resolved, pending, added, -⟩ | ⟨q, removed⟩
  · exact passed p (same.mem_iff.mp member)
  · obtain rfl | before := mem_cons.mp (added.mem_iff.mp member)
    · obtain ⟨there, named⟩ := mem_of_findBuild found
      rw [h.prepared.resolved_key b there p resolved]
      exact h.spent.pending id pending b there named
    · exact passed p before
  · exact passed p (removed.mem_iff.mp (mem_cons_of_mem _ member))

theorem Submitted.of_reach {key : RoundKey} {handed : Prop} {m : Node}
    (h : n.Submitted env key handed)
    (later : Reach (Node.transition env) (fun n e => n.PreparesInTime env e ∧ e.Survives) n m) :
    m.Submitted env key handed :=
  later.invariant h fun _ _ _ h guard taken => h.transition guard.1 guard.2 taken

/-- A proposal is saved, and handed to the processor, in the round and block number it was built for.
While the process lives none is saved for that round again, and none is handed over again. -/
theorem submits_current (run : Runs env (PreparesInTime env) database n) :
    (∀ id p n', n.PreparesInTime env (.proposalAwaited id) → n.Submits env id p n' →
      p.blockHeader.number = n.blockNumber ∧ p.round = n.round ∧
        ∀ m, Reach (transition env) (fun n e => n.PreparesInTime env e ∧ e.Survives) n' m →
          ∀ id' p' m', m.Submits env id' p' m' →
            ¬ (p'.blockHeader.number = p.blockHeader.number ∧ p'.round = p.round)) ∧
    ∀ ticket p n', n.HandsOver env ticket p n' →
      p.blockHeader.number = n.blockNumber ∧ p.round = n.round ∧
        ∀ m, Reach (transition env) (fun n e => n.PreparesInTime env e ∧ e.Survives) n' m →
          ∀ ticket' p' m', m.HandsOver env ticket' p' m' →
            ¬ (p'.blockHeader.number = p.blockHeader.number ∧ p'.round = p.round) := by
  obtain ⟨-, locks, prepared⟩ := prepared_of_runs run
  constructor
  · intro id p n' inTime submits
    obtain ⟨up, pending, ⟨b, found, resolved⟩, none_left, builds⟩ := submits.cases
    have entered : ¬ n.Entering := fun entering =>
      absurd (inTime.2.1 entering) (by simp [Event.intrudes])
    obtain ⟨key, here⟩ := prepared.roundKey entered found resolved pending
    have current := key.trans here
    refine ⟨congrArg RoundKey.blockNumber current, congrArg RoundKey.round current, ?_⟩
    intro m later id' p' m' again same
    -- After the submission the round has its build, and no other is pending for it.
    have spent : n'.Spent p.roundKey := by
      refine ⟨⟨b, builds.symm ▸ (mem_of_findBuild found).1, key.symm⟩, ?_⟩
      intro id' pending'
      simp [none_left] at pending'
    have start : n'.Submitted env p.roundKey False :=
      submitted_of_step up locks prepared inTime trivial submits.1 spent nofun
    have last := start.of_reach later
    obtain ⟨-, pending', ⟨b', found', resolved'⟩, -⟩ := again.cases
    obtain ⟨member', named'⟩ := mem_of_findBuild found'
    have key' := last.prepared.resolved_key b' member' p' resolved'
    refine last.spent.pending id' pending' b' member' named' (key'.symm.trans ?_)
    simp only [Proposal.roundKey, same.1, same.2]
  · intro ticket p n' handsOver
    obtain ⟨up, removed, still⟩ := handsOver.cases
    have taken : n.transition env (.proposalSaved ticket p) = some n' := handsOver
    have inTime : n.PreparesInTime env (.proposalSaved ticket p) := by
      refine ⟨trivial, fun _ => rfl, fun _ x reached _ => ?_⟩
      rw [show x = n' from some.inj (reached.symm.trans taken), still]
    rcases prepared.saved with none | ⟨q, one, current, spent⟩
    · rw [none] at removed
      exact absurd removed.symm (by simp)
    · rw [one] at removed
      obtain ⟨rfl, none⟩ := cons.inj (perm_singleton.mp removed)
      refine ⟨congrArg RoundKey.blockNumber current, congrArg RoundKey.round current, ?_⟩
      intro m later ticket' p' m' again same
      have spent' : n'.Spent p.roundKey := current ▸ spent.move prepared.toUnderway
        (e := .proposalSaved ticket p) trivial (move_stepRunning (transition_of_running up ▸ taken))
      have start : n'.Submitted env p.roundKey True :=
        submitted_of_step up locks prepared inTime trivial taken spent' (by simp [none])
      refine (start.of_reach later).passed trivial p' (again.cases.2.1.mem_iff.mp (.head _)) ?_
      simp only [Proposal.roundKey, same.1, same.2]

/-- The proposer of round 0 has started its build, and its block prepare timeout has expired. -/
def waitsForBuild : List Event :=
  [.restart true true, succeeds, startsBuilding] ++ replicate 12 succeeds ++
    [.onTimeoutBlockPrepare, .forgeBlock 0]

/-- A prevote of the next round. -/
def nextRoundPrevote (validatorIndex : Nat) : Message := ⟨.prevote, 1, 1, none, validatorIndex, []⟩

/-- Two of four validators are in round 1, and the node follows them. -/
def entersNextRound : List Event :=
  [.processMessage (nextRoundPrevote 1), .messageVerified (nextRoundPrevote 1) true,
    .processMessage (nextRoundPrevote 2), .messageVerified (nextRoundPrevote 2) true,
    .handle ⟨1, 1⟩] ++ replicate 10 succeeds

/-- The build resolves. -/
def buildResolves : Event := .proposalBuilt 0 (some ⟨[8], 0, ⟨[], []⟩, []⟩)

/-- The proposal of the build. -/
def lateProposal : Proposal := .fresh ⟨1, [8], 0⟩ 0 0 []

/-- Whether the call may go on, what the node would save then, and what it does save. -/
def observeSubmission (n : Node) : Bool × RoundKey × List Prepare × Option (List Prepare) :=
  (n.PreparesInTime fourEnv (.proposalAwaited 0), n.current, n.prepares.erase (.waiting 0) ++
      [.saving (n.storage.write (.proposal lateProposal)).issued lateProposal],
    (n.transition fourEnv (.proposalAwaited 0)).map (·.prepares))

theorem submits_of_observed {n : Node} {inTime : Bool} {key : RoundKey} {prepares : List Prepare}
    (observed : n.observeSubmission = (inTime, key, prepares, some prepares)) :
    decide (n.PreparesInTime fourEnv (.proposalAwaited 0)) = inTime ∧ n.current = key ∧ ∃ n', n.Submits fourEnv 0 lateProposal n' := by
  simp only [observeSubmission, Prod.mk.injEq] at observed
  obtain ⟨inTime_eq, key_eq, saving, taken⟩ := observed
  obtain ⟨n', taken, same⟩ := map_eq_some_iff.mp taken
  exact ⟨inTime_eq, key_eq, n', taken, same.trans saving.symm⟩

/-- The proposal is saved in its round, and then handed over in it. -/
theorem submits_current_lateProposal :
    (∃ n n', Runs fourEnv (PreparesInTime fourEnv) genesisHeader n ∧
      n.Submits fourEnv 0 lateProposal n' ∧ n.round = 0 ∧
      lateProposal.blockHeader.number = n.blockNumber ∧
      ∀ m, Reach (transition fourEnv)
          (fun n e => n.PreparesInTime fourEnv e ∧ e.Survives) n' m →
        ∀ id' p' m', m.Submits fourEnv id' p' m' →
          ¬ (p'.blockHeader.number = 1 ∧ p'.round = 0)) ∧
    ∃ n n', Runs fourEnv (PreparesInTime fourEnv) genesisHeader n ∧
      n.HandsOver fourEnv 1 lateProposal n' ∧ n.round = 0 ∧
      lateProposal.blockHeader.number = n.blockNumber := by
  have guarded : Guarded (transition fourEnv) (PreparesInTime fourEnv)
      (start genesisHeader) (waitsForBuild ++ [buildResolves]) := by
    decide +kernel
  have evaluated : (run (transition fourEnv) (start genesisHeader)
      (waitsForBuild ++ [buildResolves])).map observeSubmission =
        some (true, ⟨1, 0⟩, [.saving 1 lateProposal], some [.saving 1 lateProposal]) := by
    decide +kernel
  have guarded' : Guarded (transition fourEnv) (PreparesInTime fourEnv)
      (start genesisHeader) (waitsForBuild ++ [buildResolves, .proposalAwaited 0, .flush]) := by
    decide +kernel
  have evaluated' : (run (transition fourEnv) (start genesisHeader)
      (waitsForBuild ++ [buildResolves, .proposalAwaited 0, .flush])).map
        (fun n => (n.round, (n.transition fourEnv (.proposalSaved 1 lateProposal)).isSome)) =
        some (0, true) := by
    decide +kernel
  constructor
  · obtain ⟨n, run, observed⟩ := Reach.exists_of_run evaluated guarded
    obtain ⟨inTime, key, n', submits⟩ := submits_of_observed observed
    obtain ⟨number, -, once⟩ :=
      (submits_current run).1 0 lateProposal n' (of_decide_eq_true inTime) submits
    exact ⟨n, n', run, submits, congrArg RoundKey.round key, number, once⟩
  · obtain ⟨n, run, observed⟩ := Reach.exists_of_run evaluated' guarded'
    obtain ⟨round, taken⟩ := Prod.mk.inj observed
    obtain ⟨n', handsOver⟩ := isSome_iff_exists.mp taken
    exact ⟨n, n', run, handsOver, round, ((submits_current run).2 1 lateProposal n' handsOver).1⟩

/-- The node has entered round 1 and waits for the store. Its build of round 0 resolves, and the
proposal of round 0 is saved to be processed. -/
theorem exists_stale_submission : ∃ n n', Runs fourEnv (fun _ _ => True) genesisHeader n ∧
      n.Submits fourEnv 0 lateProposal n' ∧ n.round = 1 ∧ lateProposal.round = 0 := by
  have evaluated : (run (transition fourEnv) (start genesisHeader)
      (waitsForBuild ++ entersNextRound ++ [buildResolves])).map observeSubmission =
        some (false, ⟨1, 1⟩, [.saving 4 lateProposal], some [.saving 4 lateProposal]) := by
    decide +kernel
  have guarded : Guarded (transition fourEnv) (fun _ _ => True)
      (start genesisHeader) (waitsForBuild ++ entersNextRound ++ [buildResolves]) :=
    .of_forall fun _ _ _ => trivial
  obtain ⟨n, run, observed⟩ := Reach.exists_of_run evaluated guarded
  obtain ⟨-, key, n', submits⟩ := submits_of_observed observed
  exact ⟨n, n', run, submits, congrArg RoundKey.round key, rfl⟩

end Node

end Mainsail
