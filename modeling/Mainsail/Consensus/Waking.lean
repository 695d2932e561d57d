import Mainsail.Consensus.Written

/-!
# A process that wakes up beside a stored proposal

Where the store stands below the block number of the process and a proposal of round 0 is
loaded, the next write clears that proposal from the store. This is harmless only if the
next write is a state record past the propose step. It is: `run` applies the rules to the
current round state before the peer-to-peer layer is booted, so up to `onProposal` no peer
and no timeout of the node's own proposal can write first.
-/

namespace Mainsail

open RoundState Core Repository Option
open List (cons mem_cons_of_mem)

namespace Core

variable {env : Env} {c c' : Core} {e : Event}

/-- The loaded proposal of round 0 would be cleared by the next write. -/
def Orphaned (c : Core) : Prop :=
  c.running = true ∧ c.storage.blockNumber < c.blockNumber ∧
    (c.roundStates ⟨c.blockNumber, 0⟩).hasProposal = true

/-- A write of the current block number ends it. -/
theorem not_orphaned_of_write {r : Record} (number : r.blockNumber = c.blockNumber)
    (storage : c'.storage = c.storage.write r) (blockNumber : c'.blockNumber = c.blockNumber) :
    ¬ c'.Orphaned := by
  rintro ⟨-, behind, -⟩
  have stands := (Service.blockNumber_write_le c.storage r).2
  rw [storage, blockNumber] at behind
  omega

theorem not_orphaned_persistState (c : Core) (next : Next) : ¬ (c.persistState next).Orphaned :=
  not_orphaned_of_write (c := c) (r := .state c.getState) rfl rfl rfl

/-- No move of a running process makes it so: only a restart does. -/
theorem Orphaned.of_move (orphaned : c'.Orphaned) (heights : c.Heights) (building : c.Building)
    (up : c.running = true) (move : Move env c e c') : c.Orphaned := by
  cases move with
  | persist => exact absurd orphaned (not_orphaned_persistState _ _)
  | saveVote at_ =>
    exact absurd orphaned (not_orphaned_of_write (r := .message _) (heights.signed_eq at_) rfl rfl)
  | addMessage member =>
    exact absurd orphaned
      (not_orphaned_of_write (r := .message _) (heights.message_eq _ member) rfl rfl)
  | addProposal member =>
    exact absurd orphaned
      (not_orphaned_of_write (r := .proposal _) (heights.proposal_eq _ member) rfl rfl)
  | saveProposal found resolved pending =>
    exact absurd orphaned (not_orphaned_of_write (r := .proposal _)
      (building.number_of_live found resolved pending) rfl rfl)
  | advance => exact absurd orphaned.2.2 (by simp [empty, hasProposal, configure])
  | crash => exact absurd orphaned.1 (by simp [crash, off])
  | @deserialized _ key =>
    have same := sameRecords_set
      (sameRecords_deserializePayload (c.roundStates key)) ⟨c.blockNumber, 0⟩
    exact ⟨up, orphaned.2.1, same.hasProposal.symm.trans orphaned.2.2⟩
  | failed | processed =>
    have held := orphaned.2.2
    simp only [setResult, (sameRecords_set
      (sameRecords_setProcessorResult _ _) _).hasProposal] at held
    exact ⟨up, orphaned.2.1, held⟩
  | flush flushed =>
    have behind := orphaned.2.1
    rw [Service.blockNumber_flush flushed] at behind
    exact ⟨up, behind, orphaned.2.2⟩
  | _ => exact orphaned

end Core

namespace Node

variable {env : Env} {n n' : Node} {e : Event}

/-! ## How a rule ends -/

/-- A rule waits for a write, for a lock or for the worker pool, or it throws on a parsed proposal
without a result. Else the handler goes on to the next statement. -/
inductive Ruled (n : Node) (key : RoundKey) (rule : Rule) : Node → Prop
  | stay (decided without : Bool) : Ruled n key rule { n with
      didMajorityPrecommit := decided, didMajorityPrecommitWithoutProposal := without }
  | deserialize : rule = .processProposal →
      Ruled n key rule { n with continuation := some (.deserialize key) }
  | throw (decided : Bool) : rule ≠ .processProposal → (n.roundStates key).getBlock.isSome →
      (n.roundStates key).processorResult = none →
      Ruled n key rule { n with didMajorityPrecommit := decided }.throw
  | lockCommit (block : BlockHeader) : Ruled n key rule { n with
      didMajorityPrecommit := true, continuation := some (.lockCommit block) }
  | persist {m : Node} {next : Next} : m.todo = n.todo ∨ m.todo = .applyCurrent :: n.todo →
      Ruled n key rule (m.persistState next)

theorem ruled_execRule {key : RoundKey} (rule : Rule) :
    n.Ruled key rule (n.execRule env key rule) := by
  cases rule with
  | processProposal =>
    simp only [execRule, processProposal]
    split
    · exact .deserialize rfl
    · exact .stay _ _
  | onProposal | onProposalLocked | onMajorityPrevoteNull =>
    simp only [execRule, onProposal, onProposalLocked, onMajorityPrevoteNull]
    repeat' split
    all_goals first | exact .stay _ _ | exact .persist (.inl rfl)
  | onMajorityPrevote =>
    simp only [execRule, onMajorityPrevote]
    split
    · next guard =>
        split
        · exact .stay _ _
        · next missing =>
            exact .throw _ (by simp) (getBlock_of_hasMajorityPrevotes guard.1) missing
        · exact .stay _ _
        · split <;> exact .persist (.inl rfl)
    · exact .stay _ _
  | onMajorityPrecommit =>
    simp only [execRule, onMajorityPrecommit]
    split
    · next guard =>
        have parsed := getBlock_of_hasMajorityPrecommits guard.1
        split
        · next missing => simp [missing] at parsed
        · next missing => exact .throw true (by simp) parsed missing
        · exact .stay _ _
        · exact .lockCommit _
    · exact .stay _ _
  | onMajorityPrecommitWithoutProposal =>
    simp only [execRule, onMajorityPrecommitWithoutProposal]
    split <;> exact .stay _ _
  | onMinorityWithHigherRound =>
    simp only [execRule, onMinorityWithHigherRound]
    split
    · next guard =>
        rw [startRound, if_pos (Nat.zero_lt_of_lt guard.2.2)]
        exact .persist (.inr rfl)
    · exact .stay _ _
  | onMajorityPrevoteAny | onMajorityPrecommitAny => exact .stay _ _

/-! ## The handler of `run` -/

/-- What no step of a handler changes while `run` is on its way. -/
def rest (n : Node) : List Incoming × List Prepare × List Message × List Proposal × Bool × Bool :=
  (n.processing, n.prepares, n.ownMessages, n.ownProposals, n.booted, n.isDisposed)

/-- `run` on its way to `onProposal` of the current round state. -/
inductive Reaching (n : Node) : Prop
  | begin : n.continuation = some .beginRound ∨ n.continuation = some .roundStarted →
      n.todo = [.applyCurrent, .boot] → Reaching n
  | apply : n.continuation = none → n.todo = [.applyCurrent, .boot] → Reaching n
  | process {todo : List Statement} : n.continuation = none →
      n.todo = .rule .processProposal n.current :: .rule .onProposal n.current :: todo → Reaching n
  | processing {todo : List Statement} : n.continuation = some (.deserialize n.current) ∨
        n.continuation = some (.verifyLockProof n.current) ∨
        n.continuation = some (.process n.current) →
      n.todo = .rule .onProposal n.current :: todo → Reaching n
  | ready {todo : List Statement} : n.continuation = none →
      (n.roundStates n.current).processorResult.isSome = true →
      n.todo = .rule .onProposal n.current :: todo → Reaching n

/-- Nothing but the handler of `run` can write, and it has not booted the peers. -/
structure Waking (n : Node) : Prop where
  processing : n.processing = []
  prepares : n.prepares = []
  ownMessages : n.ownMessages = []
  ownProposals : n.ownProposals = []
  promise : n.proposalPromise = none
  unbooted : n.booted = true → n.isDisposed = true
  reaching : n.isDisposed = true ∨ .boot ∉ n.todo ∨ n.Reaching

/-- What is needed of a handler's step: it leaves everything but its own progress alone. -/
theorem Waking.keep (h : n.Waking) (same : n'.rest = n.rest) (promise : n'.proposalPromise = none)
    (reaching : .boot ∉ n.todo ∨ n.Reaching →
      n'.isDisposed = true ∨ .boot ∉ n'.todo ∨ n'.Reaching) :
    n'.Waking := by
  simp only [rest, Prod.mk.injEq] at same
  obtain ⟨processing, prepares, messages, proposals, booted, disposed⟩ := same
  refine ⟨processing.trans h.processing, prepares.trans h.prepares, messages.trans h.ownMessages,
    proposals.trans h.ownProposals, promise, ?_, ?_⟩
  · rw [booted, disposed]
    exact h.unbooted
  · rcases h.reaching with gone | progress
    · exact .inl (disposed.trans gone)
    · exact reaching progress

theorem waking_throw (h : n.Waking) : n.throw.Waking :=
  h.keep rfl h.promise fun _ => .inr (.inl (by simp [throw]))

variable {statement : Statement} {k : Continuation} {reply : Reply}

/-- The statement `run` is at while it is on its way. -/
theorem Reaching.head (h : n.Reaching) {todo : List Statement}
    (at_ : n.todo = statement :: todo) : statement = .applyCurrent ∨
      statement = .rule .processProposal n.current ∨ statement = .rule .onProposal n.current := by
  cases h with
  | begin _ same | apply _ same => exact .inl (cons.inj (at_.symm.trans same)).1
  | process _ same => exact .inr (.inl (cons.inj (at_.symm.trans same)).1)
  | processing _ same | ready _ _ same => exact .inr (.inr (cons.inj (at_.symm.trans same)).1)

/-- Progress is a matter of the handler, the round states and the position. -/
theorem Reaching.congr (h : n.Reaching) (continuation : n'.continuation = n.continuation)
    (todo : n'.todo = n.todo) (current : n'.current = n.current)
    (roundStates : n'.roundStates = n.roundStates) : n'.Reaching := by
  cases h with
  | begin at_ same => exact .begin (continuation ▸ at_) (todo.trans same)
  | apply free same => exact .apply (continuation.trans free) (todo.trans same)
  | process free same => exact .process (continuation.trans free) (current ▸ todo.trans same)
  | processing at_ same =>
    exact .processing (by rw [continuation, current]; exact at_) (current ▸ todo.trans same)
  | ready free known same =>
    exact .ready (continuation.trans free) (by rw [roundStates, current]; exact known)
      (current ▸ todo.trans same)

/-- At any other statement `run` is over, and peers will not be booted. -/
theorem boot_notMem {todo : List Statement}
    (at_ : n.todo = statement :: todo) (other : statement ≠ .applyCurrent ∧
      statement ≠ .rule .processProposal n.current ∧ statement ≠ .rule .onProposal n.current)
    (progress : .boot ∉ n.todo ∨ n.Reaching) : .boot ∉ todo := by
  rcases progress with absent | reaching
  · rw [at_] at absent
    exact fun member => absent (mem_cons_of_mem _ member)
  · rcases reaching.head at_ with same | same | same
    · exact absurd same other.1
    · exact absurd same other.2.1
    · exact absurd same other.2.2

section

variable {key : RoundKey} {todo : List Statement}

variable (h : n.Waking)
include h

/-- The handler goes on to the statement after this one. -/
theorem Waking.next (at_ : n.todo = statement :: todo) (same : n'.rest = n.rest)
    (promise : n'.proposalPromise = none) (left : n'.todo = todo)
    (reaching : n.Reaching → n'.Reaching) : n'.Waking := by
  refine h.keep same promise ?_
  rintro (absent | before)
  · rw [left]
    rw [at_] at absent
    exact .inr (.inl fun member => absent (mem_cons_of_mem _ member))
  · exact .inr (.inr (reaching before))

theorem waking_processProposal (orphaned : n.Orphaned) (free : n.continuation = none)
    (start : n.current = ⟨n.blockNumber, 0⟩) (at_ : n.todo = .rule .processProposal key :: todo) :
    ({ n with todo := todo }.processProposal key).Waking := by
  have goes (reaching : n.Reaching) :
      key = n.current ∧ ∃ left, todo = .rule .onProposal n.current :: left := by
    cases reaching with
    | process _ same =>
      obtain ⟨head, rfl⟩ := cons.inj (at_.symm.trans same)
      exact ⟨(Statement.rule.inj head).2, _, rfl⟩
    | begin _ same | apply _ same | processing _ same | ready _ _ same => simp [at_] at same
  unfold processProposal
  split
  · refine h.next at_ rfl h.promise rfl fun reaching => ?_
    obtain ⟨rfl, left, same⟩ := goes reaching
    exact .processing (.inl rfl) same
  · next known =>
      refine h.next at_ rfl h.promise rfl fun reaching => ?_
      obtain ⟨rfl, left, same⟩ := goes reaching
      -- The proposal is there, so it is its result that is known.
      have held : (n.roundStates n.current).hasProposal = true := start ▸ orphaned.2.2
      refine .ready free ?_ same
      simpa [held, ne_none_iff_isSome] using known

/-- Once its result is known, the loaded proposal of round 0 is accepted: `onProposal` writes
a state record. -/
theorem waking_onProposal (orphaned : n.Orphaned) (free : n.continuation = none)
    (start : n.position = ⟨n.blockNumber, 0, .propose⟩)
    (at_ : n.todo = .rule .onProposal key :: todo) :
    ({ n with todo := todo }.onProposal key).Orphaned →
      ({ n with todo := todo }.onProposal key).Waking := by
  have round : n.round = 0 := congrArg Position.round start
  have proposing : n.step = .propose := congrArg Position.step start
  have current : n.current = ⟨n.blockNumber, 0⟩ := by simp [current, round]
  have goes : n.Reaching → key = n.current ∧
      (n.roundStates n.current).processorResult.isSome = true := by
    intro reaching
    cases reaching with
    | ready _ known same =>
      obtain ⟨-, rfl⟩ := Statement.rule.inj (cons.inj (at_.symm.trans same)).1
      exact ⟨rfl, known⟩
    | processing at' => simp [free] at at'
    | begin _ same | apply _ same | process _ same => simp [at_] at same
  unfold onProposal
  split
  · next vacant =>
      intro _
      refine h.next at_ rfl h.promise rfl fun reaching => ?_
      obtain ⟨rfl, -⟩ := goes reaching
      have held : (n.roundStates n.current).hasProposal = true := current ▸ orphaned.2.2
      rw [hasProposal,
        show (n.roundStates n.current).proposal = none from vacant] at held
      contradiction
  · next p held =>
      split
      · exact fun orphaned' => absurd orphaned' (not_orphaned_persistState _ _)
      · next guard =>
          intro _
          refine h.next at_ rfl h.promise rfl fun reaching => ?_
          obtain ⟨rfl, known⟩ := goes reaching
          have routed : p.roundKey = n.current := (n.roundStates n.current).proposal_routed p held
          have fresh : p.validRound = none :=
            p.validRound_of_round_zero ((congrArg RoundKey.round routed).trans round)
          exact absurd ⟨proposing, rfl, fresh, known⟩ guard

/-- The other rules are not reached by `run` before `onProposal`. -/
theorem waking_of_rule {rule : Rule} (at_ : n.todo = .rule rule key :: todo)
    (other : rule ≠ .processProposal ∧ rule ≠ .onProposal)
    (ruled : { n with todo := todo }.Ruled key rule n') (orphaned' : n'.Orphaned) : n'.Waking := by
  have unreached : .boot ∉ n.todo ∨ n.Reaching → .boot ∉ todo :=
    boot_notMem at_ ⟨by simp, fun same => other.1 (Statement.rule.inj same).1,
      fun same => other.2 (Statement.rule.inj same).1⟩
  cases ruled with
  | stay | lockCommit =>
    exact h.keep rfl h.promise fun progress => .inr (.inl (unreached progress))
  | deserialize first => exact absurd first other.1
  | throw => exact h.keep rfl h.promise fun _ => .inr (.inl (by simp [throw]))
  | persist => exact absurd orphaned' (not_orphaned_persistState _ _)

end

/-- Inside `#processProposal`, it is the current round state that is processed. -/
theorem Reaching.of_processing (h : n.Reaching) {key : RoundKey}
    (at_ : n.continuation = some (.deserialize key) ∨ n.continuation = some (.verifyLockProof key) ∨
      n.continuation = some (.process key)) :
    key = n.current ∧ ∃ todo, n.todo = .rule .onProposal n.current :: todo := by
  cases h with
  | begin at' => rcases at_ with at_ | at_ | at_ <;> simp [at_] at at'
  | apply free | process free | ready free => rcases at_ with at_ | at_ | at_ <;> simp [at_] at free
  | @processing todo at' same =>
    refine ⟨?_, todo, same⟩
    rcases at_ with at_ | at_ | at_ <;> simpa [at_, eq_comm] using at'

section

variable (h : n.Waking)
include h

/-- The next `await` of `#processProposal`. -/
theorem waking_processing {key : RoundKey}
    (at_ : n.continuation = some (.deserialize key) ∨ n.continuation = some (.verifyLockProof key) ∨
      n.continuation = some (.process key)) {repo : Repository}
    (next : k = .verifyLockProof key ∨ k = .process key) :
    Waking { n with roundStates := repo, continuation := some k } := by
  refine h.keep rfl h.promise ?_
  rintro (absent | reaching)
  · exact .inr (.inl absent)
  · obtain ⟨rfl, todo, same⟩ := reaching.of_processing at_
    refine .inr (.inr (.processing ?_ same))
    rcases next with rfl | rfl
    · exact .inr (.inl rfl)
    · exact .inr (.inr rfl)

/-- The end of `#processProposal`: the result is known. -/
theorem waking_setResult {key : RoundKey} (success : Bool)
    (at_ : n.continuation = some (.deserialize key) ∨ n.continuation = some (.verifyLockProof key) ∨
      n.continuation = some (.process key)) :
    Waking { n with toCore := n.setResult key success } := by
  refine h.keep rfl h.promise ?_
  rintro (absent | reaching)
  · exact .inr (.inl absent)
  · obtain ⟨rfl, todo, same⟩ := reaching.of_processing at_
    refine .inr (.inr (.ready rfl ?_ same))
    change ((n.roundStates.set n.current _) n.current).processorResult.isSome = true
    rw [set_self]
    rfl

/-- A handler that is not at a statement of `run` before `onProposal` goes on. -/
theorem waking_elsewhere (at_ : n.continuation = some k)
    (other : k ≠ .beginRound ∧ k ≠ .roundStarted ∧ k ≠ .deserialize n.current ∧
      k ≠ .verifyLockProof n.current ∧ k ≠ .process n.current)
    (same : n'.rest = n.rest) (promise : n'.proposalPromise = n.proposalPromise)
    (todo : n'.todo = n.todo) : n'.Waking := by
  refine h.keep same (promise.trans h.promise) ?_
  rw [todo]
  rintro (absent | reaching)
  · exact .inr (.inl absent)
  · exfalso
    cases reaching <;> simp_all

theorem waking_resume (held : (n.roundStates n.current).hasProposal = true) (silent : ¬ n.Recording)
    (at_ : n.continuation = some k) (taken : n.resume env reply k = some n')
    (orphaned' : n'.Orphaned) : n'.Waking := by
  cases k with
  | persisted | next | votes | signed | saved => exact absurd (by simp [Recording, at_]) silent
  | beginRound =>
    cases taken
    refine h.keep rfl rfl ?_
    rintro (absent | reaching)
    · exact .inr (.inl absent)
    · cases disposed : n.isDisposed with
      | true => exact .inl disposed
      | false =>
        cases reaching with
        | begin _ same =>
          exact .inr (.inr (.begin (.inr (by simp [beginRound, disposed])) same))
        | _ => simp_all
  | roundStarted =>
    cases taken
    have skips : n.roundStarted env reply.value = { n with continuation := none } := by
      simp [roundStarted, held]
    rw [skips]
    refine h.keep rfl h.promise ?_
    rintro (absent | reaching)
    · exact .inr (.inl absent)
    · cases reaching with
      | begin _ same => exact .inr (.inr (.apply rfl same))
      | _ => simp_all
  | deserialize key =>
    simp only [resume] at taken
    split at taken
    · cases taken
      exact waking_setResult h false (.inl at_)
    · cases taken
      exact waking_processing h (.inl at_) (.inl rfl)
  | verifyLockProof key =>
    simp only [resume] at taken
    split at taken
    · cases taken
      exact waking_setResult h false (.inr (.inl at_))
    · split at taken
      · cases taken
        exact waking_processing h (.inr (.inl at_)) (.inr rfl)
      · cases taken
        exact waking_setResult h false (.inr (.inl at_))
  | process key =>
    cases taken
    exact waking_setResult h _ (.inr (.inr at_))
  | processBlock commit =>
    simp only [resume] at taken
    split at taken <;>
    · cases taken
      exact waking_elsewhere h at_ (by simp) rfl rfl rfl
  | lockCommit block =>
    obtain ⟨-, rfl⟩ := of_ite_none_eq_some taken
    exact waking_elsewhere h at_ (by simp) rfl rfl rfl
  | commitUnit block =>
    obtain ⟨-, taken⟩ := ite_none_right_eq_some.mp taken
    split at taken
    · cases taken
      exact waking_throw h
    · cases taken
      exact waking_elsewhere h at_ (by simp) rfl rfl rfl
  | storeCommit block =>
    simp only [resume] at taken
    split at taken
    · cases taken
      exact waking_throw h
    · cases taken
      exact waking_elsewhere h at_ (by simp) rfl rfl rfl
  | committed block =>
    simp only [resume] at taken
    split at taken
    · cases taken
      exact waking_throw h
    · cases taken
      exact absurd orphaned'.2.2 (by simp [advance, startRound, enterRound, beginRound,
        empty, hasProposal, configure])

theorem waking_applyCurrent (free : n.continuation = none) {todo : List Statement}
    (at_ : n.todo = .applyCurrent :: todo) :
    ({ n with todo := todo }.exec env .applyCurrent).Waking := by
  have rest : .boot ∉ n.todo → .boot ∉ todo := by
    rw [at_]
    exact fun absent member => absent (mem_cons_of_mem _ member)
  simp only [exec]
  split
  · next disposed =>
      exact h.keep rfl h.promise fun _ => .inl disposed
  · simp only [applyRules, show n.current.blockNumber = n.blockNumber from rfl, if_true]
    refine h.keep rfl h.promise ?_
    rintro (absent | reaching)
    · refine .inr (.inl ?_)
      simpa using rest absent
    · exact .inr (.inr (.process free rfl))

/-- Peers are booted at the end of `run`, which has not come by `onProposal` only where it was
disposed. -/
theorem waking_boot {todo : List Statement} (at_ : n.todo = .boot :: todo) :
    Waking { n with todo := todo, booted := true } := by
  have disposed : n.isDisposed = true := by
    rcases h.reaching with disposed | absent | reaching
    · exact disposed
    · simp [at_] at absent
    · rcases reaching.head at_ with same | same | same <;> contradiction
  exact { h with unbooted := fun _ => disposed, reaching := .inl disposed }

/-- The handler that holds the lock takes one step. -/
theorem waking_goOn (orphaned : n.Orphaned)
    (start : n.position = ⟨n.blockNumber, 0, .propose⟩) (silent : ¬ n.Recording)
    (taken : n.goOn env reply = some n') (orphaned' : n'.Orphaned) : n'.Waking := by
  have current : n.current = ⟨n.blockNumber, 0⟩ := by
    simp [current, show n.round = 0 from congrArg Position.round start]
  unfold goOn at taken
  split at taken
  · next k at_ => exact waking_resume h (current ▸ orphaned.2.2) silent at_ taken orphaned'
  · next free =>
      split at taken
      · contradiction
      · next statement todo at_ =>
          cases taken
          cases statement with
          | rule rule key =>
            by_cases first : rule = .processProposal
            · subst first
              exact waking_processProposal h orphaned free current at_
            · by_cases second : rule = .onProposal
              · subst second
                exact waking_onProposal h orphaned free start at_ orphaned'
              · exact waking_of_rule h at_ ⟨first, second⟩ (ruled_execRule rule) orphaned'
          | applyCurrent => exact waking_applyCurrent h free at_
          | unlockCommit =>
            exact h.keep rfl h.promise fun progress =>
              .inr (.inl (boot_notMem at_ (by simp) progress))
          | boot => exact waking_boot h at_

end

theorem todo_of_idle (h : n.idle = true) : n.todo = [] := by
  simp only [idle, Bool.and_eq_true, List.isEmpty_iff] at h
  exact h.2

/-- Beside the handler of `run` nothing gets far enough to write. -/
theorem waking_stepRunning (h : n.Waking) (orphaned : n.Orphaned)
    (start : n.position = ⟨n.blockNumber, 0, .propose⟩) (silent : ¬ n.Recording)
    (taken : n.stepRunning env e = some n') (orphaned' : n'.Orphaned) : n'.Waking := by
  -- Nothing is taken from a peer before the boot, nor from anyone once disposed.
  have refuses (key : RoundKey) : n.accepts false key = false := by
    cases booted : n.booted with
    | false => simp [accepts, booted]
    | true => simp [accepts, h.unbooted booted]
  have persists {m : Node} {next : Next} (same : m.persistState next = n') : n'.Waking := by
    subst same
    exact absurd orphaned' (not_orphaned_persistState _ _)
  cases e with
  | resume reply => exact waking_goOn h orphaned start silent taken orphaned'
  | abort =>
    obtain ⟨-, rfl⟩ := of_ite_none_eq_some taken
    exact waking_throw h
  | handle key =>
    obtain ⟨⟨idle, -, same⟩, rfl⟩ := of_ite_eq_some taken
    simp only [applyRules, if_pos same]
    refine h.keep rfl h.promise fun _ => .inr (.inl ?_)
    simp [todo_of_idle idle]
  | handleCommitState commit =>
    obtain ⟨⟨idle, -, -⟩, rfl⟩ := of_ite_eq_some taken
    refine h.keep rfl h.promise fun _ => .inr (.inl ?_)
    simp [todo_of_idle idle]
  | onTimeoutPropose blockNumber round =>
    simp only [stepRunning, onTimeoutPropose, ite_none_right_eq_some, some.injEq] at taken
    exact persists taken.2
  | onTimeoutPrevote blockNumber round =>
    simp only [stepRunning, onTimeoutPrevote, ite_none_right_eq_some, some.injEq] at taken
    exact persists taken.2
  | onTimeoutPrecommit blockNumber round =>
    simp only [stepRunning, onTimeoutPrecommit, ite_none_right_eq_some, startRound,
      Nat.succ_pos, if_true, some.injEq] at taken
    exact persists taken.2
  | onTimeoutBlockPrepare => simp [stepRunning, onTimeoutBlockPrepare, h.promise] at taken
  | forgeBlock id =>
    simp only [stepRunning, forgeBlock] at taken
    split at taken
    · contradiction
    · obtain ⟨-, rfl⟩ := of_ite_eq_some taken
      exact h.keep rfl h.promise fun progress =>
        .inr (progress.imp_right (·.congr rfl rfl rfl rfl))
  | proposalBuilt id built =>
    simp only [stepRunning, proposalBuilt] at taken
    split at taken
    · contradiction
    · split at taken
      · contradiction
      · cases taken
        exact h.keep rfl h.promise fun progress =>
        .inr (progress.imp_right (·.congr rfl rfl rfl rfl))
  | proposalAwaited id => simp [stepRunning, proposalAwaited, h.prepares] at taken
  | proposalSaved ticket p => simp [stepRunning, proposalSaved, h.prepares] at taken
  | processMessage m => simp [stepRunning, processMessage, h.ownMessages, refuses] at taken
  | messageVerified m valid => simp [stepRunning, messageVerified, h.processing] at taken
  | receiveProposal p => simp [stepRunning, receiveProposal, h.ownProposals, refuses] at taken
  | proposalVerified p valid => simp [stepRunning, proposalVerified, h.processing] at taken
  | incomingSaved ticket => simp [stepRunning, incomingSaved, h.processing] at taken
  | flush =>
    simp only [stepRunning, map_eq_some_iff] at taken
    obtain ⟨storage, -, rfl⟩ := taken
    exact h.keep rfl h.promise fun progress =>
        .inr (progress.imp_right (·.congr rfl rfl rfl rfl))
  | dispose =>
    cases taken
    exact { h with unbooted := fun _ => rfl, reaching := .inl rfl }
  | crash kept =>
    cases taken
    exact absurd orphaned'.1 (by simp [off, Core.crash, Core.off])
  | restart readable parses => contradiction

/-- A node that is down has no handler. -/
def Down (n : Node) : Prop := n.running = false → n = off n.toCore

theorem down_of_transition (taken : n.transition env e = some n') : n'.Down := by
  intro stopped
  unfold transition at taken
  split at taken
  · next up =>
      cases e with
      | crash kept =>
        cases taken
        rfl
      | _ => simp [((move_stepRunning taken).forward up trivial).1] at stopped
  · split at taken
    · unfold restart at taken
      split at taken
      · contradiction
      · cases taken
        contradiction
    · contradiction

theorem waking_restart {readable parses : Bool} (core : n.toCore.Down) (down : n.Down)
    (stopped : n.running = false) (taken : n.restart env readable parses = some n') :
    n'.Waking := by
  unfold restart at taken
  split at taken
  · contradiction
  · cases taken
    have memory := core stopped
    have control := down stopped
    constructor
    · exact congrArg processing memory
    · exact congrArg prepares memory
    · exact congrArg ownMessages memory
    · exact congrArg ownProposals memory
    · exact congrArg proposalPromise memory
    · intro booted
      have : n.booted = false := congrArg Node.booted control
      exact absurd (this.symm.trans booted) (by simp)
    · exact .inr (.inr (.begin (.inl rfl) rfl))

end Node

end Mainsail
