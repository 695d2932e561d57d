import Mainsail.Consensus.Waking

/-!
# The commit path

`onMajorityPrecommit` takes the commit lock exclusively, commits, and starts the next block
number while it still holds the lock. `startRound` runs `applyRules` there, and `applyRules`
reaches `onMajorityPrecommit`, which would wait for the lock it runs under. The locks cannot
be entered twice by one call.

It does not come to that. The exclusive callback begins when the processors have left, and
none enters until it ends. So the round states it has cleared stay empty, and on an empty
round state no rule does anything. What a handler waits for in between is never a lock: the
handlers do not wait for the processors, nor the processors for the handlers they call.
-/

namespace Mainsail

open RoundState Transition Incoming Option List

/-- What a suspended call waits for. -/
inductive Awaited
  | handlerLock
  | commitLock
  | storage
  | eventDispatcher
  | validator
  | workerPool
  | processor
  deriving DecidableEq

/-- What the handler waits for. A vote is handed to the message processor in the
background, so the loop of the votes waits for the signature and for the store only. -/
def Continuation.awaits : Continuation → Option Awaited
  | .persisted .. | .saved .. => some .storage
  | .next _ | .beginRound | .roundStarted => some .eventDispatcher
  | .votes .. => none
  | .signed .. => some .validator
  | .deserialize _ | .verifyLockProof _ => some .workerPool
  | .process _ | .processBlock _ => some .processor
  | .lockCommit _ => some .commitLock
  | .commitUnit _ | .storeCommit _ | .committed _ => some .processor

/-- What a processor waits for under the commit lock. Its call of `handle` is the last thing
it does, and it does not wait for it. -/
def Incoming.awaits : Incoming → Option Awaited
  | .message _ | .proposal _ => some .workerPool
  | .saving _ => some .storage

/-- How a processor goes on, with what the check of the signature says. -/
def Incoming.settles (valid : Bool) : Incoming → Event
  | .message m => .messageVerified m valid
  | .proposal p => .proposalVerified p valid
  | .saving ticket => .incomingSaved ticket

/-- What a call waits for before its first statement. -/
def Event.awaits : Event → Option Awaited
  | .handle _ | .handleCommitState _ | .onTimeoutPropose .. | .onTimeoutPrevote ..
  | .onTimeoutPrecommit .. | .restart .. => some .handlerLock
  | .processMessage _ | .receiveProposal _ => some .commitLock
  | _ => none

/-- Steps of calls that do not hold the handler lock. -/
def Event.IsBeside : Event → Prop
  | .resume _ | .abort | .handle _ | .handleCommitState _ | .onTimeoutPropose ..
  | .onTimeoutPrevote .. | .onTimeoutPrecommit .. | .crash _ | .restart .. => False
  | _ => True

namespace Core

variable {env : Env} {c c' : Core} {e : Event}

/-- Not in the exclusive callback. -/
structure Outside (c : Core) : Prop where
  exclusive : c.exclusive = false
  commitUnit : ∀ block, c.continuation ≠ some (.commitUnit block)
  storeCommit : ∀ block, c.continuation ≠ some (.storeCommit block)
  committed : ∀ block, c.continuation ≠ some (.committed block)

theorem Outside.of_free (open_ : c.exclusive = false) (free : c.continuation = none) :
    c.Outside := by
  constructor <;> simp [open_, free]

/-- The callback is entered by waiting for the commit lock, and in no other way. -/
theorem Outside.move (h : c.Outside) (move : Move env c e c') :
    c'.Outside ∨ c'.exclusive = true ∧ ∃ block, c'.continuation = some (.commitUnit block) := by
  have elsewhere {m : Core} {k : Continuation} (same : m.exclusive = c.exclusive)
      (at_ : m.continuation = some k) (unit : ∀ block, k ≠ .commitUnit block)
      (store : ∀ block, k ≠ .storeCommit block) (done : ∀ block, k ≠ .committed block) :
      m.Outside := by
    constructor <;> simp [same, h.exclusive, at_, unit, store, done]
  cases move with
  | lockCommit => exact .inr ⟨rfl, _, rfl⟩
  | commitUnit at_ => exact absurd at_ (h.commitUnit _)
  | storeCommit at_ => exact absurd at_ (h.storeCommit _)
  | advance disposed at_ => exact absurd at_ (h.committed _)
  | throw | crash => exact .inl (.of_free rfl rfl)
  | leave | failed | processed | build => exact .inl (.of_free h.exclusive rfl)
  | unlockCommit free => exact .inl (.of_free rfl free)
  | begin disposed =>
    cases disposed with
    | true => exact .inl (.of_free h.exclusive rfl)
    | false => exact .inl (elsewhere rfl rfl (by simp) (by simp) (by simp))
  | deserialize | deserialized | lockProofVerified | persist | persisted | cast | sign
  | saveVote | voteSaved | processBlock | decideCommit | decide =>
    exact .inl (elsewhere rfl rfl (by simp) (by simp) (by simp))
  | _ => exact .inl { h with }

end Core

namespace Node

variable {env : Env} {n n' : Node} {e : Event} {key : RoundKey}

/-! ## Steps beside the handler -/

/-- The handler has not moved, nor has anything entered the commit lock it holds. -/
structure Beside (n n' : Node) : Prop where
  exclusive : n'.exclusive = n.exclusive
  continuation : n'.continuation = n.continuation
  todo : n'.todo = n.todo
  inside : n.exclusive = true → n.processing = [] →
    n'.processing = [] ∧ n'.roundStates = n.roundStates

theorem beside_stepRunning (taken : n.stepRunning env e = some n') (beside : e.IsBeside) :
    n.Beside n' := by
  cases e with
  | onTimeoutBlockPrepare =>
    simp only [stepRunning, onTimeoutBlockPrepare, map_eq_some_iff] at taken
    obtain ⟨id, -, rfl⟩ := taken
    exact ⟨rfl, rfl, rfl, fun _ empty => ⟨empty, rfl⟩⟩
  | forgeBlock id =>
    simp only [stepRunning, forgeBlock] at taken
    split at taken
    · contradiction
    · obtain ⟨-, rfl⟩ := of_ite_eq_some taken
      exact ⟨rfl, rfl, rfl, fun _ empty => ⟨empty, rfl⟩⟩
  | proposalBuilt id built =>
    simp only [stepRunning, proposalBuilt] at taken
    split at taken
    · contradiction
    · split at taken
      · contradiction
      · cases taken
        exact ⟨rfl, rfl, rfl, fun _ empty => ⟨empty, rfl⟩⟩
  | proposalAwaited id =>
    obtain ⟨-, taken⟩ := ite_none_right_eq_some.mp taken
    repeat' split at taken
    all_goals first
      | contradiction
      | obtain rfl := some.inj taken; exact ⟨rfl, rfl, rfl, fun _ empty => ⟨empty, rfl⟩⟩
  | proposalSaved ticket p =>
    obtain ⟨-, rfl⟩ := of_ite_eq_some taken
    exact ⟨rfl, rfl, rfl, fun _ empty => ⟨empty, rfl⟩⟩
  | processMessage | receiveProposal =>
    obtain ⟨⟨accepted, -⟩, rfl⟩ := of_ite_eq_some taken
    refine ⟨rfl, rfl, rfl, fun closed _ => ?_⟩
    simp [(of_accepts accepted).1] at closed
  | messageVerified | proposalVerified =>
    obtain ⟨inside, taken⟩ := ite_none_right_eq_some.mp taken
    split at taken <;> obtain rfl := some.inj taken <;>
      exact ⟨rfl, rfl, rfl, fun _ empty => absurd inside (by simp [empty])⟩
  | incomingSaved ticket =>
    obtain ⟨⟨inside, -⟩, rfl⟩ := of_ite_eq_some taken
    exact ⟨rfl, rfl, rfl, fun _ empty => absurd inside (by simp [empty])⟩
  | flush =>
    simp only [stepRunning, map_eq_some_iff] at taken
    obtain ⟨storage, -, rfl⟩ := taken
    exact ⟨rfl, rfl, rfl, fun _ empty => ⟨empty, rfl⟩⟩
  | dispose =>
    cases taken
    exact ⟨rfl, rfl, rfl, fun _ empty => ⟨empty, rfl⟩⟩
  | _ => contradiction

/-- While the handler is at work no other begins: it goes on or throws, the process ends, or the
step is one beside it. -/
theorem stepRunning_of_busy (busy : n.idle = false) (taken : n.stepRunning env e = some n') :
    (∃ reply, n.goOn env reply = some n') ∨ e = .abort ∧ n' = n.throw ∨
      (∃ kept, n' = off (n.toCore.crash kept)) ∨ n.Beside n' := by
  cases e with
  | resume reply => exact .inl ⟨reply, taken⟩
  | abort =>
    obtain ⟨-, rfl⟩ := of_ite_none_eq_some taken
    exact .inr (.inl ⟨rfl, rfl⟩)
  | crash kept =>
    cases taken
    exact .inr (.inr (.inl ⟨kept, rfl⟩))
  | restart readable parses => contradiction
  | handle | handleCommitState | onTimeoutPropose | onTimeoutPrevote | onTimeoutPrecommit =>
    obtain ⟨⟨idle, -⟩, -⟩ := of_ite_eq_some taken
    simp [busy] at idle
  | _ => exact .inr (.inr (.inr (beside_stepRunning taken trivial)))

variable {reply : Reply} {block : BlockHeader}

/-- The statements of `n'` are those that `n` had before it, after this one. -/
inductive Follows (env : Env) (n n' : Node) : Prop
  | same : n'.todo = n.todo → Follows env n n'
  | dropped : n'.todo = [] → Follows env n n'
  | startRound : n'.todo = .applyCurrent :: n.todo → Follows env n n'
  | committed (block : BlockHeader) : n.continuation = some (.committed block) →
      n'.todo = .applyCurrent :: .unlockCommit :: n.todo → Follows env n n'
  | applyRules (key : RoundKey) : n' = n.applyRules key → Follows env n n'
  | exec {statement : Statement} {todo : List Statement} : n.continuation = none →
      n.todo = statement :: todo → n' = { n with todo := todo }.exec env statement →
      Follows env n n'

theorem follows_resume {k : Continuation} (at_ : n.continuation = some k)
    (taken : n.resume env reply k = some n') : Follows env n n' := by
  cases k with
  | committed block =>
    simp only [resume] at taken
    split at taken
    · cases taken
      exact .dropped rfl
    · cases taken
      exact .committed block at_ rfl
  | next next =>
    cases taken
    cases next <;> exact .same rfl
  | votes type value indices =>
    cases indices <;> obtain rfl := some.inj taken <;> exact .same rfl
  | roundStarted =>
    cases taken
    simp only [roundStarted]
    split <;> exact .same rfl
  | _ =>
    simp only [resume] at taken
    repeat' split at taken
    all_goals first
      | contradiction
      | obtain rfl := some.inj taken; first | exact .same rfl | exact .dropped rfl

theorem follows_stepRunning (taken : n.stepRunning env e = some n') : Follows env n n' := by
  cases e with
  | resume reply =>
    simp only [stepRunning, goOn] at taken
    split at taken
    · next at_ => exact follows_resume at_ taken
    · next free =>
        split at taken
        · contradiction
        · next at_ => exact .exec free at_ (some.inj taken).symm
  | abort =>
    obtain ⟨-, rfl⟩ := of_ite_none_eq_some taken
    exact .dropped rfl
  | handle key =>
    simp only [stepRunning, handle, ite_none_right_eq_some, some.injEq] at taken
    exact .applyRules key taken.2.symm
  | onTimeoutPrecommit blockNumber round =>
    obtain ⟨-, rfl⟩ := of_ite_eq_some taken
    exact .startRound rfl
  | crash kept =>
    cases taken
    exact .dropped rfl
  | handleCommitState | onTimeoutPropose | onTimeoutPrevote =>
    obtain ⟨-, rfl⟩ := of_ite_eq_some taken
    exact .same rfl
  | restart readable parses => contradiction
  | _ => exact .same (beside_stepRunning taken trivial).todo

/-! ## The release of the lock -/

/-- The running handler has no commit lock to give back. -/
def Clear (n : Node) : Prop := .unlockCommit ∉ n.todo

theorem Clear.congr (h : n.Clear) (same : n'.todo = n.todo) : n'.Clear := by
  rw [Clear, same]
  exact h

theorem clear_throw : n.throw.Clear := not_mem_nil

section

variable (h : n.Clear)
include h

theorem Clear.applyRules : (n.applyRules key).Clear := by
  rw [Node.applyRules]
  split
  · simpa [Clear] using h
  · exact h

theorem Clear.exec (statement : Statement) : (n.exec env statement).Clear := by
  cases statement with
  | rule rule key =>
    have ruled := @ruled_execRule env n key rule
    rw [Node.exec]
    generalize n.execRule env key rule = m at ruled ⊢
    cases ruled with
    | throw => exact clear_throw
    | persist todo =>
      obtain todo | todo := todo
      · exact h.congr todo
      · simpa [Clear, persistState, todo] using h
    | _ => exact h.congr rfl
  | applyCurrent =>
    simp only [Node.exec]
    split
    · exact h
    · exact h.applyRules
  | unlockCommit | boot => exact h.congr rfl

/-- Only the end of a commit has the lock to give back. -/
theorem Clear.stepRunning (outside : n.toCore.Outside)
    (taken : n.stepRunning env e = some n') : n'.Clear := by
  cases follows_stepRunning taken with
  | same todo => exact h.congr todo
  | dropped todo => simp [Clear, todo]
  | startRound todo => simpa [Clear, todo] using h
  | committed block at_ => exact absurd at_ (outside.committed block)
  | applyRules key same => exact same ▸ h.applyRules
  | @exec statement todo _ at_ same =>
    have rest : Clear { n with todo := todo } := fun member =>
      h (at_ ▸ mem_cons_of_mem _ member)
    exact same ▸ rest.exec statement

end

/-! ## Rules on an empty round state -/

/-- Without a proposal and without votes no guard of a rule holds. -/
theorem execRule_empty (empty : n.roundStates = .empty) (rule : Rule) :
    n.execRule env key rule = n := by
  have at_ : n.roundStates key = .configure := congrFun empty key
  cases rule <;> simp [execRule, processProposal, onProposal, onProposalLocked, onMajorityPrevote,
      onMajorityPrevoteNull, onMajorityPrecommit, onMajorityPrecommitWithoutProposal,
      onMinorityWithHigherRound, at_, configure, hasProposal,
      hasMajorityPrevotes, hasMajorityPrevotesNull,
      hasMajorityPrecommits, deserializedHash,
      hasMajorityPrecommitsWithoutProposal,
      hasMinorityPrevotesOrPrecommits, Votes.empty, Votes.size, isMajority,
      isMinority]

/-! ## The callback that holds the lock -/

/-- The statements `startRound` runs on the new block number. -/
def Statement.OfRound : Statement → Prop
  | .rule .. | .applyCurrent => True
  | .unlockCommit | .boot => False

/-- Where the exclusive callback is. While it waits for the processors that are still inside,
they may come to an end. From then on nothing is inside but itself. -/
inductive CommitPhase (n : Node) : Prop
  | outside : n.toCore.Outside → n.Clear → CommitPhase n
  | draining (block : BlockHeader) : n.exclusive = true →
      n.continuation = some (.commitUnit block) → n.Clear → CommitPhase n
  | committing (block : BlockHeader) : n.exclusive = true → n.processing = [] →
      n.continuation = some (.storeCommit block) ∨ n.continuation = some (.committed block) →
      n.Clear → CommitPhase n
  | starting (before after : List Statement) : n.exclusive = true → n.processing = [] →
      n.roundStates = .empty → n.continuation = none ∨ n.continuation = some .roundStarted →
      n.todo = before ++ .unlockCommit :: after → (∀ s ∈ before, Statement.OfRound s) →
      .unlockCommit ∉ after → CommitPhase n

/-- The statements left until the lock is given back. -/
def stepsToUnlock : List Statement → Nat
  | [] => 0
  | .unlockCommit :: _ => 1
  | .applyCurrent :: todo => 11 + stepsToUnlock todo
  | .rule .. :: todo | .boot :: todo => 1 + stepsToUnlock todo

/-- What is left of the exclusive callback. -/
def commitRank (n : Node) : Nat :=
  match n.continuation with
  | some (.commitUnit _) => 16
  | some (.storeCommit _) => 15
  | some (.committed _) => 14
  | some .roundStarted => 1 + stepsToUnlock n.todo
  | _ => stepsToUnlock n.todo

theorem CommitPhase.throw : n.throw.CommitPhase :=
  .outside (.of_free rfl rfl) clear_throw

theorem CommitPhase.beside (h : n.CommitPhase) (beside : n.Beside n') : n'.CommitPhase := by
  cases h with
  | outside outside clear =>
    exact .outside ⟨beside.exclusive ▸ outside.exclusive, beside.continuation ▸ outside.commitUnit,
      beside.continuation ▸ outside.storeCommit, beside.continuation ▸ outside.committed⟩
      (clear.congr beside.todo)
  | draining block closed at_ clear =>
    exact .draining block (beside.exclusive ▸ closed) (beside.continuation ▸ at_)
      (clear.congr beside.todo)
  | committing block closed empty at_ clear =>
    exact .committing block (beside.exclusive ▸ closed) (beside.inside closed empty).1
      (beside.continuation ▸ at_) (clear.congr beside.todo)
  | starting before after closed empty cleared at_ todo ofRound once =>
    obtain ⟨empty', same⟩ := beside.inside closed empty
    exact .starting before after (beside.exclusive ▸ closed) empty' (same.trans cleared)
      (beside.continuation ▸ at_) (beside.todo.trans todo) ofRound once

/-- One step of the callback, once nothing else is inside: it can be taken whatever the
awaited call returns, and brings the end of the callback closer. -/
def Advances (env : Env) (n : Node) : Prop :=
  ∀ reply, ∃ n', n.goOn env reply = some n' ∧ n'.CommitPhase ∧
    (n'.exclusive = true → n'.processing = [] ∧ n'.commitRank < n.commitRank)

section

variable (closed : n.exclusive = true)
include closed

theorem advances_draining (at_ : n.continuation = some (.commitUnit block)) (clear : n.Clear)
    (empty : n.processing = []) : n.Advances env := by
  intro reply
  simp only [goOn, at_, resume, if_pos empty]
  split
  · exact ⟨_, rfl, .throw, by simp [Node.throw]⟩
  · refine ⟨_, rfl, .committing block closed empty (.inl rfl) (clear.congr rfl), fun _ => ⟨empty, ?_⟩⟩
    simp [commitRank, at_]

variable (empty : n.processing = [])
include empty

theorem advances_committing
    (at_ : n.continuation = some (.storeCommit block) ∨ n.continuation = some (.committed block))
    (clear : n.Clear) : n.Advances env := by
  intro reply
  obtain at_ | at_ := at_
  · simp only [goOn, at_, resume]
    split
    · exact ⟨_, rfl, .throw, by simp [Node.throw]⟩
    · refine ⟨_, rfl, .committing block closed empty (.inr rfl) (clear.congr rfl),
        fun _ => ⟨empty, ?_⟩⟩
      simp [commitRank, at_]
  · simp only [goOn, at_, resume]
    split
    · exact ⟨_, rfl, .throw, by simp [Node.throw]⟩
    · refine ⟨_, rfl, ?_, fun _ => ⟨empty, ?_⟩⟩
      · refine .starting [.applyCurrent] n.todo closed empty rfl ?_ rfl ?_ clear
        · show (if n.isDisposed then none else some Continuation.roundStarted) = _ ∨
            (if n.isDisposed then none else some Continuation.roundStarted) = _
          cases n.isDisposed <;> simp
        · simp [Statement.OfRound]
      · simp only [commitRank, at_, advance, startRound, Nat.lt_irrefl, if_false, enterRound,
          beginRound]
        cases n.isDisposed <;> simp [stepsToUnlock]

/-- Nothing of the new block number is known yet, so `applyRules` passes by. -/
theorem advances_starting {before after : List Statement} (cleared : n.roundStates = .empty)
    (at_ : n.continuation = none ∨ n.continuation = some .roundStarted)
    (todo : n.todo = before ++ .unlockCommit :: after) (ofRound : ∀ s ∈ before, Statement.OfRound s)
    (once : .unlockCommit ∉ after) : n.Advances env := by
  intro reply
  obtain free | at_ := at_
  · cases before with
    | nil =>
      simp only [goOn, free, todo, nil_append, exec]
      exact ⟨_, rfl, .outside (.of_free rfl rfl) once, by simp⟩
    | cons statement before =>
      have rest : ∀ s ∈ before, Statement.OfRound s := fun s member =>
        ofRound s (mem_cons_of_mem _ member)
      simp only [goOn, free, todo, cons_append]
      refine ⟨_, rfl, ?_⟩
      cases statement with
      | unlockCommit | boot => exact absurd (ofRound _ (mem_cons_self ..)) id
      | rule rule key =>
        rw [exec, execRule_empty (n := { n with todo := before ++ .unlockCommit :: after }) cleared]
        refine ⟨.starting before after closed empty cleared (.inl free) rfl rest once,
          fun _ => ⟨empty, ?_⟩⟩
        simp [commitRank, free, todo, stepsToUnlock]
      | applyCurrent =>
        simp only [exec, applyRules, Core.current, if_true]
        split
        · refine ⟨.starting before after closed empty cleared (.inl free) rfl rest once,
            fun _ => ⟨empty, ?_⟩⟩
          simp [commitRank, free, todo, stepsToUnlock]
        · refine ⟨.starting (_ :: _ :: _ :: _ :: _ :: _ :: _ :: _ :: _ :: _ :: before) after
            closed empty cleared (.inl free) rfl ?_ once, fun _ => ⟨empty, ?_⟩⟩
          · simpa [Statement.OfRound] using rest
          · simp only [commitRank, free, todo, stepsToUnlock, cons_append]
            omega
  · simp only [goOn, at_, resume, roundStarted]
    split
    all_goals
      refine ⟨_, rfl, .starting before after closed empty cleared (.inl rfl) todo ofRound once,
        fun _ => ⟨empty, ?_⟩⟩
      simp [commitRank, at_]

end

section

variable (h : n.CommitPhase)
include h

section

variable (closed : n.exclusive = true)
include closed

theorem CommitPhase.advances (empty : n.processing = []) : n.Advances env := by
  cases h with
  | outside outside => simp [outside.exclusive] at closed
  | draining block closed at_ clear => exact advances_draining closed at_ clear empty
  | committing block closed empty at_ clear => exact advances_committing closed empty at_ clear
  | starting before after closed empty cleared at_ todo ofRound once =>
    exact advances_starting closed empty cleared at_ todo ofRound once

theorem CommitPhase.busy : n.idle = false := by
  cases h with
  | outside outside => simp [outside.exclusive] at closed
  | draining block _ at_ => simp [idle, at_]
  | committing block _ _ at_ => obtain at_ | at_ := at_ <;> simp [idle, at_]
  | starting before after _ _ _ _ todo => simp [idle, todo]

theorem CommitPhase.goOn (taken : n.goOn env reply = some n') : n'.CommitPhase := by
  by_cases empty : n.processing = []
  · have advances : n.Advances env := h.advances closed empty
    obtain ⟨m, same, phase, -⟩ := advances reply
    obtain rfl := some.inj (same.symm.trans taken)
    exact phase
  · -- The callback waits for the processors.
    cases h with
    | outside outside => simp [outside.exclusive] at closed
    | draining block _ at_ => simp [Node.goOn, at_, resume, empty] at taken
    | committing _ _ none | starting _ _ _ none => exact absurd none empty

end

theorem CommitPhase.stepRunning (taken : n.stepRunning env e = some n') : n'.CommitPhase := by
  cases closed : n.exclusive with
  | false =>
    cases h with
    | outside outside clear =>
      have clear' := clear.stepRunning outside taken
      obtain outside' | ⟨closed', block, at_⟩ := outside.move (move_stepRunning taken)
      · exact .outside outside' clear'
      · exact .draining block closed' at_ clear'
    | draining _ closed' => simp [closed] at closed'
    | committing _ closed' => simp [closed] at closed'
    | starting _ _ closed' => simp [closed] at closed'
  | true =>
    obtain ⟨reply, goes⟩ | ⟨-, rfl⟩ | ⟨kept, rfl⟩ | beside :=
      stepRunning_of_busy (h.busy closed) taken
    · exact h.goOn closed goes
    · exact .throw
    · exact .outside (.of_free rfl rfl) not_mem_nil
    · exact h.beside beside

theorem CommitPhase.transition (down : n.toCore.Down)
    (taken : n.transition env e = some n') : n'.CommitPhase := by
  simp only [Node.transition] at taken
  split at taken
  · exact h.stepRunning taken
  · next stopped =>
      split at taken
      · rw [restart] at taken
        split at taken
        · contradiction
        · cases taken
          have memory := down (Bool.not_eq_true _ ▸ stopped)
          refine .outside ⟨congrArg Core.exclusive memory, ?_, ?_, ?_⟩ (by simp [Clear])
          all_goals simp [Core.restored]
      · contradiction

end

/-! ## Runs -/

theorem transition_of_running (up : n.running = true) :
    n.transition env e = n.stepRunning env e := by
  simp only [transition, if_pos up]

/-- Whatever the awaited calls return, the callback ends and gives the lock back. -/
theorem CommitPhase.releases {replies : List Reply} (h : n.CommitPhase) (up : n.running = true)
    (closed : n.exclusive = true) (empty : n.processing = [])
    (enough : n.commitRank < replies.length) :
    ∃ used rest n', replies = used ++ rest ∧
      run (Node.transition env) n (used.map .resume) = some n' ∧
      n'.exclusive = false := by
  induction replies generalizing n with
  | nil => contradiction
  | cons reply replies ih =>
    have advances : n.Advances env := h.advances closed empty
    obtain ⟨m, taken, phase, closer⟩ := advances reply
    have step : n.transition env (.resume reply) = some m :=
      (transition_of_running up).trans taken
    cases released : m.exclusive with
    | false => exact ⟨[reply], replies, m, rfl, by simp [run, step], released⟩
    | true =>
      obtain ⟨empty', closer⟩ := closer released
      have up' : m.running = true := ((move_goOn taken).forward up trivial).1
      obtain ⟨used, rest, n', rfl, ran, released'⟩ := ih phase up' released empty'
        (by rw [length_cons] at enough; omega)
      refine ⟨reply :: used, rest, n', rfl, ?_, released'⟩
      simp only [map_cons, run, step]
      exact ran

/-- What keeps the commit path from locking itself out. -/
structure CommitPath (env : Env) (n : Node) : Prop where
  /-- The callback that holds the commit lock exclusively waits for no lock. -/
  exclusive : n.exclusive = true → ∀ k, n.continuation = some k →
    k.awaits ≠ some .commitLock ∧ k.awaits ≠ some .handlerLock
  /-- Neither do the processors under it, and they go on by themselves. -/
  shared : ∀ call ∈ n.processing, call.awaits ≠ some .commitLock ∧ call.awaits ≠ some .handlerLock ∧
      ∀ valid, (call.settles valid).awaits = none ∧
        ((∀ ticket, call = .saving ticket → ticket ≤ n.storage.flushed) →
          ∃ n', n.transition env (call.settles valid) = some n')
  /-- While the next block number is started under the lock, its round states are empty and
  no rule does anything. -/
  starting : .unlockCommit ∈ n.todo → n.exclusive = true ∧ n.roundStates = .empty ∧
    ∀ rule key, n.execRule env key rule = n
  /-- The callback ends. -/
  releases : n.exclusive = true → n.processing = [] → ∀ replies : List Reply,
    n.commitRank < replies.length → ∃ used rest n', replies = used ++ rest ∧
      run (Node.transition env) n (used.map .resume) = some n' ∧
      n'.exclusive = false

theorem settles_transition (up : n.running = true) {call : Incoming} (inside : call ∈ n.processing)
    (durable : ∀ ticket, call = .saving ticket → ticket ≤ n.storage.flushed) (valid : Bool) :
    ∃ n', n.transition env (call.settles valid) = some n' := by
  rw [transition_of_running up]
  cases call with
  | message m =>
    simp only [settles, stepRunning, messageVerified, if_pos inside]
    split <;> exact ⟨_, rfl⟩
  | proposal p =>
    simp only [settles, stepRunning, proposalVerified, if_pos inside]
    split <;> exact ⟨_, rfl⟩
  | saving ticket =>
    simp only [settles, stepRunning, incomingSaved, if_pos (And.intro inside (durable ticket rfl))]
    exact ⟨_, rfl⟩

theorem CommitPhase.awaits (h : n.CommitPhase) (closed : n.exclusive = true)
    (at_ : n.continuation = some k) :
    k.awaits ≠ some .commitLock ∧ k.awaits ≠ some .handlerLock := by
  cases h with
  | outside outside => simp [outside.exclusive] at closed
  | draining block _ here =>
    obtain rfl := some.inj (here.symm.trans at_)
    simp [Continuation.awaits]
  | committing block _ _ here =>
    obtain here | here := here <;> obtain rfl := some.inj (here.symm.trans at_) <;>
      simp [Continuation.awaits]
  | starting _ _ _ _ _ here =>
    obtain here | here := here
    · simp [here] at at_
    · obtain rfl := some.inj (here.symm.trans at_)
      simp [Continuation.awaits]

theorem CommitPhase.starting_empty (h : n.CommitPhase) (member : .unlockCommit ∈ n.todo) :
    n.exclusive = true ∧ n.roundStates = .empty := by
  cases h with
  | outside _ clear | draining _ _ _ clear | committing _ _ _ _ clear => exact absurd member clear
  | starting _ _ closed _ cleared => exact ⟨closed, cleared⟩

variable {database : BlockHeader}

theorem commitPhase_of_runs {ok : Node → Event → Prop} (run : Runs env ok database n) :
    n.toCore.Down ∧ n.CommitPhase :=
  run.invariant (P := fun n => n.toCore.Down ∧ n.CommitPhase)
    ⟨fun _ => rfl, .outside (.of_free rfl rfl) not_mem_nil⟩
    fun _ _ _ h _ taken =>
      ⟨Core.down_of_step (transition_step taken), h.2.transition h.1 taken⟩

/-- In every run, with any interleaving of processors, handlers, timeouts, commits, crashes and
restarts. -/
theorem commitPath_of_runs (run : Runs env (fun _ _ => True) database n) : n.CommitPath env := by
  obtain ⟨down, phase⟩ := commitPhase_of_runs run
  have up_of_exclusive : n.exclusive = true → n.running = true := by
    intro closed
    by_contra stopped
    have memory := down (Bool.not_eq_true _ ▸ stopped)
    have open_ : n.exclusive = false := congrArg Core.exclusive memory
    simp [open_] at closed
  have up_of_inside {call : Incoming} (inside : call ∈ n.processing) : n.running = true := by
    by_contra stopped
    have memory := down (Bool.not_eq_true _ ▸ stopped)
    have none_inside : n.processing = [] := congrArg Core.processing memory
    simp [none_inside] at inside
  constructor
  · exact fun closed k at_ => phase.awaits closed at_
  · intro call inside
    refine ⟨?_, ?_, fun valid => ⟨?_, fun durable =>
      settles_transition (up_of_inside inside) inside durable valid⟩⟩
    all_goals cases call <;> simp [awaits, settles, Event.awaits]
  · intro member
    obtain ⟨closed, cleared⟩ := phase.starting_empty member
    exact ⟨closed, cleared, fun rule key => execRule_empty cleared rule⟩
  · intro closed empty replies enough
    exact phase.releases (up_of_exclusive closed) closed empty enough

/-- A commit of the first block that has come to the start of the second one. -/
def startsNextBlock : List Event :=
  .restart true true :: replicate 14 succeeds ++
    [.handleCommitState ⟨⟨1, [7], 0⟩, ⟨⟨[], [true]⟩, 0⟩⟩] ++ replicate 5 succeeds

theorem commitPath_of_runs_startsNextBlock :
    ∃ n, Runs soloEnv (fun _ _ => True) genesisHeader n ∧ n.exclusive = true ∧
      n.todo = [.applyCurrent, .unlockCommit] ∧ n.blockNumber = 2 ∧ n.CommitPath soloEnv := by
  have evaluated : (run (Node.transition soloEnv) (Node.start genesisHeader)
      startsNextBlock).map (fun n => (n.exclusive, n.todo, n.blockNumber)) =
        some (true, [.applyCurrent, .unlockCommit], 2) := by
    decide +kernel
  have guarded : Guarded (Node.transition soloEnv) (fun _ _ => True)
      (Node.start genesisHeader) startsNextBlock := .of_forall fun _ _ _ => trivial
  obtain ⟨n, run, observed⟩ := Reach.exists_of_run evaluated guarded
  simp only [Prod.mk.injEq] at observed
  obtain ⟨closed, todo, number⟩ := observed
  exact ⟨n, run, closed, todo, number, commitPath_of_runs run⟩

end Node

end Mainsail
