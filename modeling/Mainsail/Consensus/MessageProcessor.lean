import Mainsail.Consensus.Bootstrapper
import Mainsail.Foundation.SharedCalls
import Mainsail.Foundation.Transition

/-!
# The message processor

`MessageProcessor.process` runs under the commit lock, which it shares with other calls: no block is
committed while a call is inside. It checks a vote, has its signature verified and adds it to the round
state. Identical votes that arrive while the first of them is verified wait for its outcome, and the first
of them is the only one that can be added. The calls are cut at their awaits here, so that any number of
them go on side by side.
-/

namespace Mainsail

open Function Nat
open Option (of_ite_eq_some some)

/-- A vote as it was received, with its bytes. -/
structure IncomingMessage where
  message : Message
  serialized : Bytes
  deriving DecidableEq, Repr

inductive SignatureCheckResult
  | skip
  | invalid
  | accepted
  deriving DecidableEq, Repr

/-- How a call ends. -/
inductive MessageOutcome
  | skipped
  | invalid
  | accepted
  /-- The verifier or the storage has failed. -/
  | rejected
  /-- `addMessage` or an assertion has thrown. -/
  | thrown
  deriving DecidableEq, Repr

/-- What a call of `process` awaits. -/
inductive MessagePhase
  /-- The commit lock. -/
  | waiting
  /-- Its own verification. -/
  | verifying
  /-- The verification of an identical vote. -/
  | sharing
  /-- `#signatureCheck` is done. -/
  | checked (result : SignatureCheckResult)
  /-- `#signatureCheck` is rejected. -/
  | failed
  /-- `saveMessage`. -/
  | saving
  | settled (outcome : MessageOutcome)
  deriving DecidableEq, Repr

/-- The call holds the commit lock. -/
def MessagePhase.isInside : MessagePhase → Bool
  | .waiting | .settled _ => false
  | _ => true

/-- How far a call is from its end. -/
def MessagePhase.rank : MessagePhase → Nat
  | .waiting => 4
  | .verifying | .sharing => 3
  | .checked _ | .failed => 2
  | .saving => 1
  | .settled _ => 0

/-- What a call in this phase has to do with the verification of its bytes. -/
def MessagePhase.role (serialized : Bytes) : MessagePhase → SharedCalls.Role Bytes
  | .verifying => .leads serialized
  | .sharing => .follows serialized
  | _ => .free

/-- The message processor, with what it reads of consensus. The calls are numbered. -/
structure MessageProcessor where
  calls : Nat
  input : Nat → IncomingMessage
  phase : Nat → MessagePhase
  pendingMessages : Bytes → Option (List Nat)
  roundStates : Repository
  blockNumber : Nat
  round : Nat
  isDisposed : Bool
  /-- The commit lock is held exclusively. -/
  isCommitting : Bool

namespace MessageProcessor

def start (roundStates : Repository) (blockNumber round : Nat) : MessageProcessor where
  calls := 0
  input := fun _ => ⟨⟨.prevote, 0, 0, none, 0, []⟩, []⟩
  phase := fun _ => .waiting
  pendingMessages := fun _ => none
  roundStates := roundStates
  blockNumber := blockNumber
  round := round
  isDisposed := false
  isCommitting := false

section Definitions

variable (mp : MessageProcessor)

def message (i : Nat) : Message := (mp.input i).message

def serialized (i : Nat) : Bytes := (mp.input i).serialized

def hasMessage (m : Message) : Bool := (mp.roundStates m.roundKey).hasMessage m

def setPhase (i : Nat) (phase : MessagePhase) : MessageProcessor :=
  { mp with phase := update mp.phase i phase }

def process (input : IncomingMessage) : MessageProcessor :=
  { mp with calls := mp.calls + 1, input := update mp.input mp.calls input }

/-- `#signatureCheck` up to its await. -/
def signatureCheck (i : Nat) : MessageProcessor :=
  match mp.pendingMessages (mp.serialized i) with
  | some pending => { mp.setPhase i .sharing with
      pendingMessages := update mp.pendingMessages (mp.serialized i) (some (pending ++ [i])) }
  | none => { mp.setPhase i .verifying with
      pendingMessages := update mp.pendingMessages (mp.serialized i) (some []) }

/-- The callback of `process` up to its first await. `ahead` is whether the round is ahead of time. -/
def enter (i : Nat) (ahead : Bool) : MessageProcessor :=
  let m := mp.message i
  if mp.isDisposed ∨ ¬ (m.blockNumber = mp.blockNumber ∧ mp.round ≤ m.round) ∨
      (mp.round < m.round ∧ ahead) ∨ mp.hasMessage m then
    mp.setPhase i (.settled .skipped)
  else mp.signatureCheck i

/-- `#takePendingMessages`, and what becomes of the call and of those that wait for it. -/
def takePendingMessages (i : Nat) (own others : MessagePhase) : MessageProcessor :=
  match mp.pendingMessages (mp.serialized i) with
  | none => mp.setPhase i (.settled .thrown)
  | some pending => { mp with
      pendingMessages := update mp.pendingMessages (mp.serialized i) none
      phase := fun j => if j = i then own else if j ∈ pending then others else mp.phase j }

/-- The verification is done. -/
def verified (i : Nat) (valid : Bool) : MessageProcessor :=
  if valid then mp.takePendingMessages i (.checked .accepted) (.checked .skip)
  else mp.takePendingMessages i (.checked .invalid) (.checked .invalid)

def verifierFailed (i : Nat) : MessageProcessor := mp.takePendingMessages i .failed .failed

/-- `process` after an accepted signature. -/
def add (i : Nat) : MessageProcessor :=
  if mp.hasMessage (mp.message i) then mp.setPhase i (.settled .skipped)
  else
    match mp.roundStates.addMessage (mp.message i) with
    | none => mp.setPhase i (.settled .thrown)
    | some roundStates => { mp.setPhase i .saving with roundStates := roundStates }

/-- `process` after `#signatureCheck`. -/
def resume (i : Nat) : Option MessageProcessor :=
  match mp.phase i with
  | .checked .skip => some (mp.setPhase i (.settled .skipped))
  | .checked .invalid => some (mp.setPhase i (.settled .invalid))
  | .checked .accepted => some (mp.add i)
  | .failed => some (mp.setPhase i (.settled .rejected))
  | _ => none

/-- The block is committed, and consensus is at the next block number. -/
def commitFinished : MessageProcessor :=
  { mp with roundStates := .empty, blockNumber := mp.blockNumber + 1, round := 0, isCommitting := false }

end Definitions

inductive Event
  | process (input : IncomingMessage)
  /-- A call has got the commit lock. -/
  | enter (i : Nat) (ahead : Bool)
  | verified (i : Nat)
  | verifierFails (i : Nat)
  | resume (i : Nat)
  /-- `saveMessage` is done or has failed. -/
  | saved (i : Nat) (success : Bool)
  /-- Consensus is in another round. -/
  | startRound (round : Nat)
  | dispose
  /-- The commit lock is taken exclusively. -/
  | commit
  | commitFinished
  deriving DecidableEq, Repr

/-- A step. The signature of a vote is verified under the key of its validator by `verify`. -/
def step (verify : Message → Bool) (mp : MessageProcessor) (event : Event) : Option MessageProcessor :=
  match event with
  | .process input => some (mp.process input)
  | .enter i ahead =>
    if i < mp.calls ∧ mp.phase i = .waiting ∧ mp.isCommitting = false then some (mp.enter i ahead)
    else none
  | .verified i =>
    if mp.phase i = .verifying then some (mp.verified i (verify (mp.message i))) else none
  | .verifierFails i => if mp.phase i = .verifying then some (mp.verifierFailed i) else none
  | .resume i => mp.resume i
  | .saved i success =>
    if mp.phase i = .saving then
      some (mp.setPhase i (.settled (if success then .accepted else .rejected)))
    else none
  | .startRound round => some { mp with round := round }
  | .dispose => some { mp with isDisposed := true }
  | .commit =>
    if mp.isCommitting = false ∧ ∀ i < mp.calls, (mp.phase i).isInside = false then
      some { mp with isCommitting := true }
    else none
  | .commitFinished => if mp.isCommitting then some mp.commitFinished else none

/-! ## Invariants -/

variable {verify : Message → Bool} {initial : Repository} {mp mp' : MessageProcessor} {i j : Nat}

/-- What a call has to do with the verifications in progress. -/
def role (mp : MessageProcessor) (i : Nat) : SharedCalls.Role Bytes := (mp.phase i).role (mp.serialized i)

def rank (mp : MessageProcessor) (i : Nat) : Nat := (mp.phase i).rank

theorem phase_of_leads {bytes : Bytes} (leads : mp.role i = .leads bytes) :
    mp.phase i = .verifying ∧ mp.serialized i = bytes := by
  unfold role at leads
  cases phase : mp.phase i <;> simp_all [MessagePhase.role]

theorem phase_of_follows {bytes : Bytes} (follows : mp.role i = .follows bytes) :
    mp.phase i = .sharing := by
  unfold role at follows
  cases phase : mp.phase i <;> simp_all [MessagePhase.role]

/-- What `process` does after `#signatureCheck`. -/
theorem resume_cases (taken : mp.resume i = some mp') :
    mp.rank i = 2 ∧ mp.role i = .free ∧ ((mp.phase i = .checked .accepted ∧ mp' = mp.add i) ∨
      ∃ outcome, outcome ≠ .thrown ∧ outcome ≠ .accepted ∧ mp' = mp.setPhase i (.settled outcome)) := by
  unfold resume at taken
  unfold rank role
  split at taken
  · next phase =>
    rw [phase]
    exact ⟨rfl, rfl, .inr ⟨.skipped, by simp, by simp, (some.inj taken).symm⟩⟩
  · next phase =>
    rw [phase]
    exact ⟨rfl, rfl, .inr ⟨.invalid, by simp, by simp, (some.inj taken).symm⟩⟩
  · next phase =>
    rw [phase]
    exact ⟨rfl, rfl, .inl ⟨rfl, (some.inj taken).symm⟩⟩
  · next phase =>
    rw [phase]
    exact ⟨rfl, rfl, .inr ⟨.rejected, by simp, by simp, (some.inj taken).symm⟩⟩
  · contradiction

/-- The vote of the call has been added, and the call has not failed since. -/
def Added (mp : MessageProcessor) (i : Nat) : Prop :=
  mp.phase i = .saving ∨ mp.phase i = .settled .accepted

/-- Two votes for one place in a round state. -/
def SameSlot (m m' : Message) : Prop :=
  m.type = m'.type ∧ m.roundKey = m'.roundKey ∧ m.validatorIndex = m'.validatorIndex

/-- Every vote was there from the beginning or has been verified. -/
structure Genuine (verify : Message → Bool) (initial : Repository) (mp : MessageProcessor) : Prop where
  prevotes : ∀ key, ∀ m ∈ (mp.roundStates key).prevotes.messages,
    m ∈ (initial key).prevotes.messages ∨ verify m = true
  precommits : ∀ key, ∀ m ∈ (mp.roundStates key).precommits.messages,
    m ∈ (initial key).precommits.messages ∨ verify m = true

structure Sound (verify : Message → Bool) (initial : Repository) (mp : MessageProcessor) : Prop extends
    Genuine verify initial mp where
  fresh : ∀ i, mp.calls ≤ i → mp.phase i = .waiting
  shared : SharedCalls.Sound mp.pendingMessages mp.role
  inside : ∀ i, (mp.phase i).isInside = true →
    (mp.message i).blockNumber = mp.blockNumber ∧ mp.isCommitting = false
  unthrown : ∀ i, mp.phase i ≠ .settled .thrown
  valid : ∀ i, mp.phase i = .checked .accepted → verify (mp.message i) = true
  recorded : ∀ i, mp.Added i → (mp.message i).blockNumber ≤ mp.blockNumber ∧
    ((mp.message i).blockNumber = mp.blockNumber → mp.hasMessage (mp.message i) = true)
  apart : ∀ i j, mp.Added i → mp.Added j → SameSlot (mp.message i) (mp.message j) → i = j

variable {m : Message}

theorem hasMessage_congr {m' : Message} (same : SameSlot m m') : mp.hasMessage m = mp.hasMessage m' := by
  obtain ⟨type, key, index⟩ := same
  unfold hasMessage
  rw [key]
  simp only [RoundState.hasMessage, type, index]

theorem Sound.start (initial : Repository) (blockNumber round : Nat) :
    (start initial blockNumber round).Sound verify initial where
  fresh := fun _ _ => rfl
  shared := .empty
  inside := fun _ inside => nomatch inside
  unthrown := fun _ thrown => nomatch thrown
  valid := fun _ checked => nomatch checked
  prevotes := fun _ _ => .inl
  precommits := fun _ _ => .inl
  recorded := fun _ added => by rcases added with added | added <;> contradiction
  apart := fun _ _ added => by rcases added with added | added <;> contradiction

/-- A call may come to this phase. -/
structure Allowed (verify : Message → Bool) (mp : MessageProcessor) (i : Nat) (phase : MessagePhase) :
    Prop where
  call : i < mp.calls
  inside : phase.isInside = true →
    (mp.message i).blockNumber = mp.blockNumber ∧ mp.isCommitting = false
  unthrown : phase ≠ .settled .thrown
  valid : phase = .checked .accepted → verify (mp.message i) = true
  unsaved : phase ≠ .saving
  accepted : phase = .settled .accepted → mp.phase i = .saving

namespace Sound

variable {pendingMessages : Bytes → Option (List Nat)} {phase own others : MessagePhase}
variable {event : Event}

/-- Calls come to phases that they may come to. -/
theorem change (h : mp.Sound verify initial) {phase : Nat → MessagePhase}
    (shared : SharedCalls.Sound pendingMessages
      { mp with phase := phase, pendingMessages := pendingMessages }.role)
    (allowed : ∀ i, phase i = mp.phase i ∨ mp.Allowed verify i (phase i)) :
    Sound verify initial { mp with phase := phase, pendingMessages := pendingMessages } := by
  have was : ∀ i, Added { mp with phase := phase, pendingMessages := pendingMessages } i → mp.Added i := by
    intro i added
    rcases allowed i with same | allowed
    · rw [Added, ← same]
      exact added
    · rcases added with saving | accepted
      · exact absurd saving allowed.unsaved
      · exact .inl (allowed.accepted accepted)
  refine ⟨{ h with }, ?_, shared, ?_, ?_, ?_, fun i added => h.recorded i (was i added),
    fun i j first second => h.apart i j (was i first) (was j second)⟩
  · intro i beyond
    rcases allowed i with same | allowed
    · exact same.trans (h.fresh i beyond)
    · exact absurd allowed.call (not_lt.mpr beyond)
  · intro i inside
    rcases allowed i with same | allowed
    · exact h.inside i (same ▸ inside)
    · exact allowed.inside inside
  · intro i thrown
    rcases allowed i with same | allowed
    · exact h.unthrown i (same.symm.trans thrown)
    · exact allowed.unthrown thrown
  · intro i checked
    rcases allowed i with same | allowed
    · exact h.valid i (same.symm.trans checked)
    · exact allowed.valid checked

/-- One call comes to a phase that it may come to. -/
theorem update (h : mp.Sound verify initial) (shared : SharedCalls.Sound pendingMessages
      (update mp.role i (phase.role (mp.serialized i)))) (allowed : mp.Allowed verify i phase) :
    Sound verify initial
      { mp with phase := update mp.phase i phase, pendingMessages := pendingMessages } := by
  apply h.change
  · convert shared using 1
    funext j
    by_cases here : j = i
    · subst here
      simp only [role, update_self]
      rfl
    · simp only [role, update_of_ne here]
      rfl
  · intro j
    by_cases here : j = i
    · subst here
      rw [update_self]
      exact .inr allowed
    · exact .inl (update_of_ne here ..)

open MessagePhase

section

variable (h : mp.Sound verify initial)
include h

theorem settle {outcome : MessageOutcome} (call : i < mp.calls) (before : mp.role i = .free)
    (unthrown : outcome ≠ .thrown) (accepted : outcome = .accepted → mp.phase i = .saving) :
    (mp.setPhase i (.settled outcome)).Sound verify initial := by
  apply h.update
  · show SharedCalls.Sound mp.pendingMessages (Function.update mp.role i .free)
    rw [← before, update_eq_self]
    exact h.shared
  · exact ⟨call, by simp [isInside], by simpa using unthrown, by simp, by simp,
      by simpa using accepted⟩

theorem lt_calls (phase : mp.phase i ≠ .waiting) : i < mp.calls :=
  Nat.lt_of_not_le fun beyond => phase (h.fresh i beyond)

theorem signatureCheck (call : i < mp.calls) (waiting : mp.phase i = .waiting)
    (free : mp.isCommitting = false) (number : (mp.message i).blockNumber = mp.blockNumber) :
    (mp.signatureCheck i).Sound verify initial := by
  have unconcerned : mp.role i = .free := by rw [role, waiting]; rfl
  unfold MessageProcessor.signatureCheck
  split
  · next pending entry =>
    apply h.update (h.shared.follow unconcerned entry)
    exact ⟨call, fun _ => ⟨number, free⟩, by simp, by simp, by simp, by simp⟩
  · next vacant =>
    apply h.update (h.shared.lead unconcerned vacant)
    exact ⟨call, fun _ => ⟨number, free⟩, by simp, by simp, by simp, by simp⟩

theorem enter (call : i < mp.calls) (waiting : mp.phase i = .waiting)
    (free : mp.isCommitting = false) (ahead : Bool) : (mp.enter i ahead).Sound verify initial := by
  unfold MessageProcessor.enter
  dsimp only
  split_ifs with skip
  · exact h.settle call (by rw [role, waiting]; rfl) (by simp) (by simp)
  · simp only [not_or, not_not] at skip
    exact h.signatureCheck call waiting free skip.2.1.1

/-- A call that takes part in a verification may come out of it. -/
theorem allowed_of_checked (inside : (mp.phase i).isInside = true)
    (checked : (∃ result, phase = .checked result) ∨ phase = .failed)
    (valid : phase = .checked .accepted → verify (mp.message i) = true) : mp.Allowed verify i phase := by
  refine ⟨h.lt_calls (by rintro waiting; simp [waiting, isInside] at inside),
    fun _ => h.inside i inside, ?_, valid, ?_, ?_⟩
  all_goals rcases checked with ⟨result, rfl⟩ | rfl <;> simp

section

variable (verifying : mp.phase i = .verifying)
include verifying

/-- The call that verifies a vote takes the entry, and those that wait for it go on. -/
theorem takePendingMessages (checked : (∃ result, own = .checked result) ∨ own = .failed)
    (checked' : (∃ result, others = .checked result) ∨ others = .failed)
    (valid : own = .checked .accepted → verify (mp.message i) = true)
    (unaccepted : others ≠ .checked .accepted) :
    (mp.takePendingMessages i own others).Sound verify initial := by
  have leads : mp.role i = .leads (mp.serialized i) := by rw [role, verifying]; rfl
  have free : ∀ phase : MessagePhase, (∃ result, phase = .checked result) ∨ phase = .failed →
      ∀ bytes, phase.role bytes = .free := by
    rintro phase (⟨result, rfl⟩ | rfl) bytes <;> rfl
  unfold MessageProcessor.takePendingMessages
  split
  · next vacant => exact absurd vacant (h.shared.leader_entry i _ leads)
  · next pending entry =>
    have follows := h.shared.mem_iff _ pending entry
    apply h.change
    · convert h.shared.take leads entry using 1
      funext j
      by_cases here : j = i
      · simp only [role, here, if_true, true_or]
        exact free own checked _
      · by_cases follower : j ∈ pending
        · simp only [role, here, follower, if_true, if_false, or_true]
          exact free others checked' _
        · simp only [role, here, follower, if_false, or_self]
          rfl
    · intro j
      split_ifs with here follower
      · subst here
        exact .inr (h.allowed_of_checked (by rw [verifying]; rfl) checked valid)
      · right
        have sharing := phase_of_follows ((follows j).mp follower)
        exact h.allowed_of_checked (by rw [sharing]; rfl) checked' fun is => absurd is unaccepted
      · exact .inl rfl

theorem verified : (mp.verified i (verify (mp.message i))).Sound verify initial := by
  unfold MessageProcessor.verified
  split_ifs with valid
  · exact h.takePendingMessages verifying (.inl ⟨_, rfl⟩) (.inl ⟨_, rfl⟩) (fun _ => valid) (by simp)
  · exact h.takePendingMessages verifying (.inl ⟨_, rfl⟩) (.inl ⟨_, rfl⟩) (by simp) (by simp)

theorem verifierFailed : (mp.verifierFailed i).Sound verify initial :=
  h.takePendingMessages verifying (.inr rfl) (.inr rfl) (by simp) (by simp)

end

theorem process (input : IncomingMessage) : (mp.process input).Sound verify initial := by
  have waiting : mp.phase mp.calls = .waiting := h.fresh _ le_rfl
  have same : ∀ i, mp.phase i ≠ .waiting → (mp.process input).input i = mp.input i := by
    intro i phase
    refine update_of_ne ?_ _ _
    rintro rfl
    exact phase waiting
  have message : ∀ i, mp.phase i ≠ .waiting → (mp.process input).message i = mp.message i :=
    fun i phase => congrArg IncomingMessage.message (same i phase)
  have role : (mp.process input).role = mp.role := by
    funext i
    by_cases phase : mp.phase i = .waiting
    · simp [MessageProcessor.role, MessageProcessor.process, phase, MessagePhase.role]
    · show (mp.phase i).role _ = (mp.phase i).role _
      rw [serialized, same i phase, ← serialized]
  have began : ∀ i, mp.Added i → mp.phase i ≠ .waiting := by
    rintro i (saving | accepted) <;> simp_all
  refine ⟨{ h with }, fun i beyond => h.fresh i (le_of_succ_le beyond), role ▸ h.shared, ?_, h.unthrown,
    ?_, ?_, ?_⟩
  · intro i inside
    rw [message i (by rintro phase; simp [MessageProcessor.process, phase, isInside] at inside)]
    exact h.inside i inside
  · intro i checked
    rw [message i (by simp [show mp.phase i = _ from checked])]
    exact h.valid i checked
  · intro i added
    rw [message i (began i added)]
    exact h.recorded i added
  · intro i j first second
    rw [message i (began i first), message j (began j second)]
    exact h.apart i j first second

end

variable (h : mp.Sound verify initial)
include h

/-- The vote of a call is added. -/
theorem saving (checked : mp.phase i = .checked .accepted)
    {roundStates : Repository} (added : mp.roundStates.addMessage (mp.message i) = some roundStates) :
    Sound verify initial { mp.setPhase i .saving with roundStates := roundStates } := by
  obtain ⟨number, uncommitted⟩ := h.inside i (by rw [checked]; rfl)
  obtain ⟨vacant, now, -, -, prevotes, precommits⟩ := Repository.addMessage_eq_some added
  have grows := Repository.grows_of_addMessage added
  set mp' := { mp.setPhase i .saving with roundStates := roundStates } with is
  have phase : ∀ j, j ≠ i → mp'.phase j = mp.phase j := fun j other => update_of_ne other _ _
  have others : ∀ j, j ≠ i → (mp'.Added j ↔ mp.Added j) := by
    intro j other
    rw [Added, phase j other]
    rfl
  -- no other call has added a vote for this place
  have apart : ∀ j, mp.Added j → ¬ SameSlot (mp.message j) (mp.message i) := by
    intro j added same
    have equal : (mp.message j).blockNumber = mp.blockNumber := by
      rw [← number]
      exact congrArg RoundKey.blockNumber same.2.1
    have held := (h.recorded j added).2 equal
    rw [hasMessage_congr same] at held
    exact absurd (held.symm.trans vacant) (by simp)
  have valid := h.valid i checked
  refine ⟨⟨?_, ?_⟩, ?_, ?_, ?_, ?_, ?_, ?_, ?_⟩
  · intro key m member
    rcases prevotes key m member with old | rfl
    · exact h.prevotes key m old
    · exact .inr valid
  · intro key m member
    rcases precommits key m member with old | rfl
    · exact h.precommits key m old
    · exact .inr valid
  · intro j beyond
    refine (phase j ?_).trans (h.fresh j beyond)
    rintro rfl
    simp [h.fresh _ beyond] at checked
  · have role : mp'.role = mp.role := by
      funext j
      by_cases here : j = i
      · simp [MessageProcessor.role, here, checked, is, setPhase, MessagePhase.role]
      · rw [MessageProcessor.role, phase j here]
        rfl
    rw [role]
    exact h.shared
  · intro j inside
    by_cases here : j = i
    · subst here
      exact ⟨number, uncommitted⟩
    · rw [phase j here] at inside
      exact h.inside j inside
  · intro j
    by_cases here : j = i
    · simp [is, setPhase, here]
    · rw [phase j here]
      exact h.unthrown j
  · intro j
    by_cases here : j = i
    · simp [is, setPhase, here]
    · rw [phase j here]
      exact h.valid j
  · intro j added
    by_cases here : j = i
    · subst here
      exact ⟨number.le, fun _ => now⟩
    · obtain ⟨le, held⟩ := h.recorded j ((others j here).mp added)
      exact ⟨le, fun equal => (grows _).hasMessage (held equal)⟩
  · intro j k first second same
    by_cases here : j = i
    · by_cases there : k = i
      · rw [here, there]
      · rw [here] at same
        exact absurd ⟨same.1.symm, same.2.1.symm, same.2.2.symm⟩ (apart k ((others k there).mp second))
    · by_cases there : k = i
      · rw [there] at same
        exact absurd same (apart j ((others j here).mp first))
      · exact h.apart j k ((others j here).mp first) ((others k there).mp second) same

theorem add (checked : mp.phase i = .checked .accepted) : (mp.add i).Sound verify initial := by
  unfold MessageProcessor.add
  split_ifs with duplicate
  · exact h.settle (h.lt_calls (by simp [checked])) (by rw [role, checked]; rfl) (by simp) (by simp)
  · rw [Bool.not_eq_true] at duplicate
    obtain ⟨rs, put⟩ := RoundState.exists_addMessage duplicate
    have added := congrArg (Option.map (mp.roundStates.set _)) put
    rw [show mp.roundStates.addMessage _ = _ from added]
    exact h.saving checked added

theorem resume (taken : mp.resume i = some mp') : mp'.Sound verify initial := by
  obtain ⟨rank, free, ⟨checked, rfl⟩ | ⟨outcome, unthrown, unaccepted, rfl⟩⟩ := resume_cases taken
  · exact h.add checked
  · have call : i < mp.calls := by
      apply h.lt_calls
      intro waiting
      simp [MessageProcessor.rank, waiting, MessagePhase.rank] at rank
    exact h.settle call free unthrown fun accepted => absurd accepted unaccepted

theorem commit (outside : ∀ i < mp.calls, (mp.phase i).isInside = false) :
    Sound verify initial { mp with isCommitting := true } := by
  refine { h with inside := fun i inside => ?_ }
  have call : i < mp.calls := h.lt_calls (by rintro waiting; simp [waiting, isInside] at inside)
  simp [outside i call] at inside

theorem commitFinished (committing : mp.isCommitting = true) :
    mp.commitFinished.Sound verify initial := by
  have outside : ∀ i, (mp.phase i).isInside ≠ true := by
    intro i inside
    simp [(h.inside i inside).2] at committing
  refine ⟨⟨?_, ?_⟩, h.fresh, h.shared, fun i inside => absurd inside (outside i), h.unthrown, h.valid,
    ?_, h.apart⟩
  · intro key m member
    contradiction
  · intro key m member
    contradiction
  · intro i added
    have le := (h.recorded i added).1
    refine ⟨le_succ_of_le le, fun equal => ?_⟩
    have : (mp.message i).blockNumber = mp.blockNumber + 1 := equal
    omega

theorem step (taken : mp.step verify event = some mp') : mp'.Sound verify initial := by
  cases event with
  | process input =>
    cases taken
    exact h.process input
  | enter i ahead =>
    obtain ⟨enabled, rfl⟩ := of_ite_eq_some taken
    exact h.enter enabled.1 enabled.2.1 enabled.2.2 ahead
  | verified i =>
    obtain ⟨verifying, rfl⟩ := of_ite_eq_some taken
    exact h.verified verifying
  | verifierFails i =>
    obtain ⟨verifying, rfl⟩ := of_ite_eq_some taken
    exact h.verifierFailed verifying
  | resume i => exact h.resume taken
  | saved i success =>
    obtain ⟨saving, rfl⟩ := of_ite_eq_some taken
    refine h.settle (h.lt_calls (by simp [saving])) (by rw [role, saving]; rfl) ?_ fun _ => saving
    split_ifs <;> simp
  | startRound | dispose =>
    cases taken
    exact { h with }
  | commit =>
    obtain ⟨free, rfl⟩ := of_ite_eq_some taken
    exact h.commit free.2
  | commitFinished =>
    obtain ⟨committing, rfl⟩ := of_ite_eq_some taken
    exact h.commitFinished committing

end Sound

/-! ## Every call settles -/

/-- Something comes that calls await. -/
def Event.isAwaited : Event → Bool
  | .enter .. | .verified _ | .verifierFails _ | .resume _ | .saved .. | .commitFinished => true
  | .process _ | .startRound _ | .dispose | .commit => false

theorem rank_setPhase_le {phase : MessagePhase} (le : phase.rank ≤ mp.rank i) (j : Nat) :
    (mp.setPhase i phase).rank j ≤ mp.rank j := by
  by_cases here : j = i
  · simpa [rank, setPhase, here] using le
  · simp [rank, setPhase, here]

theorem rank_setPhase_self (phase : MessagePhase) : (mp.setPhase i phase).rank i = phase.rank := by
  simp [rank, setPhase]

theorem rank_signatureCheck (waiting : mp.phase i = .waiting) (j : Nat) :
    (mp.signatureCheck i).rank j ≤ mp.rank j ∧ (mp.signatureCheck i).rank i < mp.rank i := by
  have before : mp.rank i = 4 := by rw [rank, waiting]; rfl
  unfold signatureCheck
  split <;> exact ⟨rank_setPhase_le (by simp [before, MessagePhase.rank]) j,
    (rank_setPhase_self _).trans_lt (by simp [before, MessagePhase.rank])⟩

theorem rank_enter (waiting : mp.phase i = .waiting) (ahead : Bool) (j : Nat) :
    (mp.enter i ahead).rank j ≤ mp.rank j ∧ (mp.enter i ahead).rank i < mp.rank i := by
  have before : mp.rank i = 4 := by rw [rank, waiting]; rfl
  unfold enter
  dsimp only
  split_ifs
  · exact ⟨rank_setPhase_le (zero_le _) j, (rank_setPhase_self _).trans_lt (by simp [before, MessagePhase.rank])⟩
  · exact rank_signatureCheck waiting j

/-- A verification brings the call and those that share it nearer to their end. -/
theorem Sound.rank_takePendingMessages (h : mp.Sound verify initial) (verifying : mp.phase i = .verifying)
    {own others : MessagePhase} (nearer : own.rank = 2) (nearer' : others.rank = 2) (j : Nat) :
    (mp.takePendingMessages i own others).rank j ≤ mp.rank j ∧
      (j = i ∨ mp.role j = .follows (mp.serialized i) →
        (mp.takePendingMessages i own others).rank j < mp.rank j) := by
  have before : mp.rank i = 3 := by rw [rank, verifying]; rfl
  have leads : mp.role i = .leads (mp.serialized i) := by rw [role, verifying]; rfl
  unfold MessageProcessor.takePendingMessages
  split
  · next vacant => exact absurd vacant (h.shared.leader_entry i _ leads)
  · next pending entry =>
    have follows := h.shared.mem_iff _ pending entry j
    have shares : j ∈ pending → mp.rank j = 3 := by
      intro member
      rw [rank, phase_of_follows (follows.mp member)]
      rfl
    have now : ({ mp with
        pendingMessages := Function.update mp.pendingMessages (mp.serialized i) none
        phase := fun j => if j = i then own else if j ∈ pending then others else mp.phase j } :
        MessageProcessor).rank j = if j = i ∨ j ∈ pending then 2 else mp.rank j := by
      by_cases here : j = i
      · simp [rank, here, nearer]
      · by_cases member : j ∈ pending
        · simp [rank, here, member, nearer']
        · simp [rank, here, member]
    rw [now, ← follows]
    split_ifs with concerned
    · have was : mp.rank j = 3 := by
        rcases concerned with rfl | member
        · exact before
        · exact shares member
      omega
    · exact ⟨le_rfl, fun concerned' => absurd concerned' concerned⟩

theorem Sound.rank_verified (h : mp.Sound verify initial) (verifying : mp.phase i = .verifying)
    (valid : Bool) (j : Nat) :
    (mp.verified i valid).rank j ≤ mp.rank j ∧
      (j = i ∨ mp.role j = .follows (mp.serialized i) → (mp.verified i valid).rank j < mp.rank j) := by
  unfold MessageProcessor.verified
  split_ifs <;> exact h.rank_takePendingMessages verifying rfl rfl j

theorem rank_settle (before : 0 < mp.rank i) (outcome : MessageOutcome) (j : Nat) :
    (mp.setPhase i (.settled outcome)).rank j ≤ mp.rank j ∧
      (mp.setPhase i (.settled outcome)).rank i < mp.rank i :=
  ⟨rank_setPhase_le (zero_le _) j, (rank_setPhase_self _).trans_lt before⟩

theorem rank_add (before : 1 < mp.rank i) (j : Nat) :
    (mp.add i).rank j ≤ mp.rank j ∧ (mp.add i).rank i < mp.rank i := by
  have positive : 0 < mp.rank i := zero_lt_of_lt before
  unfold add
  split_ifs
  · exact rank_settle positive _ j
  · split
    · exact rank_settle positive _ j
    · have le : MessagePhase.saving.rank ≤ mp.rank i := positive
      exact ⟨rank_setPhase_le le j, (rank_setPhase_self _).trans_lt before⟩

theorem rank_resume (taken : mp.resume i = some mp') (j : Nat) :
    mp'.rank j ≤ mp.rank j ∧ mp'.rank i < mp.rank i := by
  obtain ⟨before, -, ⟨-, rfl⟩ | ⟨outcome, -, -, rfl⟩⟩ := resume_cases taken
  · exact rank_add (by omega) j
  · exact rank_settle (by omega) outcome j

/-- No step takes a call away from its end. -/
theorem Sound.rank_le (h : mp.Sound verify initial) {event : Event}
    (taken : mp.step verify event = some mp') (j : Nat) : mp'.rank j ≤ mp.rank j := by
  cases event with
  | process | startRound | dispose =>
    cases taken
    exact le_rfl
  | enter i ahead =>
    obtain ⟨enabled, rfl⟩ := of_ite_eq_some taken
    exact (rank_enter enabled.2.1 ahead j).1
  | verified i =>
    obtain ⟨verifying, rfl⟩ := of_ite_eq_some taken
    exact (h.rank_verified verifying _ j).1
  | verifierFails i =>
    obtain ⟨verifying, rfl⟩ := of_ite_eq_some taken
    exact (h.rank_takePendingMessages verifying rfl rfl j).1
  | resume i => exact (rank_resume taken j).1
  | saved i success =>
    obtain ⟨saving, rfl⟩ := of_ite_eq_some taken
    exact rank_setPhase_le (zero_le _) j
  | commit | commitFinished =>
    obtain ⟨-, rfl⟩ := of_ite_eq_some taken
    exact le_rfl

/-- What a call that has not settled awaits can come, and brings it nearer to its end. -/
theorem Sound.progress (h : mp.Sound verify initial) (call : i < mp.calls)
    (unsettled : ∀ outcome, mp.phase i ≠ .settled outcome) :
    ∃ event mp', event.isAwaited = true ∧ mp.step verify event = some mp' ∧
      (mp'.rank i < mp.rank i ∨ mp.isCommitting = true ∧ event = .commitFinished) := by
  cases phase : mp.phase i with
  | waiting =>
    cases committing : mp.isCommitting with
    | true => exact ⟨.commitFinished, _, rfl, if_pos committing, .inr ⟨rfl, rfl⟩⟩
    | false =>
      exact ⟨.enter i false, _, rfl, if_pos ⟨call, phase, committing⟩,
        .inl (rank_enter phase false i).2⟩
  | verifying =>
    exact ⟨.verified i, _, rfl, if_pos phase, .inl ((h.rank_verified phase _ i).2 (.inl rfl))⟩
  | sharing =>
    have follows : mp.role i = .follows (mp.serialized i) := by rw [role, phase]; rfl
    obtain ⟨j, leads⟩ := h.shared.exists_leader _ (h.shared.follower_entry i _ follows)
    obtain ⟨verifying, same⟩ := phase_of_leads leads
    refine ⟨.verified j, _, rfl, if_pos verifying, .inl ((h.rank_verified verifying _ i).2 (.inr ?_))⟩
    rw [same]
    exact follows
  | checked result =>
    obtain ⟨mp', taken⟩ : ∃ mp', mp.resume i = some mp' := by
      unfold MessageProcessor.resume
      rw [phase]
      cases result <;> exact ⟨_, rfl⟩
    exact ⟨.resume i, mp', rfl, taken, .inl (rank_resume taken i).2⟩
  | failed =>
    obtain ⟨mp', taken⟩ : ∃ mp', mp.resume i = some mp' := by
      unfold MessageProcessor.resume
      rw [phase]
      exact ⟨_, rfl⟩
    exact ⟨.resume i, mp', rfl, taken, .inl (rank_resume taken i).2⟩
  | saving =>
    refine ⟨.saved i true, _, rfl, if_pos phase, .inl ?_⟩
    rw [rank_setPhase_self, rank, phase]
    simp [MessagePhase.rank]
  | settled outcome => exact absurd phase (unsettled outcome)

/-! ## Runs -/

/-- The intake of votes. -/
structure Exact (verify : Message → Bool) (initial : Repository) (mp : MessageProcessor) : Prop extends
    Genuine verify initial mp where
  unthrown : ∀ i, mp.phase i ≠ .settled .thrown
  unique : ∀ key, ((mp.roundStates key).prevotes.messages.map (·.validatorIndex)).Nodup ∧
    ((mp.roundStates key).precommits.messages.map (·.validatorIndex)).Nodup
  accepted : ∀ i j, mp.phase i = .settled .accepted → mp.phase j = .settled .accepted →
    SameSlot (mp.message i) (mp.message j) → i = j
  settles : ∀ i < mp.calls, (∀ outcome, mp.phase i ≠ .settled outcome) →
    ∃ event mp', event.isAwaited = true ∧ mp.step verify event = some mp' ∧
      (mp'.rank i < mp.rank i ∨ mp.isCommitting = true ∧ event = .commitFinished)
  nearer : ∀ event mp', mp.step verify event = some mp' → ∀ i, mp'.rank i ≤ mp.rank i
  released : (∀ i < mp.calls, ∃ outcome, mp.phase i = .settled outcome) →
    ∀ serialized, mp.pendingMessages serialized = none

theorem Sound.exact (h : mp.Sound verify initial) : mp.Exact verify initial where
  toGenuine := h.toGenuine
  unthrown := h.unthrown
  unique := fun key => ⟨(mp.roundStates key).prevotes.nodup, (mp.roundStates key).precommits.nodup⟩
  accepted := fun i j first second => h.apart i j (.inr first) (.inr second)
  settles := fun _ call unsettled => h.progress call unsettled
  nearer := fun _ _ taken i => h.rank_le taken i
  released := by
    intro settled serialized
    by_contra entry
    obtain ⟨i, leads⟩ := h.shared.exists_leader serialized entry
    have verifying := (phase_of_leads leads).1
    obtain ⟨outcome, is⟩ := settled i (h.lt_calls (by simp [verifying]))
    rw [verifying] at is
    contradiction

/-- The states that the message processor reaches. -/
abbrev Runs (verify : Message → Bool) (initial : Repository) (blockNumber round : Nat) :
    MessageProcessor → Prop :=
  Transition.Reach (step verify) (fun _ _ => True) (start initial blockNumber round)

/-- In every run the intake of votes is exact. -/
theorem exact_intake {blockNumber round : Nat} (run : Runs verify initial blockNumber round mp) :
    mp.Exact verify initial := by
  have sound : mp.Sound verify initial :=
    run.invariant (P := fun mp => mp.Sound verify initial) (.start initial blockNumber round)
      fun _ _ _ sound _ taken => sound.step taken
  exact sound.exact

/-- The prevote of validator 0 for nil, as it is received. -/
def soloPrevote : IncomingMessage := ⟨⟨.prevote, 1, 0, none, 0, [1]⟩, [0]⟩

/-- Two copies of one vote, the second of which waits for the first. -/
def copies : List Event :=
  [.process soloPrevote, .process soloPrevote, .enter 0 false, .enter 1 false, .verified 0, .resume 1, .resume 0,
    .saved 0 true]

theorem exact_intake_copies :
    ∃ mp : MessageProcessor, mp.Exact (fun m => m.signature = [1]) .empty ∧
      (mp.phase 0, mp.phase 1) = (.settled .accepted, .settled .skipped) := by
  have ran : (Transition.run (step fun m => m.signature = [1]) (start .empty 1 0) copies).map
      (fun mp => (mp.phase 0, mp.phase 1)) = some (.settled .accepted, .settled .skipped) := by
    decide +kernel
  obtain ⟨mp, run, observed⟩ := Transition.Reach.exists_of_run ran (.of_forall fun _ _ _ => trivial)
  exact ⟨mp, exact_intake run, observed⟩

end MessageProcessor

end Mainsail
