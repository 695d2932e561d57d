import Mainsail.Consensus.CommitPath

/-!
# What the rules read

`getProcessorResult` throws on a round state without a result, and `getBlock` on one whose
proposal is missing or not parsed. A throw leaves `applyRules`, and the rules after it are not
run. The guards of the rules test different things: some a result, some a parsed proposal,
some only a majority of votes. A proposal may arrive between any two of them, and the
bootstrapper parses proposals that it does not process.

What connects the guards is the order of the statements. `applyRules` begins with
`#processProposal`, which leaves a result wherever there is a proposal, and a proposal that
arrives later is not parsed before the next `applyRules`. So after `#processProposal` a parsed
proposal has its result, on this round state and as long as its rules last.
-/

namespace Mainsail

open RoundState Core Repository Node Option List

namespace RoundState

variable {key : RoundKey} {rs rs' : RoundState key}

/-- A proposal that is parsed has been processed. -/
def Settled (rs : RoundState key) : Prop := rs.getBlock.isSome → rs.processorResult.isSome

/-- What a round state could return, it still can. -/
structure Keeps (rs rs' : RoundState key) : Prop where
  proposal : rs.hasProposal = true → rs'.hasProposal = true
  block : rs.getBlock.isSome → rs'.getBlock.isSome
  result : rs.processorResult.isSome → rs'.processorResult.isSome

theorem Keeps.refl (rs : RoundState key) : rs.Keeps rs := ⟨id, id, id⟩

theorem settled_configure : (configure : RoundState key).Settled := by
  simp [Settled, configure, getBlock]

variable {success : Bool} {p : Proposal} {m : Message} {belongs : m.roundKey = key}

theorem settled_setProcessorResult : (rs.setProcessorResult success).Settled :=
  fun _ => rfl

theorem keeps_setProcessorResult : rs.Keeps (rs.setProcessorResult success) :=
  ⟨id, id, fun _ => rfl⟩

theorem keeps_deserializePayload : rs.Keeps rs.deserializePayload where
  proposal := id
  block := fun held => getBlock_isSome.mpr ⟨(getBlock_isSome.mp held).1, rfl⟩
  result := id

/-- A new proposal is not parsed yet. -/
theorem settled_of_addProposal {belongs : p.roundKey = key}
    (added : rs.addProposal p belongs = some rs') : rs'.Settled := by
  rw [addProposal] at added
  split at added
  · contradiction
  · cases added
    intro held
    simp [getBlock] at held

theorem keeps_of_addProposal {belongs : p.roundKey = key}
    (added : rs.addProposal p belongs = some rs') : rs.Keeps rs' := by
  obtain ⟨vacant, held, -, -, result⟩ := addProposal_eq_some added
  refine ⟨fun _ => by rw [hasProposal, held]; rfl, fun before => ?_, fun before => result ▸ before⟩
  simp [getBlock, vacant] at before

theorem getBlock_of_addMessage (added : rs.addMessage m belongs = some rs') :
    rs'.getBlock = rs.getBlock ∧ rs'.processorResult = rs.processorResult := by
  obtain ⟨proposal, parsed, result, -⟩ := addMessage_eq_some added
  exact ⟨by rw [getBlock, getBlock, proposal, parsed], result⟩

theorem keeps_of_addMessage (added : rs.addMessage m belongs = some rs') : rs.Keeps rs' := by
  obtain ⟨block, result⟩ := getBlock_of_addMessage added
  refine ⟨?_, fun before => block ▸ before, fun before => result ▸ before⟩
  rw [hasProposal, hasProposal, (addMessage_eq_some added).1]
  exact id

theorem Settled.addMessage (h : rs.Settled)
    (added : rs.addMessage m belongs = some rs') : rs'.Settled := by
  obtain ⟨block, result⟩ := getBlock_of_addMessage added
  rw [Settled, block, result]
  exact h

end RoundState

/-- The round state whose result a handler reads once its state is durable. -/
def Next.reads : Next → Option RoundKey
  | .prevoteProposal key | .prevoteLocked key => some key
  | _ => none

def Continuation.reads : Continuation → Option RoundKey
  | .persisted _ step | .next step => step.reads
  | _ => none

/-- The calls that throw where a round state does not hold what they return. -/
inductive Read
  | getProcessorResult (key : RoundKey)
  | getBlock (key : RoundKey)
  deriving DecidableEq

def Read.Answered (repo : Repository) : Read → Prop
  | .getProcessorResult key => (repo key).processorResult.isSome
  | .getBlock key => (repo key).getBlock.isSome

/-! ## Moves -/

namespace Core

variable {env : Env} {c c' : Core} {e : Event} {key : RoundKey}

/-- Every round state can return what it could. -/
def KeepsAnswers (c c' : Core) : Prop := ∀ key, (c.roundStates key).Keeps (c'.roundStates key)

/-- Round states lose what they hold with the block number and with the process, and in no
other way. -/
theorem keeps_of_move (move : Move env c e c') : c.KeepsAnswers c' ∨ c'.roundStates = .empty ∧
      (c'.blockNumber = c.blockNumber + 1 ∨ c'.running = false) ∧
      (c'.continuation = none ∨ c'.continuation = some .roundStarted) := by
  have set {key : RoundKey} {rs : RoundState key} (h : (c.roundStates key).Keeps rs)
      (other : RoundKey) : (c.roundStates other).Keeps (c.roundStates.set key rs other) :=
    forall_set (P := fun other rs => (c.roundStates other).Keeps rs) h (fun _ _ => .refl _) other
  cases move with
  | deserialized at_ => exact .inl (set keeps_deserializePayload)
  | failed | processed => exact .inl (set keeps_setProcessorResult)
  | addMessage inside added =>
    obtain ⟨rs, put, rfl⟩ := map_eq_some_iff.mp added
    exact .inl (set (keeps_of_addMessage put))
  | addProposal inside added =>
    obtain ⟨rs, put, rfl⟩ := map_eq_some_iff.mp added
    exact .inl (set (keeps_of_addProposal put))
  | advance disposed at_ =>
    refine .inr ⟨rfl, .inl rfl, ?_⟩
    cases disposed
    · exact .inr rfl
    · exact .inl rfl
  | crash => exact .inr ⟨rfl, .inr rfl, .inl rfl⟩
  | _ => exact .inl fun key => .refl _

/-- The handler is in `#processProposal` on this round state. -/
def Processing (c : Core) (key : RoundKey) : Prop :=
  c.continuation = some (.deserialize key) ∨ c.continuation = some (.verifyLockProof key) ∨
    c.continuation = some (.process key)

/-- A parsed proposal has its result, or `#processProposal` is about to set it. -/
def Settling (c : Core) (key : RoundKey) : Prop :=
  (c.roundStates key).Settled ∨ c.Processing key

theorem settling_of_move (settled : (c.roundStates key).Settled) (move : Move env c e c') :
    c'.Settling key := by
  have set {here : RoundKey} {rs : RoundState here} (h : here = key → rs.Settled) :
      (c.roundStates.set here rs key).Settled :=
    forall_set (P := fun other rs => other = key → rs.Settled) h
      (fun other _ same => same ▸ settled) key rfl
  cases move with
  | @deserialized _ here at_ =>
    by_cases same : here = key
    · exact .inr (.inr (.inl (by rw [same])))
    · exact .inl (set fun here => absurd here same)
  | failed | processed => exact .inl (set fun _ => settled_setProcessorResult)
  | addMessage inside added =>
    obtain ⟨rs, put, rfl⟩ := map_eq_some_iff.mp added
    exact .inl (set fun same => Settled.addMessage (same ▸ settled) put)
  | addProposal inside added =>
    obtain ⟨rs, put, rfl⟩ := map_eq_some_iff.mp added
    exact .inl (set fun _ => settled_of_addProposal put)
  | advance | crash => exact .inl settled_configure
  | _ => exact .inl settled

/-- The prevote for a proposal is decided on a result. -/
def Answered (c : Core) : Prop :=
  ∀ k key, c.continuation = some k → k.reads = some key → (c.roundStates key).processorResult.isSome

theorem Answered.move (h : c.Answered) (move : Move env c e c') : c'.Answered := by
  have elsewhere {m : Core} {k : Continuation} (at_ : m.continuation = some k)
      (silent : k.reads = none) : m.Answered := by
    intro k' key at' reads
    obtain rfl := some.inj (at_.symm.trans at')
    simp [silent] at reads
  have free {m : Core} (free : m.continuation = none) : m.Answered := by
    intro k key at_
    simp [free] at at_
  cases move with
  | persist at_ shift =>
    intro k key at' reads
    cases at'
    cases shift with
    | proposal _ _ _ known | proposalLocked _ _ _ known =>
      obtain rfl : c.current = key := some.inj reads
      exact known
    | _ => simp [Continuation.reads, Next.reads] at reads
  | persisted at_ =>
    intro k key at' reads
    cases at'
    exact h _ key at_ reads
  | addMessage inside added =>
    obtain ⟨-, -, -, same, -⟩ := addMessage_eq_some added
    intro k key at_ reads
    exact (same key).2 ▸ h k key at_ reads
  | addProposal inside added =>
    obtain ⟨-, -, -, same⟩ := addProposal_eq_some added
    intro k key at_ reads
    exact (same key).2.2 ▸ h k key at_ reads
  | leave | throw | failed | processed | build | crash => exact free rfl
  | begin disposed | advance disposed =>
    cases disposed
    · exact elsewhere rfl rfl
    · exact free rfl
  | deserialize | deserialized | lockProofVerified | cast | sign | saveVote | voteSaved
  | processBlock | decideCommit | decide | lockCommit | commitUnit | storeCommit =>
    exact elsewhere rfl rfl
  | _ => exact h

/-- `#processProposal` works on a proposal, and hands over a parsed one. -/
structure Parsing (c : Core) : Prop where
  deserialize : ∀ key, c.continuation = some (.deserialize key) →
    (c.roundStates key).hasProposal = true
  verifyLockProof : ∀ key, c.continuation = some (.verifyLockProof key) →
    (c.roundStates key).getBlock.isSome
  process : ∀ key, c.continuation = some (.process key) → (c.roundStates key).getBlock.isSome

theorem Parsing.keep (h : c.Parsing) (keeps : c.KeepsAnswers c') (same : c'.continuation = c.continuation) :
    c'.Parsing where
  deserialize key at_ := (keeps key).proposal (h.deserialize key (same ▸ at_))
  verifyLockProof key at_ := (keeps key).block (h.verifyLockProof key (same ▸ at_))
  process key at_ := (keeps key).block (h.process key (same ▸ at_))

theorem parsing_of_free (free : c.continuation = none) : c.Parsing := by
  constructor <;> simp [free]

variable {k : Continuation}

theorem parsing_of_reads (at_ : c.continuation = some k) (deserialize : ∀ key, k ≠ .deserialize key)
    (verify : ∀ key, k ≠ .verifyLockProof key) (process : ∀ key, k ≠ .process key) : c.Parsing := by
  constructor <;> simp [at_, deserialize, verify, process]

theorem Parsing.move (h : c.Parsing) (move : Move env c e c') : c'.Parsing := by
  obtain keeps | ⟨-, -, free | at_⟩ := keeps_of_move move
  · cases move with
    | @deserialize _ key free held =>
      refine ⟨fun other at_ => ?_, by simp, by simp⟩
      obtain rfl : key = other := by simpa using at_
      exact held
    | @deserialized _ key at_ =>
      refine ⟨by simp, fun other at' => ?_, by simp⟩
      obtain rfl : key = other := by simpa using at'
      show (c.roundStates.set key _ key).getBlock.isSome
      rw [set_self]
      exact getBlock_isSome.mpr ⟨h.deserialize key at_, rfl⟩
    | @lockProofVerified _ key _ at_ =>
      refine ⟨by simp, by simp, fun other at' => ?_⟩
      obtain rfl : key = other := by simpa using at'
      exact h.verifyLockProof key at_
    | leave | throw | failed | processed | build | crash => exact parsing_of_free rfl
    | begin disposed | advance disposed =>
      cases disposed
      · exact parsing_of_reads rfl (by simp) (by simp) (by simp)
      · exact parsing_of_free rfl
    | persist | persisted | cast | sign | saveVote | voteSaved | processBlock | decideCommit
    | decide | lockCommit | commitUnit | storeCommit =>
      exact parsing_of_reads rfl (by simp) (by simp) (by simp)
    | _ => exact h.keep keeps rfl
  · exact parsing_of_free free
  · exact parsing_of_reads at_ (by simp) (by simp) (by simp)

end Core

namespace Node

variable {env : Env} {n n' : Node} {e : Event} {key : RoundKey} {database : BlockHeader}

/-! ## The rules that are left -/

/-- Of these statements, each rule that may read the result of a round state comes after
`#processProposal` on it, or the round state is in the given set. -/
def Ready (settled : RoundKey → Prop) : List Statement → Prop
  | [] => True
  | .rule .processProposal key :: todo => Ready (fun other => settled other ∨ other = key) todo
  | .rule _ key :: todo => settled key ∧ Ready settled todo
  | _ :: todo => Ready settled todo

variable {todo : List Statement}

theorem Ready.mono {settled settled' : RoundKey → Prop} (le : ∀ key, settled key → settled' key)
    (h : Ready settled todo) : Ready settled' todo := by
  induction todo generalizing settled settled' with
  | nil => trivial
  | cons statement todo ih =>
    cases statement with
    | rule rule key =>
      cases rule with
      | processProposal => exact ih (fun other => Or.imp_left (le other)) h
      | _ => exact ⟨le key h.1, ih le h.2⟩
    | _ => exact ih le h

theorem ready_applyRules {settled : RoundKey → Prop} (h : Ready settled n.todo) :
    Ready settled (n.applyRules key).todo := by
  rw [applyRules]
  split
  · simp only [Ready, or_true, true_and]
    exact h.mono fun _ => .inl
  · exact h

/-- What a rule leaves before the handler. -/
theorem todo_execRule (rule : Rule) : (n.execRule env key rule).todo = n.todo ∨
      (n.execRule env key rule).todo = .applyCurrent :: n.todo ∨
      rule ≠ .processProposal ∧ ¬ (n.roundStates key).Settled ∧
        (n.execRule env key rule).todo = [] := by
  have ruled := @ruled_execRule env n key rule
  generalize n.execRule env key rule = m at ruled ⊢
  cases ruled with
  | throw decided later parsed missing =>
    refine .inr (.inr ⟨later, fun settled => ?_, rfl⟩)
    simpa [missing] using settled parsed
  | persist todo => exact todo.imp_right .inl
  | _ => exact .inl rfl

/-! ## One step -/

variable {reply : Reply} {rule : Rule} {r : Read}

/-- While the handler is in `#processProposal`, it goes on there until it has set the result. -/
theorem settling_resume (processing : n.toCore.Processing key)
    (taken : n.goOn env reply = some n') : n'.toCore.Settling key := by
  have set {success : Bool} : (n.setResult key success).Settling key := by
    refine .inl ?_
    simp only [setResult, set_self]
    exact settled_setProcessorResult
  obtain at_ | at_ | at_ := processing
  · simp only [goOn, at_, resume] at taken
    split at taken
    · cases taken
      exact set
    · cases taken
      exact .inr (.inr (.inl rfl))
  · simp only [goOn, at_, resume] at taken
    split at taken
    · cases taken
      exact set
    · split at taken
      · cases taken
        exact .inr (.inr (.inr rfl))
      · cases taken
        exact set
  · simp only [goOn, at_, resume] at taken
    cases taken
    exact set

theorem not_idle_of_processing (processing : n.toCore.Processing key) : n.idle = false := by
  obtain at_ | at_ | at_ := processing <;> simp [idle, at_]

theorem settling_stepRunning (settling : n.toCore.Settling key)
    (taken : n.stepRunning env e = some n') : n'.toCore.Settling key ∨ n'.todo = [] := by
  obtain settled | processing := settling
  · exact .inl (settling_of_move settled (move_stepRunning taken))
  · obtain ⟨reply, goes⟩ | ⟨-, rfl⟩ | ⟨kept, rfl⟩ | beside :=
      stepRunning_of_busy (not_idle_of_processing processing) taken
    · exact .inl (settling_resume processing goes)
    · exact .inr rfl
    · exact .inr rfl
    · rw [Settling, Processing, beside.continuation]
      exact .inl (.inr processing)

/-- `#processProposal` leaves a result, or goes on to one, wherever there is a parsed
proposal. -/
theorem settling_processProposal : (n.processProposal key).toCore.Settling key := by
  rw [processProposal]
  split
  · exact .inr (.inl rfl)
  · next guard =>
      refine .inl fun parsed => ?_
      rw [not_and, getBlock_isSome.mp parsed |>.1] at guard
      exact isSome_iff_ne_none.mpr fun missing => guard missing rfl

theorem ready_exec {settled : RoundKey → Prop} {statement : Statement}
    (at_ : n.todo = todo) (h : Ready settled (statement :: todo))
    (kept : ∀ key, settled key → (n.exec env statement).toCore.Settling key) :
    Ready (n.exec env statement).toCore.Settling (n.exec env statement).todo := by
  subst at_
  cases statement with
  | applyCurrent =>
    rw [exec] at kept ⊢
    split
    · exact h.mono (by simpa [*] using kept)
    · exact ready_applyRules (h.mono (by simpa [*] using kept))
  | unlockCommit | boot => exact h.mono kept
  | rule rule key =>
    have rest : Ready (n.execRule env key rule).toCore.Settling n.todo := by
      cases rule with
      | processProposal =>
        have after : Ready (fun other => settled other ∨ other = key) n.todo := h
        refine after.mono ?_
        rintro other (settled | rfl)
        · exact kept other settled
        · exact settling_processProposal
      | _ => exact h.2.mono kept
    have leaves := @todo_execRule env n key rule
    rw [exec]
    obtain same | starts | ⟨-, -, dropped⟩ := leaves
    · rw [same]
      exact rest
    · rw [starts]
      exact rest
    · rw [dropped]
      trivial

theorem ready_stepRunning (h : Ready n.toCore.Settling n.todo)
    (taken : n.stepRunning env e = some n') : Ready n'.toCore.Settling n'.todo := by
  by_cases empty : n'.todo = []
  · rw [empty]
    trivial
  · have kept (key : RoundKey) (settling : n.toCore.Settling key) : n'.toCore.Settling key :=
      (settling_stepRunning settling taken).resolve_right empty
    cases follows_stepRunning taken with
    | same todo =>
      rw [todo]
      exact h.mono kept
    | dropped todo => exact absurd todo empty
    | startRound todo | committed _ _ todo =>
      rw [todo]
      exact h.mono kept
    | applyRules key same =>
      rw [same] at kept ⊢
      exact ready_applyRules (h.mono kept)
    | exec free at_ same =>
      rw [same] at kept ⊢
      rw [at_] at h
      exact ready_exec rfl h kept

/-! ## What the next step reads -/

/-- The calls that the handler makes when it goes on. `prepareProposal` reads the block found
valid, and the block processor the one it processes; a rule reads where its majority is
there. Further guards of a rule that come before the call are left out. -/
def reads (env : Env) (n : Node) : List Read :=
  match n.continuation with
  | some (.next (.prevoteProposal key)) | some (.next (.prevoteLocked key)) =>
    [.getProcessorResult key]
  | some (.process key) => [.getBlock key]
  | some .roundStarted => n.validValue.toList.map .getBlock
  | some _ => []
  | none =>
    match n.todo with
    | .rule .onMajorityPrevote key :: _ =>
      if (n.roundStates key).hasMajorityPrevotes (env.roundValidators key.blockNumber) then
        [.getProcessorResult key]
      else []
    | .rule .onMajorityPrecommit key :: _ =>
      if (n.roundStates key).hasMajorityPrecommits (env.roundValidators key.blockNumber) then
        [.getBlock key, .getProcessorResult key]
      else []
    | _ => []

/-! ## Runs -/

/-- What the rules rest on. -/
structure Answering (n : Node) : Prop where
  ready : Ready n.toCore.Settling n.todo
  answered : n.toCore.Answered
  parsing : n.toCore.Parsing

theorem Answering.transition (h : n.Answering) (taken : n.transition env e = some n') :
    n'.Answering := by
  by_cases up : n.running = true
  · rw [transition_of_running up] at taken
    exact ⟨ready_stepRunning h.ready taken, h.answered.move (move_stepRunning taken),
      h.parsing.move (move_stepRunning taken)⟩
  · simp only [Node.transition, if_neg up] at taken
    split at taken
    · rw [restart] at taken
      split at taken
      · contradiction
      · cases taken
        refine ⟨trivial, ?_, parsing_of_reads rfl (by simp) (by simp) (by simp)⟩
        intro k key at_ reads
        obtain rfl : Continuation.beginRound = k := some.inj at_
        simp [Continuation.reads] at reads
    · contradiction

variable {ok : Node → Event → Prop}

theorem answering_of_runs (run : Runs env ok database n) : n.Answering :=
  run.invariant (P := Answering)
    ⟨trivial, fun _ _ at_ => by simp [start, off, Core.off] at at_, Core.parsing_of_free rfl⟩
    fun _ _ _ h _ taken => h.transition taken

section

variable (h : n.Answering)
include h

/-- A rule that comes next, after `#processProposal`, finds a parsed proposal processed. -/
theorem Answering.settled (free : n.continuation = none) (at_ : n.todo = .rule rule key :: todo)
    (later : rule ≠ .processProposal) : (n.roundStates key).Settled := by
  have ready := h.ready
  rw [at_] at ready
  have settling : n.toCore.Settling key := by
    cases rule with
    | processProposal => contradiction
    | _ => exact ready.1
  refine settling.resolve_right ?_
  rintro (at_ | at_ | at_) <;> simp [free] at at_

theorem Answering.reads (locks : n.Locks env) (up : n.running = true)
    (member : r ∈ n.reads env) : r.Answered n.roundStates := by
  rw [Node.reads] at member
  split at member
  · next key at_ =>
      obtain rfl := mem_singleton.mp member
      exact h.answered _ key at_ rfl
  · next key at_ =>
      obtain rfl := mem_singleton.mp member
      exact h.answered _ key at_ rfl
  · next key at_ =>
      obtain rfl := mem_singleton.mp member
      exact h.parsing.process key at_
  · simp only [List.mem_map, mem_toList] at member
    obtain ⟨key, valid, rfl⟩ := member
    exact getBlock_of_hasMajorityPrevotes (locks.valid up key valid).2
  · contradiction
  · next free =>
      split at member
      · next key todo at_ =>
          split at member
          · next majority =>
              obtain rfl := mem_singleton.mp member
              exact h.settled free at_ (by simp) (getBlock_of_hasMajorityPrevotes majority)
          · contradiction
      · next key todo at_ =>
          split at member
          · next majority =>
              have parsed := getBlock_of_hasMajorityPrecommits majority
              simp only [mem_cons, not_mem_nil, or_false] at member
              obtain rfl | rfl := member
              · exact parsed
              · exact h.settled free at_ (by simp) parsed
          · contradiction
      · contradiction

/-- A rule leaves the rules after it in place. -/
theorem Answering.suffix (free : n.continuation = none) (at_ : n.todo = .rule rule key :: todo) :
    ∃ n', n.goOn env reply = some n' ∧ todo <:+ n'.todo := by
  refine ⟨{ n with todo := todo }.execRule env key rule, by simp only [goOn, free, at_, exec], ?_⟩
  obtain same | starts | ⟨later, unsettled, -⟩ :=
    @todo_execRule env { n with todo := todo } key rule
  · rw [same]
  · rw [starts]
    exact suffix_cons ..
  · exact absurd (h.settled free at_ later) unsettled

end

theorem blockNumber_le_of_le {c c' : Core} (le : c.position ≤ c'.position) :
    c.blockNumber ≤ c'.blockNumber := by
  obtain lower | ⟨same, -⟩ := le
  · exact Nat.le_of_lt lower
  · exact Nat.le_of_eq same

/-- What a round state can return, it can as long as the process lives and the block number
stays. -/
theorem answered_lasts (answered : r.Answered n.roundStates) (up : n.running = true)
    (run : Transition.Reach (transition env) (fun _ e => e.Survives) n n') :
    n'.running = true ∧ n.blockNumber ≤ n'.blockNumber ∧
      (n'.blockNumber = n.blockNumber → r.Answered n'.roundStates) := by
  refine run.invariant (P := fun m => m.running = true ∧ n.blockNumber ≤ m.blockNumber ∧
    (m.blockNumber = n.blockNumber → r.Answered m.roundStates))
    ⟨up, le_refl _, fun _ => answered⟩ ?_
  rintro m e m' ⟨running, le, holds⟩ survives taken
  cases transition_step taken with
  | restart off => simp [running] at off
  | move _ move =>
    obtain ⟨running', forward⟩ := move.forward running survives
    have higher : m.blockNumber ≤ m'.blockNumber := blockNumber_le_of_le forward
    refine ⟨running', le.trans higher, fun same => ?_⟩
    obtain keeps | ⟨-, left, -⟩ := keeps_of_move move
    · have before := holds (by omega)
      cases r with
      | getProcessorResult key => exact (keeps key).result before
      | getBlock key => exact (keeps key).block before
    · obtain next | stopped := left
      · omega
      · simp [running'] at stopped

theorem down_of_runs (run : Runs env ok database n) : n.toCore.Down ∧ n.Down :=
  run.invariant (P := fun n => n.toCore.Down ∧ n.Down) ⟨fun _ => rfl, fun _ => rfl⟩
    fun _ _ _ _ _ taken => ⟨down_of_step (transition_step taken), down_of_transition taken⟩

/-- A process that is down makes no calls. -/
theorem running_of_reads (run : Runs env ok database n)
    (member : r ∈ n.reads env) : n.running = true := by
  have down := down_of_runs run
  by_contra stopped
  have stopped : n.running = false := by simpa using stopped
  have free : n.continuation = none := congrArg continuation (down.1 stopped)
  have empty : n.todo = [] := congrArg todo (down.2 stopped)
  simp [reads, free, empty] at member

/-- The rules never read what is not there. Whatever the handler is suspended in and whatever
has been added meanwhile, each call it makes when it goes on is answered; what a call has found
once, the calls behind the next `await`s of the same block number find too; and no rule drops
the rules after it. -/
theorem reads_answered (run : Runs env (fun _ _ => True) database n) :
    (∀ r ∈ n.reads env, r.Answered n.roundStates ∧
      ∀ m, Transition.Reach (transition env) (fun _ e => e.Survives) n m →
        m.blockNumber = n.blockNumber → r.Answered m.roundStates) ∧
    ∀ rule key todo reply, n.continuation = none → n.todo = .rule rule key :: todo →
      ∃ n', n.goOn env reply = some n' ∧ todo <:+ n'.todo := by
  have answering := answering_of_runs run
  refine ⟨fun r member => ?_, fun rule key todo reply free at_ => answering.suffix free at_⟩
  have up : n.running = true := running_of_reads run member
  have answered := answering.reads (locks_of_runs run) up member
  exact ⟨answered, fun m later same => (answered_lasts answered up later).2.2 same⟩

/-- The process is started again after the lock. The bootstrapper parses the locked proposal
and leaves the result to `#processProposal`. -/
def restoresLock : List Event :=
  locksRoundZero ++ [.crash 9, .restart true true] ++ replicate 9 succeeds

theorem reads_answered_restoresLock : ∃ n, Runs soloEnv (fun _ _ => True) genesisHeader n ∧
      n.reads soloEnv = [.getProcessorResult ⟨1, 0⟩] ∧
      (n.roundStates ⟨1, 0⟩).processorResult.isSome := by
  have evaluated : (Transition.run (transition soloEnv) (start genesisHeader)
      restoresLock).map (reads soloEnv) = some [.getProcessorResult ⟨1, 0⟩] := by
    decide +kernel
  obtain ⟨n, run, observed⟩ := Transition.Reach.exists_of_run evaluated
    (.of_forall fun _ _ _ => trivial)
  have answered := (reads_answered run).1 (.getProcessorResult ⟨1, 0⟩) (by simp [observed])
  exact ⟨n, run, observed, answered.1⟩

end Node

end Mainsail
