import Mainsail.Consensus.ProcessorResults
import Mainsail.Consensus.Proposing
import Mainsail.Foundation.Path

/-!
# The calls of `handle`

Each vote and each proposal that a processor adds to a round state is to be followed by
`applyRules` on it. Between the two stand the write to the store, for a proposal a timer, and
the handler lock. `handle` leaves out a call for a round state that is in `#pendingJobs`: the
call that put it there has not started its rules yet, because it takes the mark away first.

The node is the state machine of the other modules, where `handle` may start at any time the
lock is free. Here it starts only as one of the calls that wait, and an addition carries the
number of its write with its round state. A write that fails stops the node.
-/

namespace Mainsail

open Transition Node Option List

/-- What a processor added, and the write it waits for. -/
structure Addition where
  ticket : Nat
  key : RoundKey
  isProposal : Bool
  deriving DecidableEq, Repr

/-- The addition that a step makes. -/
def Node.addition (n : Node) : Event → Option Addition
  | .messageVerified m true =>
    if (n.roundStates.addMessage m).isSome then
      some ⟨(n.storage.write (.message m)).issued, m.roundKey, false⟩
    else none
  | .proposalVerified p true =>
    if (n.roundStates.addProposal p).isSome then
      some ⟨(n.storage.write (.proposal p)).issued, p.roundKey, true⟩
    else none
  | _ => none

/-- A node with the calls on their way to `applyRules`. -/
structure Dispatch where
  node : Node
  /-- Calls of the processors that wait for their write. -/
  saving : List Addition
  /-- The timers of the proposal processor. -/
  timers : List RoundKey
  /-- `#pendingJobs`: the calls of `handle` that wait for the handler lock. -/
  pendingJobs : List RoundKey

inductive DispatchEvent
  | node (event : Event)
  /-- A processor goes on after its write. -/
  | saved (addition : Addition)
  /-- A timer of the proposal processor fires. -/
  | timeout (key : RoundKey)
  /-- A call of `handle` gets the handler lock. -/
  | enter (key : RoundKey)
  deriving DecidableEq

namespace Dispatch

variable (env : Env) (d : Dispatch)

def start (database : BlockHeader) : Dispatch := ⟨.start database, [], [], []⟩

/-- `handle` up to its first `await`. -/
def handle (key : RoundKey) : Dispatch :=
  if key ∈ d.pendingJobs then d else { d with pendingJobs := d.pendingJobs ++ [key] }

/-- The end of `process` in both processors. -/
def accept (addition : Addition) : Dispatch :=
  if addition.isProposal then { d with timers := d.timers ++ [addition.key] }
  else d.handle addition.key

/-- The callback of `handle`: the mark goes, and then the rules are applied, unless consensus is
disposed or has left the block number. -/
def enter (key : RoundKey) : Dispatch := { d with
  node := (d.node.transition env (.handle key)).getD d.node
  pendingJobs := d.pendingJobs.erase key }

/-- A crash leaves nothing in memory. -/
def stepNode (node : Node) (event : Event) : Option Dispatch :=
  match event with
  | .handle _ | .incomingSaved _ => none
  | .crash _ => some ⟨node, [], [], []⟩
  | event => some { d with node := node, saving := d.saving ++ (d.node.addition event).toList }

def step : DispatchEvent → Option Dispatch
  | .node event => do
      let node ← d.node.transition env event
      d.stepNode node event
  | .saved addition =>
    if addition ∈ d.saving then do
      let node ← d.node.transition env (.incomingSaved addition.ticket)
      return { d with node := node, saving := d.saving.erase addition }.accept addition
    else none
  | .timeout key =>
    if key ∈ d.timers then some ({ d with timers := d.timers.erase key }.handle key) else none
  | .enter key => if key ∈ d.pendingJobs ∧ d.node.idle then some (d.enter env key) else none

end Dispatch

/-! ## The node -/

namespace Node

variable {env : Env} {n n' : Node} {e : Event}

/-- What a processor adds belongs to the current block number. -/
theorem blockNumber_of_addition {a : Addition} (heights : n.Heights)
    (taken : n.transition env e = some n') (added : n.addition e = some a) :
    n.running = true ∧ a.key.blockNumber = n.blockNumber := by
  have up : n.running = true := by
    by_contra down
    unfold transition at taken
    rw [if_neg down] at taken
    split at taken
    · cases added
    · contradiction
  rw [transition_of_running up] at taken
  refine ⟨up, ?_⟩
  cases e with
  | messageVerified m valid =>
    cases valid with
    | false => cases added
    | true =>
      simp only [stepRunning, messageVerified, ite_none_right_eq_some] at taken
      obtain ⟨-, rfl⟩ := of_ite_eq_some added
      exact heights.message_eq m taken.1
  | proposalVerified p valid =>
    cases valid with
    | false => cases added
    | true =>
      simp only [stepRunning, proposalVerified, ite_none_right_eq_some] at taken
      obtain ⟨-, rfl⟩ := of_ite_eq_some added
      exact heights.proposal_eq p taken.1
  | _ => cases added

theorem heights_of_runs {ok : Node → Event → Prop} {database : BlockHeader}
    (run : Runs env ok database n) : n.Heights := by
  have both : n.toCore.Down ∧ n.Heights := by
    refine run.invariant (P := fun n => n.toCore.Down ∧ n.Heights)
      ⟨fun _ => rfl, Core.heights_off ..⟩ ?_
    intro m e m' h _ taken
    exact ⟨Core.down_of_step (transition_step taken), h.2.step h.1 (transition_step taken)⟩
  exact both.2

/-- Through crashes and restarts, the block in work is the one after that of the state store, and
the database may already have it. What the processors and a commit are at is of its number. -/
theorem blockNumber_follows_database {ok : Node → Event → Prop} {database : BlockHeader}
    (run : Runs env ok database n) (up : n.running = true) :
    n.stateStore.number ≤ n.database.number ∧ n.database.number ≤ n.blockNumber ∧
      n.blockNumber ≤ n.stateStore.number + 1 ∧
      (∀ m, .message m ∈ n.processing → m.blockNumber = n.blockNumber) ∧
      (∀ p, .proposal p ∈ n.processing → p.blockHeader.number = n.blockNumber) ∧
      ∀ block, n.continuation = some (.commitUnit block) →
        block.number = n.blockNumber ∧ n.exclusive = true := by
  have h := heights_of_runs run
  exact ⟨h.stateStore_le, h.le_blockNumber up, h.le_stateStore up, h.message_eq, h.proposal_eq,
    fun _ at_ => ⟨h.commitUnit_eq at_, h.drained.of_at at_⟩⟩

/-- A crash once the first block is in the database, and not yet in the state store. After the
restart the second one is committed while a prevote is verified. -/
def commitsBesidePrevote : List Event :=
  .restart true true :: replicate 14 succeeds ++
    [.handleCommitState ⟨⟨1, [7], 0⟩, ⟨⟨[], [true]⟩, 0⟩⟩, succeeds, succeeds, succeeds, .crash 0,
      .restart true true] ++ replicate 14 succeeds ++
    [.processMessage ⟨.prevote, 2, 0, none, 0, []⟩,
      .handleCommitState ⟨⟨2, [8], 0⟩, ⟨⟨[], [true]⟩, 0⟩⟩, succeeds, succeeds]

theorem blockNumber_follows_database_commitsBesidePrevote :
    ∃ n, Runs soloEnv (fun _ _ => True) genesisHeader n ∧ n.database = ⟨1, [7], 0⟩ ∧
      n.processing = [.message ⟨.prevote, 2, 0, none, 0, []⟩] ∧
      n.continuation = some (.commitUnit ⟨2, [8], 0⟩) ∧ n.blockNumber = 2 ∧ n.exclusive = true ∧
      n.blockNumber ≤ n.stateStore.number + 1 := by
  have ran : (Transition.run (transition soloEnv) (start genesisHeader) commitsBesidePrevote).map
      (fun n => (n.running, n.database, n.processing, n.continuation)) = some (true, ⟨1, [7], 0⟩,
        [.message ⟨.prevote, 2, 0, none, 0, []⟩], some (.commitUnit ⟨2, [8], 0⟩)) := by decide +kernel
  obtain ⟨n, run, observed⟩ := Reach.exists_of_run ran (.of_forall fun _ _ _ => trivial)
  simp only [Prod.mk.injEq] at observed
  obtain ⟨up, database, inside, at_⟩ := observed
  obtain ⟨-, -, le, -, -, unit⟩ := blockNumber_follows_database run up
  exact ⟨n, run, database, inside, at_, (unit _ at_).1.symm, (unit _ at_).2, le⟩

/-- A process that goes on runs. -/
theorem running_of_transition (up : n.running = true) (survives : e.Survives)
    (taken : n.transition env e = some n') : n'.running = true := by
  rw [transition_of_running up] at taken
  exact ((move_stepRunning taken).forward up survives).1

end Node

namespace Dispatch

variable {env : Env} {database : BlockHeader} {d d' : Dispatch} {key : RoundKey}

/-! ## One step -/

theorem mem_handle (d : Dispatch) (key : RoundKey) : key ∈ (d.handle key).pendingJobs := by
  unfold handle
  split
  · assumption
  · simp

theorem handle_frame (d : Dispatch) (key : RoundKey) :
    (d.handle key).node = d.node ∧ (d.handle key).saving = d.saving ∧
      (d.handle key).timers = d.timers ∧ d.pendingJobs ⊆ (d.handle key).pendingJobs := by
  unfold handle
  split
  · exact ⟨rfl, rfl, rfl, List.Subset.refl _⟩
  · exact ⟨rfl, rfl, rfl, subset_append_left ..⟩

/-- An accepted addition waits for its timer or for the handler lock. -/
theorem awaits_accept (d : Dispatch) (a : Addition) :
    a.key ∈ (d.accept a).timers ∨ a.key ∈ (d.accept a).pendingJobs := by
  unfold accept
  split
  · left
    simp
  · exact .inr (d.mem_handle a.key)

theorem accept_node (d : Dispatch) (a : Addition) : (d.accept a).node = d.node := by
  unfold accept
  split
  · rfl
  · exact (d.handle_frame a.key).1

/-- The process ends. -/
def Stops (e : DispatchEvent) : Prop := ∃ kept, e = .node (.crash kept)

/-- The node does nothing, or makes a step of its own. -/
theorem node_of_step {e : DispatchEvent} (taken : d.step env e = some d') :
    d'.node = d.node ∨ ∃ event, d.node.transition env event = some d'.node ∧
      (¬ Stops e → event.Survives) := by
  cases e with
  | node event =>
    obtain ⟨node, moved, rest⟩ := bind_eq_some_iff.mp taken
    cases event with
    | handle | incomingSaved => contradiction
    | crash kept =>
      cases rest
      exact .inr ⟨_, moved, fun goesOn => absurd ⟨kept, rfl⟩ goesOn⟩
    | _ =>
      cases rest
      exact .inr ⟨_, moved, fun _ => trivial⟩
  | saved a =>
    simp only [step, ite_none_right_eq_some] at taken
    obtain ⟨node, moved, rest⟩ := bind_eq_some_iff.mp taken.2
    cases rest
    rw [accept_node]
    exact .inr ⟨_, moved, fun _ => trivial⟩
  | timeout key =>
    obtain ⟨-, rfl⟩ := of_ite_eq_some taken
    exact .inl (handle_frame ..).1
  | enter key =>
    obtain ⟨-, rfl⟩ := of_ite_eq_some taken
    show Option.getD _ _ = _ ∨ _
    cases moved : d.node.transition env (.handle key) with
    | none => exact .inl rfl
    | some node => exact .inr ⟨.handle key, by simp [enter, moved], fun _ => trivial⟩

open Dispatch

/-- The node of a run is one of the runs of the machine. -/
theorem node_runs (run : Reach (step env) (fun _ _ => True) (start database) d) :
    Runs env (fun _ _ => True) database d.node := by
  refine run.invariant (P := fun d => Runs env (fun _ _ => True) database d.node) .refl ?_
  intro s e s' before _ taken
  obtain same | ⟨event, moved, -⟩ := node_of_step taken
  · exact same ▸ before
  · exact .tail before trivial moved

/-- What a step that is not a crash leaves in place. -/
structure Keeps (d : Dispatch) (e : DispatchEvent) (d' : Dispatch) : Prop where
  running : d.node.running = true → d'.node.running = true
  saving : ∀ a ∈ d.saving, e ≠ .saved a → a ∈ d'.saving
  timers : ∀ key ∈ d.timers, e ≠ .timeout key → key ∈ d'.timers
  pendingJobs : ∀ key ∈ d.pendingJobs, e ≠ .enter key → key ∈ d'.pendingJobs

theorem mem_erase_of_other {α β : Type} [DecidableEq α] {f : α → β} {a b : α} {l : List α}
    (member : a ∈ l) (other : f b ≠ f a) : a ∈ l.erase b :=
  (mem_erase_of_ne fun same => other (congrArg f same.symm)).mpr member

theorem keeps_of_step {e : DispatchEvent} (taken : d.step env e = some d') (goesOn : ¬ Stops e) :
    d.Keeps e d' := by
  have running (up : d.node.running = true) : d'.node.running = true := by
    obtain same | ⟨event, moved, survives⟩ := node_of_step taken
    · rw [same]
      exact up
    · exact running_of_transition up (survives goesOn) moved
  cases e with
  | node event =>
    obtain ⟨node, moved, rest⟩ := bind_eq_some_iff.mp taken
    cases event with
    | handle | incomingSaved => contradiction
    | crash kept => exact absurd ⟨kept, rfl⟩ goesOn
    | _ =>
      cases rest
      exact ⟨running, fun a member _ => mem_append_left _ member,
        fun key member _ => member, fun key member _ => member⟩
  | saved b =>
    simp only [step, ite_none_right_eq_some] at taken
    obtain ⟨node, moved, rest⟩ := bind_eq_some_iff.mp taken.2
    cases rest
    have others : ∀ a ∈ d.saving, DispatchEvent.saved b ≠ .saved a → a ∈ d.saving.erase b :=
      fun a member other => mem_erase_of_other member other
    unfold accept at running ⊢
    split_ifs at running ⊢
    · exact ⟨running, others, fun key member _ => mem_append_left _ member,
        fun key member _ => member⟩
    · obtain ⟨-, saving, timers, jobs⟩ :=
        handle_frame { d with node := node, saving := d.saving.erase b } b.key
      refine ⟨running, ?_, ?_, fun key member _ => jobs member⟩
      · rw [saving]
        exact others
      · rw [timers]
        exact fun key member _ => member
  | timeout key =>
    obtain ⟨-, rfl⟩ := of_ite_eq_some taken
    obtain ⟨-, saving, timers, jobs⟩ := handle_frame { d with timers := d.timers.erase key } key
    refine ⟨running, ?_, ?_, fun key member _ => jobs member⟩
    · rw [saving]
      exact fun a member _ => member
    · rw [timers]
      exact fun other member distinct => mem_erase_of_other member distinct
  | enter key =>
    obtain ⟨-, rfl⟩ := of_ite_eq_some taken
    exact ⟨running, fun a member _ => member, fun key member _ => member,
      fun other member distinct => mem_erase_of_other member distinct⟩

/-! ## Whole runs -/

/-- No call waits for ever: a write ends, a timer fires, and the handler lock is handed on. -/
structure Fair (p : Path (step env) (start database)) : Prop where
  saves : ∀ i, ∀ a ∈ (p.states i).saving,
    ∃ j, i ≤ j ∧ (p.events j = .saved a ∨ a ∉ (p.states j).saving)
  fires : ∀ i, ∀ key ∈ (p.states i).timers,
    ∃ j, i ≤ j ∧ (p.events j = .timeout key ∨ key ∉ (p.states j).timers)
  enters : ∀ i, ∀ key ∈ (p.states i).pendingJobs,
    ∃ j, i ≤ j ∧ (p.events j = .enter key ∨ key ∉ (p.states j).pendingJobs)

/-- What can become of an addition at the event `j`: `handle` starts the rules of its round state,
consensus is disposed or at another block number than `number`, or the process ends. -/
def Settles (p : Path (step env) (start database)) (key : RoundKey)
    (number j : Nat) : Prop :=
  (p.events j = .enter key ∧ (p.states (j + 1)).node = (p.states j).node.applyRules key) ∨
    (p.states j).node.isDisposed = true ∨ (p.states j).node.blockNumber ≠ number ∨
    Stops (p.events j)

section

variable {p : Path (step env) (start database)} {a : Addition} {i : Nat}

theorem settles_of_enter {j : Nat} (enters : p.events j = .enter a.key)
    (up : (p.states j).node.running = true) : Settles p a.key a.key.blockNumber j := by
  have taken := p.taken j
  rw [enters] at taken
  obtain ⟨⟨-, idle⟩, next⟩ := of_ite_eq_some taken
  by_cases disposed : (p.states j).node.isDisposed = true
  · exact .inr (.inl disposed)
  by_cases moved : (p.states j).node.blockNumber = a.key.blockNumber
  · have starts : (p.states j).node.transition env (.handle a.key) =
        some ((p.states j).node.applyRules a.key) := by
      rw [transition_of_running up]
      exact if_pos ⟨idle, by simpa using disposed, moved.symm⟩
    refine .inl ⟨enters, ?_⟩
    rw [← next, enter, starts]
    rfl
  · exact .inr (.inr (.inl moved))

/-- A call that waits for `e` gets it while the process runs, unless that ends. -/
theorem exists_event {W : Dispatch → Prop} {e : DispatchEvent}
    (keeps : ∀ {d e' d'}, Keeps d e' d' → e' ≠ e → W d → W d')
    (fair : ∃ j, i ≤ j ∧ (p.events j = e ∨ ¬ W (p.states j)))
    (up : (p.states i).node.running = true) (waits : W (p.states i)) :
    ∃ j, i ≤ j ∧ (p.events j = e ∧ (p.states j).node.running = true ∨ Stops (p.events j)) := by
  obtain ⟨j, le, ⟨taken, up', -⟩ | stops⟩ :=
    p.leads (P := fun d => d.node.running = true ∧ W d) (S := Stops) (fun j holds other goesOn =>
        have kept := keeps_of_step (p.taken j) goesOn
        ⟨kept.running holds.1, keeps kept other holds.2⟩)
      (fair.imp fun j found => found.imp_right (.imp_right fun gone holds => gone holds.2))
      ⟨up, waits⟩
  · exact ⟨j, le, .inl ⟨taken, up'⟩⟩
  · exact ⟨j, le, .inr stops⟩

theorem exists_settles_of_pendingJobs (fair : Fair p) (up : (p.states i).node.running = true)
    (pending : a.key ∈ (p.states i).pendingJobs) :
    ∃ j, i ≤ j ∧ Settles p a.key a.key.blockNumber j := by
  obtain ⟨j, le, ⟨enters, up'⟩ | stops⟩ :=
    exists_event (fun kept other holds => kept.pendingJobs _ holds other) (fair.enters i a.key pending) up pending
  · exact ⟨j, le, settles_of_enter enters up'⟩
  · exact ⟨j, le, .inr (.inr (.inr stops))⟩

theorem exists_settles_of_timers (fair : Fair p) (up : (p.states i).node.running = true)
    (waits : a.key ∈ (p.states i).timers) : ∃ j, i ≤ j ∧ Settles p a.key a.key.blockNumber j := by
  obtain ⟨j, le, ⟨fires, up'⟩ | stops⟩ :=
    exists_event (fun kept other holds => kept.timers _ holds other) (fair.fires i a.key waits) up waits
  · have taken := p.taken j
    rw [fires] at taken
    obtain ⟨-, next⟩ := of_ite_eq_some taken
    have kept := (keeps_of_step (p.taken j) (by rw [fires]; rintro ⟨kept, ⟨⟩⟩)).running up'
    obtain ⟨k, le', settles⟩ :=
      exists_settles_of_pendingJobs fair kept (next ▸ mem_handle _ a.key)
    exact ⟨k, by omega, settles⟩
  · exact ⟨j, le, .inr (.inr (.inr stops))⟩

theorem exists_settles_of_saving (fair : Fair p) (up : (p.states i).node.running = true)
    (waits : a ∈ (p.states i).saving) : ∃ j, i ≤ j ∧ Settles p a.key a.key.blockNumber j := by
  obtain ⟨j, le, ⟨saves, up'⟩ | stops⟩ :=
    exists_event (fun kept other holds => kept.saving _ holds other) (fair.saves i a waits) up waits
  · have taken := p.taken j
    rw [saves] at taken
    simp only [step, ite_none_right_eq_some] at taken
    obtain ⟨node, -, next⟩ := bind_eq_some_iff.mp taken.2
    have next := some.inj next
    have kept := (keeps_of_step (p.taken j) (by rw [saves]; rintro ⟨kept, ⟨⟩⟩)).running up'
    obtain timer | job :=
      awaits_accept { p.states j with node := node, saving := (p.states j).saving.erase a } a
    · obtain ⟨k, le', settles⟩ := exists_settles_of_timers fair kept (next ▸ timer)
      exact ⟨k, by omega, settles⟩
    · obtain ⟨k, le', settles⟩ := exists_settles_of_pendingJobs fair kept (next ▸ job)
      exact ⟨k, by omega, settles⟩
  · exact ⟨j, le, .inr (.inr (.inr stops))⟩

/-- After an addition its call waits for the write. -/
theorem saving_of_step {e : Event} (taken : d.step env (.node e) = some d')
    (added : d.node.addition e = some a) : a ∈ d'.saving := by
  obtain ⟨node, moved, rest⟩ := bind_eq_some_iff.mp taken
  cases e with
  | messageVerified | proposalVerified =>
    cases rest
    rw [added]
    simp
  | _ => cases added

/-- In every run in which no call waits for ever, an addition is followed by `applyRules` on its
round state, unless consensus is disposed, leaves the block number or ends first. -/
theorem no_lost_wakeup (p : Path (step env) (start database)) (fair : Fair p)
    (i : Nat) (e : Event) (a : Addition) (takes : p.events i = .node e)
    (added : (p.states i).node.addition e = some a) :
    ∃ j, i < j ∧ Settles p a.key (p.states i).node.blockNumber j := by
  have taken := p.taken i
  rw [takes] at taken
  obtain ⟨node, moved, -⟩ := bind_eq_some_iff.mp taken
  have heights := heights_of_runs (node_runs (p.reach i))
  obtain ⟨up, number⟩ := blockNumber_of_addition heights moved added
  have goesOn : ¬ Stops (.node e) := by
    rintro ⟨kept, same⟩
    obtain rfl := DispatchEvent.node.inj same
    cases added
  have up' := (keeps_of_step taken goesOn).running up
  obtain ⟨j, le, settles⟩ := exists_settles_of_saving fair up' (saving_of_step taken added)
  exact ⟨j, by omega, number ▸ settles⟩

end

/-- To dispose again changes nothing. -/
theorem dispose_stays (taken : d.step env (.node .dispose) = some d') :
    d'.step env (.node .dispose) = some d' := by
  obtain ⟨node, moved, rest⟩ := bind_eq_some_iff.mp taken
  cases rest
  have up : d.node.running = true := by
    by_contra down
    simp [transition, down] at moved
  rw [transition_of_running up] at moved
  cases moved
  simp [step, stepNode, addition, transition_of_running, up, stepRunning]

/-- A prevote of another validator is added, and the rules follow after its write. -/
def answersPrevote : List DispatchEvent :=
  [.node (.restart true true)] ++ replicate 14 (.node succeeds) ++
    [.node (.processMessage ⟨.prevote, 1, 0, none, 1, []⟩),
      .node (.messageVerified ⟨.prevote, 1, 0, none, 1, []⟩ true), .node .flush,
      .saved ⟨1, ⟨1, 0⟩, false⟩, .enter ⟨1, 0⟩]

theorem no_lost_wakeup_answersPrevote :
    ∃ p : Path (step fourEnv) (start genesisHeader),
      ∃ e a j, Fair p ∧ p.events 16 = .node e ∧ (p.states 16).node.addition e = some a ∧ 16 < j ∧
        Settles p a.key (p.states 16).node.blockNumber j := by
  have evaluated : (run (step fourEnv) (start genesisHeader)
      (answersPrevote ++ [.node .dispose])).map (fun d => (d.saving, d.timers, d.pendingJobs)) = some ([], [], []) := by
    decide +kernel
  have added : (run (step fourEnv) (start genesisHeader)
      (take 16 (answersPrevote ++ [.node .dispose]))).map
        (fun d => d.node.addition (.messageVerified ⟨.prevote, 1, 0, none, 1, []⟩ true)) =
        some (some ⟨1, ⟨1, 0⟩, false⟩) := by
    decide +kernel
  obtain ⟨d, ran, observed⟩ := map_eq_some_iff.mp evaluated
  obtain ⟨saving, timers, jobs⟩ : d.saving = [] ∧ d.timers = [] ∧ d.pendingJobs = [] := by
    simp only [Prod.mk.injEq] at observed
    exact observed
  have stays : d.step fourEnv (.node .dispose) = some d := by
    rw [run_append] at ran
    obtain ⟨before, -, last⟩ := bind_eq_some_iff.mp ran
    rw [run] at last
    split at last
    · contradiction
    · next after taken =>
        obtain rfl : after = d := some.inj last
        exact dispose_stays taken
  obtain ⟨p, events, states, rest⟩ := Path.exists_of_run ran stays
  have settled (i : Nat) : ∃ j, i ≤ j ∧ p.states j = d :=
    ⟨i + (answersPrevote.length + 1), Nat.le_add_right .., rest _ (by simp)⟩
  have fair : Fair p := by
    constructor
    all_goals
      intro i x _
      obtain ⟨j, le, same⟩ := settled i
      refine ⟨j, le, .inr ?_⟩
      rw [same]
      simp [saving, timers, jobs]
  have takes := events 16 _ rfl
  rw [states 16 (by decide), map_some, some.injEq] at added
  obtain ⟨j, after, settles⟩ := no_lost_wakeup p fair 16 _ _ takes added
  exact ⟨p, _, _, j, fair, takes, added, after, settles⟩

end Dispatch

end Mainsail
