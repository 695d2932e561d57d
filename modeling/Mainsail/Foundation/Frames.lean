import Mainsail.Foundation.Transition

/-!
# Nested calls that can be taken back

A machine answers calls, and a call that it refuses changes nothing. Its callers are programs of
their own: calls are made from within frames, and a frame that fails takes back what has happened
since it began. A call may also hand over control before it returns, and is then a frame itself.

The calls that have not been taken back are kept in a log. At each moment the machine is in the
state that the calls of the log, one after the other, lead to, so an invariant of single calls
holds whatever the nesting was.
-/

namespace Frames

universe u v

variable {σ : Type u} {ι : Type v}

inductive Event (ι : Type v)
  | call (e : ι)
  /-- A call that hands over control when all but its return is done. -/
  | suspend (e : ι)
  | enter
  | leave (success : Bool)

/-- All calls of an event satisfy the predicate. -/
def Event.Sends (ok : ι → Prop) : Event ι → Prop
  | call e | suspend e => ok e
  | enter | leave _ => True

structure Execution (σ : Type u) (ι : Type v) where
  state : σ
  log : List ι := []
  /-- What the open frames restore when they fail, the innermost first. -/
  frames : List (σ × List ι) := []

section

variable (call : σ → ι → Option σ) (suspends : σ → ι → Bool)

def step (x : Execution σ ι) : Event ι → Option (Execution σ ι)
  | .call e =>
    match call x.state e with
    | none => some x
    | some state => some { x with state, log := x.log ++ [e] }
  | .suspend e =>
    if suspends x.state e then
      match call x.state e with
      | none => none
      | some state =>
        some { state, log := x.log ++ [e], frames := (x.state, x.log) :: x.frames }
    else none
  | .enter => some { x with frames := (x.state, x.log) :: x.frames }
  | .leave success =>
    match x.frames with
    | [] => none
    | (state, log) :: frames =>
      if success then some { x with frames } else some { state, log, frames }

/-- The executions from a state, whose calls satisfy the predicate. -/
abbrev Reach (ok : ι → Prop) (s₀ : σ) (x : Execution σ ι) : Prop :=
  Transition.Reach (step call suspends) (fun _ event => event.Sends ok) { state := s₀ } x

end

variable {call : σ → ι → Option σ} {suspends : σ → ι → Bool} {ok : ι → Prop} {s₀ : σ}
variable {x x' : Execution σ ι} {P : List ι → σ → Prop}

/-- A property of the log and the state, now and in all that can be restored. -/
def Execution.Holds (P : List ι → σ → Prop) (x : Execution σ ι) : Prop :=
  P x.log x.state ∧ ∀ frame ∈ x.frames, P frame.2 frame.1

/-- To open a frame adds nothing to what can be restored. -/
theorem Execution.Holds.enter (h : x.Holds P) :
    ∀ frame ∈ (x.state, x.log) :: x.frames, P frame.2 frame.1 :=
  List.forall_mem_cons.mpr h

theorem step_holds {event : Event ι} (h : x.Holds P)
    (keep : ∀ log s e s', P log s → ok e → call s e = some s' → P (log ++ [e]) s')
    (sends : event.Sends ok) (taken : step call suspends x event = some x') : x'.Holds P := by
  cases event with
  | call e =>
    simp only [step] at taken
    split at taken
    · cases taken
      exact h
    · next answered =>
        cases taken
        exact ⟨keep _ _ _ _ h.1 sends answered, h.2⟩
  | suspend e =>
    simp only [step] at taken
    split at taken
    · split at taken
      · cases taken
      · next answered =>
          cases taken
          exact ⟨keep _ _ _ _ h.1 sends answered, h.enter⟩
    · cases taken
  | enter =>
    cases taken
    exact ⟨h.1, h.enter⟩
  | leave success =>
    simp only [step] at taken
    split at taken
    · cases taken
    · next state log frames opened =>
        have outer := h.2
        rw [opened] at outer
        obtain ⟨restored, rest⟩ := List.forall_mem_cons.mp outer
        split at taken
        · cases taken
          exact ⟨h.1, rest⟩
        · cases taken
          exact ⟨restored, rest⟩

namespace Reach

variable (h : Reach call suspends ok s₀ x)
include h

/-- What each call keeps, of the log and the state, holds throughout. -/
theorem history (start : P [] s₀)
    (keep : ∀ log s e s', P log s → ok e → call s e = some s' → P (log ++ [e]) s') :
    P x.log x.state := by
  have holds : x.Holds P := by
    refine Transition.Reach.invariant h ⟨start, by simp⟩ ?_
    intro x event x' holds sends taken
    exact step_holds holds keep sends taken
  exact holds.1

/-- What each call keeps of the state. -/
theorem invariant {I : σ → Prop} (start : I s₀)
    (keep : ∀ s e s', I s → ok e → call s e = some s' → I s') : I x.state :=
  h.history (P := fun _ s => I s) start fun _ s e s' => keep s e s'

/-- The nesting of the calls is of no consequence: the log alone leads to the state. -/
theorem run : Transition.run call s₀ x.log = some x.state := by
  refine h.history (P := fun log s => Transition.run call s₀ log = some s) rfl ?_
  intro log s e s' ran _ answered
  rw [Transition.run_append, ran]
  simp [Transition.run, answered]

end Reach

end Frames
