import Mainsail.Foundation.Frames
import Mainsail.Contracts.Changes

/-!
# Executions of the consensus contract

Accounts are programs that call the contract as they like, and may fail afterwards. The refund of
a resignation hands over control to the validator that resigns, which can then call the contract
again. If it fails, the resignation is reverted.
-/

namespace Mainsail.ConsensusV1

/-- The storage after a call that does not revert. -/
def answer (precompiles : Precompiles) (s : State) (m : Message) : Option State :=
  (step precompiles s m).toOption

/-- The call transfers ether to its sender. -/
def refunds (s : State) (m : Message) : Bool :=
  m.call = .resignValidator && 0 < (s.validatorsData m.sender).fee

abbrev Execution := Frames.Execution State Message

/-- The executions after the deployment of the contract, with messages that satisfy `ok`. -/
abbrev Reachable (precompiles : Precompiles) (ok : Message → Prop) (owner : Address)
    (registrationFee : Fin (2 ^ 128)) (x : Execution) : Prop :=
  Frames.Reach (answer precompiles) refunds ok (initial owner registrationFee) x

section

variable {precompiles : Precompiles} {ok : Message → Prop} {owner : Address}
variable {registrationFee : Fin (2 ^ 128)} {x : Execution} {s s' : State} {m : Message}

theorem answer_eq_some : answer precompiles s m = some s' ↔ step precompiles s m = .ok s' :=
  Except.toOption_eq_some

namespace Reachable

variable (h : Reachable precompiles ok owner registrationFee x)
include h

/-- What each change keeps holds throughout. -/
theorem keeps {P : State → Prop} (start : P (initial owner registrationFee))
    (keep : ∀ m s s', ok m → Change precompiles m s s' → P s → P s') : P x.state := by
  refine Frames.Reach.invariant h start ?_
  intro s m s' holds sent answered
  exact step_keeps (keep m · · sent) (answer_eq_some.mp answered) holds

/-- What each call keeps of the calls so far and the storage. -/
theorem keeps_history {P : List Message → State → Prop}
    (start : P [] (initial owner registrationFee))
    (keep : ∀ log m s s', ok m → step precompiles s m = .ok s' → P log s → P (log ++ [m]) s') :
    P x.log x.state := by
  refine Frames.Reach.history h start ?_
  intro log s m s' holds sent answered
  exact keep log m s s' sent (answer_eq_some.mp answered) holds

end Reachable

end

/-! ## A sample network

The hash is the identity, and every proof of possession is taken. -/

namespace Sample

def precompiles : Precompiles := ⟨id, fun _ _ _ => some true⟩

def message (sender : Address) (nonzero : sender ≠ 0) (call : Call) (value : Nat) : Message where
  sender := sender
  sender_ne_zero := nonzero
  value := value
  balances a := if a < 16 then a else 0
  random i := i * i
  call := call

def key (b : UInt8) : Bytes := List.replicate 48 b

def register (sender : Address) (nonzero : sender ≠ 0) (b : UInt8) (value : Nat) : Message :=
  message sender nonzero (.registerValidator (key b) (List.replicate 96 b)) value

/-- The execution that events lead to. -/
def run (registrationFee : Fin (2 ^ 128)) (events : List (Frames.Event Message)) :
    Option Execution :=
  Transition.run (Frames.step (answer precompiles) refunds) { state := initial 1 registrationFee }
    events

theorem exists_reachable (ok : Message → Prop) (registrationFee : Fin (2 ^ 128))
    (events : List (Frames.Event Message)) {α : Type} (f : Execution → α) (a : α)
    (h : (run registrationFee events).map f = some a) (sends : ∀ e ∈ events, e.Sends ok) :
    ∃ x, Reachable precompiles ok 1 registrationFee x ∧ f x = a :=
  Transition.Reach.exists_of_run h (.of_forall fun _ => sends)

end Sample

end Mainsail.ConsensusV1
