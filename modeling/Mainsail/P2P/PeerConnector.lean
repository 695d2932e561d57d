import Mainsail.Foundation.Transition
import Mathlib.Data.List.Basic

/-!
# Connections to one peer

`PeerConnector` keeps the client for an address in `connections`. A call of `connect` that finds none waits
before it makes one. A call of `disconnect` waits until the client is closed and then takes the client of
the address out. When a socket closes, its client disposes the peer, whichever client is registered then.

What waits for a client goes on in the turn in which its socket closes, before anything else happens.
-/

namespace Mainsail.P2P

open Transition List

/-- The socket of a client. -/
inductive Socket
  | connecting
  | opened
  /-- `terminate` has been called. -/
  | closing
  /-- It has reported an error, and the client has let go of it. -/
  | broken
  | closed
  deriving DecidableEq, Repr

/-- What concerns one address. -/
structure PeerConnector where
  connections : Option Nat := none
  clients : List Socket := []
  /-- The calls of `#create` that wait. -/
  creating : Nat := 0
  /-- The clients that disposed the peer when they closed, and if they were registered. -/
  disposals : List (Nat × Bool) := []
  deriving DecidableEq, Repr

namespace PeerConnector

inductive Event
  /-- `connect`, also out of `emit`. -/
  | connect
  /-- `#create` has waited. -/
  | create
  | opened (client : Nat)
  /-- A socket closes, or cannot be opened. -/
  | closed (client : Nat)
  /-- An open socket reports an error. It closes later. -/
  | failed (client : Nat)
  | disconnect

variable (s : PeerConnector)

/-- `terminate` only waits for a socket that is not closed yet. -/
def disconnect : PeerConnector :=
  match s.connections with
  | none => s
  | some client =>
    match s.clients[client]? with
    | some .connecting | some .opened => { s with clients := s.clients.set client .closing }
    | some .closing => s
    | _ => { s with connections := none }

/-- The calls of `disconnect` that wait for a socket go on. -/
def resume : Socket → PeerConnector
  | .closing => { s with connections := none }
  | _ => s

/-- The handler of a client calls `disposePeer`, which calls `disconnect`. -/
def closed (client : Nat) (socket : Socket) : PeerConnector :=
  let closed := { s with
    clients := s.clients.set client .closed
    disposals := (client, decide (s.connections = some client)) :: s.disposals }
  closed.disconnect.resume socket

def step : Event → Option PeerConnector
  | .connect => some (if s.connections = none then { s with creating := s.creating + 1 } else s)
  | .create =>
    if s.creating = 0 then none
    else
      some { s with
        creating := s.creating - 1
        clients := s.clients ++ [.connecting]
        connections := some s.clients.length }
  | .opened client =>
    if s.clients[client]? = some .connecting then some { s with clients := s.clients.set client .opened }
    else none
  | .closed client =>
    match s.clients[client]? with
    | none | some .closed => none
    | some socket => some (s.closed client socket)
  | .failed client =>
    -- The error handler bans the peer, which disposes it as well.
    if s.clients[client]? = some .opened then
      some { s with clients := s.clients.set client .broken }.disconnect
    else none
  | .disconnect => some s.disconnect

/-- A client that is connecting or open is the one that is registered, and only a registered client has
disposed the peer. -/
structure OneConnection : Prop where
  registered : ∀ client, s.clients[client]? = some .connecting ∨ s.clients[client]? = some .opened →
    s.connections = some client
  disposals : ∀ disposal ∈ s.disposals, disposal.2 = true

/-- No call comes to `#create` while another waits there, and no open socket fails. -/
def Alone : Event → Prop
  | .connect => s.connections = none → s.creating = 0
  | .failed _ => False
  | _ => True

instance : DecidablePred s.Alone
  | .connect => inferInstanceAs (Decidable (_ → _))
  | .failed _ => inferInstanceAs (Decidable False)
  | .create | .opened _ | .closed _ | .disconnect => inferInstanceAs (Decidable True)

/-! ## Runs -/

structure Sound : Prop where
  registered : ∀ client socket, s.clients[client]? = some socket → socket ≠ .closed →
    s.connections = some client ∧ socket ≠ .broken
  waiting : s.creating ≠ 0 → s.creating = 1 ∧ s.connections = none
  disposals : ∀ disposal ∈ s.disposals, disposal.2 = true

namespace Sound

variable {s} {s' : PeerConnector} {client : Nat}

variable (h : s.Sound)
include h

theorem disconnect : s.disconnect.Sound := by
  unfold PeerConnector.disconnect
  split
  · exact h
  next client is =>
    have idle : s.creating = 0 := by
      by_contra waits
      simp [(h.waiting waits).2] at is
    split
    case h_4 live open_ closing =>
      -- The registered client is closed, so all are.
      refine ⟨fun other socket found here => ?_, fun waits => absurd idle waits, h.disposals⟩
      obtain ⟨same, intact⟩ := h.registered other socket found here
      cases is.symm.trans same
      cases socket <;> simp_all
    case h_3 => exact h
    all_goals
      refine ⟨fun other socket found here => ?_, h.waiting, h.disposals⟩
      rw [getElem?_set] at found
      split_ifs at found with same
      · cases found
        exact ⟨same ▸ is, by decide⟩
      · exact h.registered other socket found here

/-- A socket that closes was the registered one, and there is no other. -/
theorem closed {socket : Socket} (found : s.clients[client]? = some socket)
    (here : socket ≠ .closed) : (s.closed client socket).Sound := by
  obtain ⟨is, -⟩ := h.registered client socket found here
  have bound := (List.getElem?_eq_some_iff.mp found).1
  have idle : s.creating = 0 := by
    by_contra waits
    simp [(h.waiting waits).2] at is
  have eq : s.closed client socket =
      { s with
        connections := none
        clients := s.clients.set client .closed
        disposals := (client, true) :: s.disposals } := by
    cases socket <;> simp [PeerConnector.closed, PeerConnector.disconnect, resume, is, bound]
  rw [eq]
  refine ⟨fun other socket' found' here' => ?_, fun waits => absurd idle waits, ?_⟩
  · rw [getElem?_set] at found'
    split_ifs at found' with same
    · cases found'
      exact absurd rfl here'
    · exact absurd (Option.some.inj (is.symm.trans (h.registered other socket' found' here').1)) same
  · exact forall_mem_cons.mpr ⟨rfl, h.disposals⟩

theorem step {event : Event} (alone : s.Alone event) (taken : s.step event = some s') :
    s'.Sound := by
  cases event with
  | connect =>
    cases taken
    split_ifs with none
    · exact ⟨h.registered, fun _ => ⟨by simp [alone none], none⟩, h.disposals⟩
    · exact h
  | create =>
    simp only [PeerConnector.step] at taken
    split_ifs at taken with waits
    cases taken
    obtain ⟨one, none⟩ := h.waiting waits
    refine ⟨fun client socket found here => ?_, by simp [one], h.disposals⟩
    rw [getElem?_append] at found
    split_ifs at found with earlier
    · simpa [none] using (h.registered client socket found here).1
    · obtain ⟨last, is⟩ := List.getElem?_eq_some_iff.mp found
      rw [length_singleton] at last
      rw [show client = s.clients.length by omega]
      refine ⟨rfl, ?_⟩
      rw [← is]
      simp
  | opened client =>
    simp only [PeerConnector.step] at taken
    split_ifs at taken with connecting
    cases taken
    refine ⟨fun other socket found here => ?_, h.waiting, h.disposals⟩
    rw [getElem?_set] at found
    split_ifs at found with same
    · cases found
      exact ⟨same ▸ (h.registered client _ connecting (by decide)).1, by decide⟩
    · exact h.registered other socket found here
  | closed client =>
    simp only [PeerConnector.step] at taken
    split at taken
    · contradiction
    · contradiction
    next socket other found =>
      cases taken
      exact h.closed found other
  | failed client => exact alone.elim
  | disconnect =>
    cases taken
    exact h.disconnect

end Sound

/-- In a run in which the calls of `#create` come one after the other and no open socket fails, there is one
connection. -/
theorem oneConnection_of_runs {s : PeerConnector} (reached : Reach step Alone {} s) :
    s.OneConnection := by
  have sound : s.Sound := by
    apply reached.invariant (P := Sound)
    · constructor <;> simp
    · intro s event s' h alone taken
      exact h.step alone taken
  refine ⟨?_, sound.disposals⟩
  rintro client (connecting | opened)
  · exact (sound.registered client _ connecting (by decide)).1
  · exact (sound.registered client _ opened (by decide)).1

/-- A connection is opened and closed, and another one is opened. -/
def reconnecting : List Event :=
  [.connect, .create, .connect, .opened 0, .disconnect, .closed 0, .connect, .create, .opened 1]

theorem oneConnection_of_runs_sample : ∃ s : PeerConnector, Reach step Alone {} s ∧
    s.clients = [.closed, .opened] ∧ s.OneConnection := by
  have ran : (run step {} reconnecting).map clients = some [.closed, .opened] := by
    decide +kernel
  have alone : Guarded step Alone {} reconnecting := by decide +kernel
  obtain ⟨s, reached, observed⟩ := Reach.exists_of_run ran alone
  exact ⟨s, reached, observed, oneConnection_of_runs reached⟩

/-- Two calls make a client each. When the first one closes, it disposes the peer of the second. And a
socket that fails is not registered any more when it closes. -/
theorem exists_two_connections :
    (∃ s, run step {} [.connect, .connect, .create, .create] = some s ∧
      s.clients = [.connecting, .connecting] ∧ s.connections = some 1) ∧
    (∃ s, run step {} [.connect, .connect, .create, .create, .closed 0] = some s ∧
      s.clients = [.closed, .closing] ∧ s.disposals = [(0, false)]) ∧
    ∃ s, run step {} [.connect, .create, .opened 0, .failed 0, .closed 0] = some s ∧
      s.disposals = [(0, false)] :=
  ⟨⟨_, rfl, rfl, rfl⟩, ⟨_, rfl, rfl, rfl⟩, ⟨_, rfl, rfl⟩⟩

end PeerConnector

end Mainsail.P2P
