import Mainsail.P2P.Ledger
import Mainsail.Foundation.Transition

/-!
# Requests to one peer

`#emit` of `PeerCommunicator` waits for the throttle, then for the connection, and then writes the
request. The throttle spends the budget of the request in its queue. `PeerConnector` opens a
connection when there is none: it waits until ten seconds have passed since the last one was made,
and the client is in `connections` before it is open.

The state is that of one peer. What other peers and the network do shows in the time that passes
and in the events of the clients.
-/

namespace Mainsail.P2P

open Transition RateLimiter List Option

/-- A `Throttle` as seen from one peer. -/
structure Throttle where
  limiter : RateLimiter
  jobs : List Route
  /-- The job that is between `msBeforeNext` and `consume`. -/
  checked : Option Route
  /-- Jobs to be queued again, and when. -/
  timers : List (Nat × Route)

/-- The state of a socket client: `ready` is after its hello was answered, `failed` is closed
before that, `gone` after it. -/
inductive ClientState
  | connecting
  | opened
  | ready
  | failed
  | gone
  deriving DecidableEq, Repr

/-- Where a request is. It connects twice, in `#emit` and `again` in `emit` of the connector. -/
inductive Stage
  | connect (again : Bool)
  | delay (again : Bool) (finish : Nat)
  | opening (again : Bool) (client : Nat)
  | send (client : Nat)
  deriving DecidableEq, Repr

structure Request extends Budget where
  stage : Stage
  deriving DecidableEq, Repr

structure Communicator where
  now : Nat
  /-- `#throttle`. -/
  throttle : Option Nat
  /-- Calls that wait for `throttleFactory`. -/
  making : List Route
  throttles : List Throttle
  /-- Calls that the throttle has let through. -/
  requests : List Request
  connections : Option Nat
  lastConnectionCreate : Option Nat
  clients : List ClientState
  peer : RateLimiter
  history : List Ended
  answers : List Answer

inductive Communicator.Event
  | tick (ms : Nat)
  /-- A method of the communicator is called. -/
  | call (route : Route)
  /-- `throttleFactory` resolves for one of the calls. -/
  | made (i : Nat)
  /-- The throttle takes its next job. -/
  | check (throttle : Nat)
  | consume (throttle : Nat)
  /-- A timer of the throttle fires. -/
  | retry (throttle i : Nat)
  /-- A request goes on. -/
  | advance (i : Nat)
  | opened (client : Nat)
  | ready (client : Nat)
  | closed (client : Nat)
  /-- `disconnect` forgets the connection. -/
  | forget
  deriving DecidableEq

namespace Communicator

variable (wire : Wire) (s : Communicator)

def start (now : Nat) : Communicator :=
  ⟨now, none, [], [], [], none, none, [], .empty, [], []⟩

/-- `#emit` up to the throttle. -/
def call (route : Route) : Communicator :=
  match s.throttle with
  | none => { s with making := s.making ++ [route] }
  | some k => { s with
      throttles := s.throttles.modify k fun t => { t with jobs := t.jobs ++ [route] } }

/-- `#getThrottle` after its `await`: the call keeps the throttle it has made. -/
def made (i : Nat) (route : Route) : Communicator := { s with
  making := s.making.eraseIdx i
  throttle := some s.throttles.length
  throttles := s.throttles ++ [⟨.empty, [route], none, []⟩] }

/-- `#process` up to `consume`. -/
def check (k : Nat) (t : Throttle) (route : Route) (jobs : List Route) : Communicator :=
  let retryAfter := t.limiter.msBeforeNext wire.limits s.now route
  let handled :=
    if 0 < retryAfter then
      { t with jobs := jobs, timers := t.timers ++ [(s.now + retryAfter, route)] }
    else { t with jobs := jobs, checked := some route }
  { s with throttles := s.throttles.set k handled }

/-- The rest of `#process`. A job that fails here never lets its call through. -/
def consume (k : Nat) (t : Throttle) (route : Route) : Communicator :=
  let spent := t.limiter.consume wire.limits s.now route
  { s with
    throttles := s.throttles.set k { t with limiter := spent.1, checked := none }
    requests := s.requests ++ if spent.2 then [⟨⟨s.now, route⟩, .connect false⟩] else [] }

/-- The callback of the timer. -/
def retry (k i : Nat) (t : Throttle) (route : Route) : Communicator :=
  let queued := { t with timers := t.timers.eraseIdx i, jobs := t.jobs ++ [route] }
  { s with throttles := s.throttles.set k queued }

def goTo (i : Nat) (r : Request) (stage : Stage) : Communicator :=
  { s with requests := s.requests.set i { r with stage := stage } }

/-- What follows `connect`. -/
def afterConnect (again : Bool) (client : Nat) : Stage :=
  if again then .send client else .connect true

/-- The request is written to the socket, and the peer gets it. -/
def write (i : Nat) (r : Request) : Communicator := { s with
  requests := s.requests.eraseIdx i
  peer := (wire.receive s.now s.peer r.route).1
  answers := s.answers ++ [(wire.receive s.now s.peer r.route).2]
  history := s.history ++ [⟨r.spentAt, s.now, true⟩] }

/-- The request fails before it is written. -/
def lose (i : Nat) (r : Request) : Communicator := { s with
  requests := s.requests.eraseIdx i
  history := s.history ++ [⟨r.spentAt, s.now, false⟩] }

/-- `TEN_SECONDS`. -/
def tenSeconds : Nat := 10 * 1000

/-- A new client, which is in `connections` at once. -/
def create : Communicator := { s with
  clients := s.clients ++ [.connecting]
  connections := some s.clients.length
  lastConnectionCreate := some s.now }

/-- `connect` and `#create` of the connector, and `request` of the client. -/
def advance (i : Nat) (r : Request) : Option Communicator :=
  match r.stage with
  | .connect again =>
    match s.connections with
    | some client => some (s.goTo i r (afterConnect again client))
    | none =>
      let timeSinceLastConnectionCreate := s.now - s.lastConnectionCreate.getD 0
      some (s.goTo i r (.delay again (s.now + (tenSeconds - timeSinceLastConnectionCreate))))
  | .delay again finish =>
    if finish ≤ s.now then
      some (s.create.goTo i r (.opening again s.clients.length))
    else none
  | .opening again client =>
    match s.clients[client]? with
    | some .ready | some .gone => some (s.goTo i r (afterConnect again client))
    | some .failed => some (s.lose i r)
    | _ => none
  | .send client =>
    match s.clients[client]? with
    | some .opened | some .ready => some (s.write wire i r)
    | _ => some (s.lose i r)

/-- What happens to a socket. -/
def ClientState.close : ClientState → ClientState
  | .ready | .gone => .gone
  | _ => .failed

def step : Event → Option Communicator
  | .tick ms => some { s with now := s.now + ms }
  | .call route => some (s.call route)
  | .made i => s.making[i]?.map (s.made i)
  | .check k => do
      let t ← s.throttles[k]?
      match t.checked, t.jobs with
      | none, route :: jobs => return s.check wire k t route jobs
      | _, _ => none
  | .consume k => do
      let t ← s.throttles[k]?
      let route ← t.checked
      return s.consume wire k t route
  | .retry k i => do
      let t ← s.throttles[k]?
      let (due, route) ← t.timers[i]?
      if due ≤ s.now then
        return s.retry k i t route
      else none
  | .advance i => s.requests[i]?.bind (s.advance wire i)
  | .opened c =>
    if s.clients[c]? = some .connecting then some { s with clients := s.clients.set c .opened }
    else none
  | .ready c =>
    if s.clients[c]? = some .opened then some { s with clients := s.clients.set c .ready }
    else none
  | .closed c => some { s with clients := s.clients.modify c ClientState.close }
  | .forget => some { s with connections := none }

/-- The communicator as a ledger: the limiter of its throttle, and what is on the way. -/
def ledger : Ledger where
  now := s.now
  sender := (s.throttles.head?.map Throttle.limiter).getD .empty
  peer := s.peer
  pending := s.requests.map Request.toBudget
  history := s.history
  answers := s.answers

/-- Only the first call is made before there is a throttle. -/
def OneThrottle : Event → Prop
  | .call _ => s.throttle.isSome = true ∨ s.making = []
  | _ => True

/-- A budget is spent only while the ledger is clear. -/
def InTime : Event → Prop
  | .consume _ => s.ledger.Clear
  | _ => True

instance (e : Event) : Decidable (s.OneThrottle e) := by
  unfold OneThrottle
  split <;> infer_instance

instance (e : Event) : Decidable (s.InTime e) := by
  unfold InTime
  split <;> infer_instance

open Communicator

abbrev Runs (wire : Wire) (ok : Communicator → Event → Prop) (now : Nat) : Communicator → Prop :=
  Reach (step wire) ok (start now)

/-! ## One throttle -/

variable {wire s} {s' : Communicator} {e : Event}

/-- The calls share one throttle, and a job that has been checked has room. -/
structure Single (wire : Wire) (s : Communicator) : Prop where
  one : s.throttles.length + s.making.length ≤ 1
  known : s.throttle = none → s.throttles = []
  checked : ∀ t ∈ s.throttles, ∀ route, t.checked = some route →
    t.limiter.Room wire.limits s.now route

variable {k i : Nat} {t : Throttle} {r : Request} {l l' : Ledger}

/-- The only throttle. -/
theorem Single.eq_singleton (h : Single wire s)
    (found : s.throttles[k]? = some t) : k = 0 ∧ s.throttles = [t] ∧ s.making = [] := by
  have one := h.one
  match throttles : s.throttles with
  | [] => simp [throttles] at found
  | [u] =>
    rw [throttles] at found one
    cases k with
    | zero =>
      cases found
      rw [length_singleton] at one
      exact ⟨rfl, rfl, length_eq_zero_iff.mp (by omega)⟩
    | succ k => simp at found
  | u :: v :: rest =>
    simp [throttles] at one
    omega

/-- What a step is in the ledger. -/
inductive Entry (wire : Wire) (l : Ledger) : Event → Ledger → Prop
  | none {e : Event} : Entry wire l e l
  | tick (ms : Nat) : Entry wire l (.tick ms) (l.tick ms)
  | spend {k : Nat} {route : Route} : l.sender.Room wire.limits l.now route →
      Entry wire l (.consume k) (l.spend wire route)
  | write {i : Nat} {b : Budget} : l.pending[i]? = some b → Entry wire l (.advance i) (l.write wire i b)
  | lose {i : Nat} {b : Budget} : l.pending[i]? = some b → Entry wire l (.advance i) (l.lose i b)

/-- A change of the throttle that leaves its limiter alone. -/
theorem Single.set (h : Single wire s) {t' : Throttle} (found : s.throttles[k]? = some t)
    (limiter : t'.limiter = t.limiter)
    (checked : ∀ route, t'.checked = some route → t'.limiter.Room wire.limits s.now route) :
    Single wire { s with throttles := s.throttles.set k t' } ∧
      Entry wire s.ledger e (ledger { s with throttles := s.throttles.set k t' }) := by
  obtain ⟨rfl, throttles, making⟩ := h.eq_singleton found
  have same : ledger { s with throttles := s.throttles.set 0 t' } = s.ledger := by
    simp [ledger, throttles, limiter]
  rw [same]
  refine ⟨⟨by simp [throttles, making], fun unknown => ?_, ?_⟩, .none⟩
  · exact absurd (h.known unknown) (by simp [throttles])
  · simp only [throttles, set_cons_zero, mem_singleton, forall_eq]
    exact checked

theorem goTo_ledger (found : s.requests[i]? = some r) (stage : Stage) :
    (s.goTo i r stage).ledger = s.ledger := by
  obtain ⟨lt, rfl⟩ := List.getElem?_eq_some_iff.mp found
  have same : (s.requests.map Request.toBudget).set i s.requests[i].toBudget =
      s.requests.map Request.toBudget := by
    rw [← map_set, set_getElem_self]
  simp [goTo, ledger, map_set, same]

theorem pending_getElem (found : s.requests[i]? = some r) :
    s.ledger.pending[i]? = some r.toBudget := by
  simp [ledger, found]

theorem Single.advance (h : Single wire s) (found : s.requests[i]? = some r)
    (taken : s.advance wire i r = some s') :
    Single wire s' ∧ Entry wire s.ledger (.advance i) s'.ledger := by
  have pending := pending_getElem found
  have goes (stage : Stage) : Single wire (s.goTo i r stage) ∧
      Entry wire s.ledger (.advance i) (s.goTo i r stage).ledger := by
    rw [goTo_ledger found]
    exact ⟨{ h with }, .none⟩
  have creates (stage : Stage) : (s.create.goTo i r stage).ledger = s.ledger :=
    goTo_ledger (s := s.create) found stage
  have written : Entry wire s.ledger (.advance i) (s.write wire i r).ledger := by
    have same : (s.write wire i r).ledger = s.ledger.write wire i r.toBudget := by
      simp [write, Ledger.write, ledger, eraseIdx_map]
    exact same ▸ .write pending
  have lost : Entry wire s.ledger (.advance i) (s.lose i r).ledger := by
    have same : (s.lose i r).ledger = s.ledger.lose i r.toBudget := by
      simp [lose, Ledger.lose, ledger, eraseIdx_map]
    exact same ▸ .lose pending
  unfold Communicator.advance at taken
  split at taken
  · split at taken
    all_goals
      cases taken
      exact goes _
  · split at taken
    · cases taken
      rw [creates]
      exact ⟨{ h with }, .none⟩
    · contradiction
  · split at taken
    · cases taken
      exact goes _
    · cases taken
      exact goes _
    · cases taken
      exact ⟨{ h with }, lost⟩
    · contradiction
  · split at taken
    · cases taken
      exact ⟨{ h with }, written⟩
    · cases taken
      exact ⟨{ h with }, written⟩
    · cases taken
      exact ⟨{ h with }, lost⟩

theorem Single.step (h : Single wire s) (ok : s.OneThrottle e) (taken : s.step wire e = some s') :
    Single wire s' ∧ Entry wire s.ledger e s'.ledger := by
  cases e with
  | tick ms =>
    cases taken
    exact ⟨⟨h.one, h.known, fun t member route checked =>
      (h.checked t member route checked).later (Nat.le_add_right ..)⟩, .tick ms⟩
  | call route =>
    cases taken
    unfold call
    split
    · next unknown =>
        have empty := h.known unknown
        obtain known | alone := ok
        · rw [unknown] at known
          contradiction
        · exact ⟨⟨by simp [empty, alone], h.known, h.checked⟩, .none⟩
    · next k known =>
        cases found : s.throttles[k]? with
        | none =>
          rw [modify_eq_set_getElem?, found]
          exact ⟨h, .none⟩
        | some t =>
          rw [modify_eq_set_getElem?, found]
          exact h.set found rfl (h.checked t (mem_of_getElem? found))
  | made i =>
    obtain ⟨route, found, rfl⟩ := map_eq_some_iff.mp taken
    have one := h.one
    have waits := length_pos_of_mem (mem_of_getElem? found)
    have empty : s.throttles = [] := length_eq_zero_iff.mp (by omega)
    have same : (s.made i route).ledger = s.ledger := by
      simp [made, ledger, empty]
    rw [same]
    refine ⟨⟨?_, ?_, ?_⟩, .none⟩
    · have erased := List.length_eraseIdx_of_lt (List.getElem?_eq_some_iff.mp found).1
      simp only [made, empty, nil_append, length_singleton, erased]
      omega
    · simp [made]
    · simp [made, empty]
  | check k =>
    obtain ⟨t, found, rest⟩ := bind_eq_some_iff.mp taken
    split at rest
    · next route jobs unchecked _ =>
        cases rest
        unfold check
        by_cases waits : 0 < t.limiter.msBeforeNext wire.limits s.now route
        · simp only [waits, if_true]
          exact h.set found rfl fun other checked => nomatch unchecked.symm.trans checked
        · simp only [waits, if_false]
          refine h.set found rfl fun other checked => ?_
          cases checked
          exact room_of_msBeforeNext (Nat.eq_zero_of_not_pos waits)
    · contradiction
  | consume k =>
    obtain ⟨t, found, rest⟩ := bind_eq_some_iff.mp taken
    obtain ⟨route, checked, last⟩ := bind_eq_some_iff.mp rest
    cases last
    obtain ⟨rfl, throttles, making⟩ := h.eq_singleton found
    have room := h.checked t (mem_of_getElem? found) route checked
    obtain ⟨granted, -⟩ := consume_of_room room
    have sender : s.ledger.sender = t.limiter := by simp [ledger, throttles]
    have same : (s.consume wire 0 t route).ledger = s.ledger.spend wire route := by
      simp [consume, Ledger.spend, ledger, throttles, granted]
    rw [same]
    refine ⟨⟨by simp [consume, throttles, making], fun unknown => ?_, ?_⟩, .spend (sender ▸ room)⟩
    · exact absurd (h.known unknown) (by simp [throttles])
    · simp [consume, throttles]
  | retry k i =>
    obtain ⟨t, found, rest⟩ := bind_eq_some_iff.mp taken
    obtain ⟨⟨due, route⟩, timer, last⟩ := bind_eq_some_iff.mp rest
    simp only [ite_none_right_eq_some, Option.pure_def, some.injEq] at last
    obtain ⟨-, rfl⟩ := last
    exact h.set found rfl (h.checked t (mem_of_getElem? found))
  | advance i =>
    obtain ⟨r, found, rest⟩ := bind_eq_some_iff.mp taken
    exact h.advance found rest
  | opened c | ready c =>
    obtain ⟨-, rfl⟩ := of_ite_eq_some taken
    exact ⟨{ h with }, .none⟩
  | closed | forget =>
    cases taken
    exact ⟨{ h with }, .none⟩

theorem single_start (now : Nat) : Single wire (start now) where
  one := by simp [start]
  known _ := rfl
  checked := by simp [start]

/-! ## Whole runs -/

theorem sound_start (now : Nat) : (start now).ledger.Sound wire where
  past := by simp [start, ledger]
  expires scope p _ := by cases scope <;> simp [start, ledger, empty, record]
  fits scope p _ := by
    cases scope <;> simp [start, ledger, empty, record, Ledger.load, FixedWindow.used]
  phase := by
    refine .inl ⟨by simp [start, ledger], fun scope p _ => ?_⟩
    cases scope <;> exact .of_over (fun w record => by cases record) fun w record => by cases record
  accepted := by simp [start, ledger]

theorem sound_entry (h : l.Sound wire) (counts : wire.remoteAccess = false)
    (clear : ∀ k, e = .consume k → l.Clear) (entry : Entry wire l e l') : l'.Sound wire := by
  cases entry with
  | none => exact h
  | tick ms => exact h.tick ms
  | spend room => exact h.spend (clear _ rfl) room
  | write found => exact h.write counts found
  | lose found => exact h.lose found

/-- A peer that has this node in `remoteAccess` refuses nothing. -/
theorem accepted_entry (h : .rateLimitExceeded ∉ l.answers) (free : wire.remoteAccess = true)
    (entry : Entry wire l e l') : .rateLimitExceeded ∉ l'.answers := by
  cases entry with
  | write found => simp [Ledger.write, Wire.receive, free, h]
  | _ => exact h

/-- The peer refuses no request in a run with one throttle in which budgets are spent in time. -/
theorem never_refused {now : Nat}
    (run : Runs wire (fun s e => s.OneThrottle e ∧ s.InTime e) now s) :
    .rateLimitExceeded ∉ s.answers := by
  by_cases free : wire.remoteAccess = true
  · have both := run.invariant (P := fun s => Single wire s ∧ .rateLimitExceeded ∉ s.ledger.answers)
      ⟨single_start now, by simp [start, ledger]⟩ fun s e s' h ok taken => by
        obtain ⟨single, entry⟩ := h.1.step ok.1 taken
        exact ⟨single, accepted_entry h.2 free entry⟩
    exact both.2
  · have counts : wire.remoteAccess = false := by simpa using free
    have both := run.invariant (P := fun s => Single wire s ∧ s.ledger.Sound wire)
      ⟨single_start now, sound_start now⟩ fun s e s' h ok taken => by
        obtain ⟨single, entry⟩ := h.1.step ok.1 taken
        refine ⟨single, sound_entry h.2 counts ?_ entry⟩
        rintro k rfl
        exact ok.2
    exact both.2.accepted

/-- A configuration with the default rate limit. -/
def sampleWire : Wire := ⟨⟨150, 53, by decide, by decide⟩, 40, false⟩

/-- A call that finds its connection open. -/
def asks (k : Nat) : List Event := [.check k, .consume k, .advance 0, .advance 0, .advance 0]

/-- The first call, for which the connection takes `ms` to open. -/
def opens (ms : Nat) : List Event :=
  [.check 0, .consume 0, .advance 0, .advance 0, .tick ms, .opened 0, .ready 0, .advance 0,
    .advance 0, .advance 0]

/-- Two seconds after the connection is open, and again after the throttle has waited. -/
def asksInTime : List Event :=
  [.call .getPeers, .made 0] ++ opens 500 ++ [.tick 2000, .call .getPeers] ++ asks 0 ++
    [.tick 100, .call .getPeers, .check 0, .tick 900, .retry 0 0] ++ asks 0

theorem never_refused_asksInTime :
    ∃ s, Runs sampleWire (fun s e => s.OneThrottle e ∧ s.InTime e) 1000000 s ∧
      s.answers = [.handled, .handled, .handled] ∧ .rateLimitExceeded ∉ s.answers := by
  have evaluated : (run (step sampleWire) (start 1000000) asksInTime).map
      answers = some [.handled, .handled, .handled] := by
    decide +kernel
  have guarded : Guarded (step sampleWire)
      (fun s e => s.OneThrottle e ∧ s.InTime e) (start 1000000) asksInTime := by
    decide +kernel
  obtain ⟨s, run, answers⟩ := Reach.exists_of_run evaluated guarded
  exact ⟨s, run, answers, never_refused run⟩

/-- The second call is a second after the first, whose request was written in between. -/
def asksTooSoon : List Event :=
  [.call .getPeers, .made 0] ++ opens 500 ++ [.tick 500, .call .getPeers] ++ asks 0

/-- Two calls at the start, each with a throttle of its own. -/
def asksTwice : List Event :=
  [.call .getPeers, .call .getPeers, .made 0, .made 0] ++ opens 0 ++ asks 1

theorem exists_refused :
    (∃ s, Runs sampleWire OneThrottle 1000000 s ∧ s.answers = [.handled, .rateLimitExceeded]) ∧
      ∃ s, Runs sampleWire InTime 1000000 s ∧ s.answers = [.handled, .rateLimitExceeded] := by
  constructor
  · have evaluated : (run (step sampleWire) (start 1000000) asksTooSoon).map
        answers = some [.handled, .rateLimitExceeded] := by
      decide +kernel
    have guarded : Guarded (step sampleWire) OneThrottle (start 1000000)
        asksTooSoon := by
      decide +kernel
    exact Reach.exists_of_run evaluated guarded
  · have evaluated : (run (step sampleWire) (start 1000000) asksTwice).map
        answers = some [.handled, .rateLimitExceeded] := by
      decide +kernel
    have guarded : Guarded (step sampleWire) InTime (start 1000000)
        asksTwice := by
      decide +kernel
    exact Reach.exists_of_run evaluated guarded

end Communicator

end Mainsail.P2P
