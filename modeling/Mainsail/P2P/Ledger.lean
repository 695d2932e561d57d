import Mainsail.P2P.RateLimiter
import Mathlib.Data.List.Perm.Basic

/-!
# Two limiters over one connection

What the throttle is for: the sender counts a request before it is written, the peer when it
arrives, and the peer is never to refuse one. The ledger holds both limiters and the requests
between them, with nothing of queues and sockets. A request ends when it is written or lost.

If each request is written at the time at which it was counted, the two limiters are in step
(`FixedWindow.InStep`). A request that is written later, or not at all, takes them out of step.
They are in step again when no window is open any more, `Limits.longest` after the last such
request has ended.
-/

namespace Mainsail.P2P

open FixedWindow Limits List

/-- A request that has spent its budget. -/
structure Budget where
  spentAt : Nat
  route : Route
  deriving DecidableEq, Repr

/-- A request that was written, or given up. -/
structure Ended where
  spentAt : Nat
  endedAt : Nat
  written : Bool
  deriving DecidableEq, Repr

/-- The request was not written at the time at which its budget was spent. -/
def Ended.Late (e : Ended) : Prop := e.written = false ∨ e.spentAt < e.endedAt

instance (e : Ended) : Decidable e.Late := inferInstanceAs (Decidable (_ ∨ _))

inductive Answer
  | handled
  | rateLimitExceeded
  deriving DecidableEq, Repr

/-- What a request depends on beside the state: the configuration of both nodes, the time from the
socket to the peer, and whether the peer has this node in `remoteAccess`. -/
structure Wire where
  limits : Limits
  latency : Nat
  remoteAccess : Bool

structure Ledger where
  now : Nat
  /-- The limiter of the sender. -/
  sender : RateLimiter
  /-- The limiter of the peer. -/
  peer : RateLimiter
  /-- Requests on the way to the socket. -/
  pending : List Budget
  history : List Ended
  answers : List Answer

/-- `RateLimitPlugin` at the peer. -/
def Wire.receive (wire : Wire) (now : Nat) (peer : RateLimiter) (route : Route) :
    RateLimiter × Answer :=
  if wire.remoteAccess then (peer, .handled)
  else
    ((peer.consume wire.limits (now + wire.latency) route).1,
      if peer.hasExceededRateLimit wire.limits (now + wire.latency) route then .rateLimitExceeded
      else .handled)

namespace Ledger

variable (wire : Wire) (l : Ledger)

def tick (ms : Nat) : Ledger := { l with now := l.now + ms }

def spend (route : Route) : Ledger := { l with
  sender := (l.sender.consume wire.limits l.now route).1
  pending := l.pending ++ [⟨l.now, route⟩] }

def write (i : Nat) (b : Budget) : Ledger := { l with
  pending := l.pending.eraseIdx i
  peer := (wire.receive l.now l.peer b.route).1
  answers := l.answers ++ [(wire.receive l.now l.peer b.route).2]
  history := l.history ++ [⟨b.spentAt, l.now, true⟩] }

def lose (i : Nat) (b : Budget) : Ledger := { l with
  pending := l.pending.eraseIdx i
  history := l.history ++ [⟨b.spentAt, l.now, false⟩] }

/-- A budget may be spent: whatever is on the way was counted at this very time, and the last
request that was late is so long ago that its windows are closed. -/
def Clear : Prop :=
  (∀ b ∈ l.pending, b.spentAt = l.now) ∧
    ∀ e ∈ l.history, e.Late → e.endedAt + longest ≤ l.now

instance : Decidable l.Clear := inferInstanceAs (Decidable (_ ∧ _))

/-- The requests on the way that count in a budget. -/
def load (scope : Scope) : Nat := l.pending.countP fun b => scope.covers b.route

/-- The limiters are out of step until the windows are closed. -/
def Strayed : Prop :=
  (∃ b ∈ l.pending, b.spentAt < l.now) ∨
    ∃ e ∈ l.history, e.Late ∧ (∀ b ∈ l.pending, b.spentAt = l.now → l.now ≤ e.endedAt) ∧
      ∀ scope p, wire.limits.policy scope = some p →
        (∀ w ∈ l.sender.record scope, w.expires ≤ e.endedAt + longest) ∧
          ∀ w ∈ l.peer.record scope, w.expires ≤ e.endedAt + wire.latency + longest

/-- The limiters are in step, and all requests on the way were counted now. -/
def Aligned : Prop :=
  (∀ b ∈ l.pending, b.spentAt = l.now) ∧ ∀ scope p, wire.limits.policy scope = some p →
    InStep p wire.latency l.now (l.sender.record scope) (l.peer.record scope)
      (l.load scope)

/-- What holds whenever budgets are spent only while the ledger is clear. -/
structure Sound : Prop where
  past : ∀ b ∈ l.pending, b.spentAt ≤ l.now
  expires : ∀ scope p, wire.limits.policy scope = some p →
    (∀ w ∈ l.sender.record scope, w.expires ≤ l.now + longest) ∧
      ∀ w ∈ l.peer.record scope, w.expires ≤ l.now + wire.latency + longest
  /-- The peer has room for all that is on the way. -/
  fits : ∀ scope p, wire.limits.policy scope = some p →
    used (l.now + wire.latency) (l.peer.record scope) + l.load scope ≤ p.points
  phase : l.Aligned wire ∨ l.Strayed wire
  accepted : .rateLimitExceeded ∉ l.answers

variable {wire l} {i : Nat} {b : Budget} {route : Route} {scope : Scope}

/-! ## The load -/

theorem pending_perm (found : l.pending[i]? = some b) :
    (b :: l.pending.eraseIdx i).Perm l.pending := by
  obtain ⟨lt, rfl⟩ := List.getElem?_eq_some_iff.mp found
  exact getElem_cons_eraseIdx_perm lt

theorem load_spend :
    (l.spend wire route).load scope = l.load scope + if scope.covers route then 1 else 0 := by
  simp [load, spend, countP_cons]

theorem load_eraseIdx (found : l.pending[i]? = some b) :
    l.load scope = (l.pending.eraseIdx i).countP (fun b => scope.covers b.route) +
      if scope.covers b.route then 1 else 0 := by
  rw [load, ← (pending_perm found).countP_eq, countP_cons]

/-! ## The steps keep it -/

variable (h : l.Sound wire)
include h

theorem Sound.tick (ms : Nat) : (l.tick ms).Sound wire where
  past b member := Nat.le_add_right_of_le (h.past b member)
  expires scope p limited := by
    obtain ⟨sender, peer⟩ := h.expires scope p limited
    refine ⟨fun w member => ?_, fun w member => ?_⟩
    · have := sender w member
      show w.expires ≤ l.now + ms + longest
      omega
    · have := peer w member
      show w.expires ≤ l.now + ms + wire.latency + longest
      omega
  fits scope p limited := by
    have fits := h.fits scope p limited
    have le : used (l.now + ms + wire.latency) (l.peer.record scope) ≤
        used (l.now + wire.latency) (l.peer.record scope) :=
      used_le_of_le (by omega)
    show used (l.now + ms + wire.latency) (l.peer.record scope) + l.load scope ≤ p.points
    omega
  phase := by
    obtain ⟨now, inStep⟩ | ⟨b, member, late⟩ | ⟨e, member, late, fresh, expired⟩ := h.phase
    · by_cases still : ms = 0
      · subst still
        exact .inl ⟨now, inStep⟩
      by_cases empty : l.pending = []
      · left
        refine ⟨by simp [Ledger.tick, empty], fun scope p limited => ?_⟩
        have none : l.load scope = 0 := by simp [load, empty]
        have inStep := inStep scope p limited
        show InStep p wire.latency (l.now + ms) _ _ (l.load scope)
        rw [none] at inStep ⊢
        exact inStep.later ms
      · -- Time passes over a request: it will be late.
        obtain ⟨b, member⟩ := exists_mem_of_ne_nil _ empty
        have counted := now b member
        exact .inr (.inl ⟨b, member, show b.spentAt < l.now + ms by omega⟩)
    · exact .inr (.inl ⟨b, member, show b.spentAt < l.now + ms by omega⟩)
    · refine .inr (.inr ⟨e, member, late, fun b pending same => ?_, expired⟩)
      have past := h.past b pending
      have same : b.spentAt = l.now + ms := same
      have := fresh b pending (by omega)
      show l.now + ms ≤ e.endedAt
      omega
  accepted := h.accepted

/-- Once the ledger is clear the limiters are in step. -/
theorem Sound.aligned (clear : l.Clear) : l.Aligned wire := by
  obtain aligned | ⟨b, member, late⟩ | ⟨e, member, late, fresh, expired⟩ := h.phase
  · exact aligned
  · have := clear.1 b member
    omega
  · have ended := clear.2 e member late
    have longest : 0 < longest := by decide
    have empty : l.pending = [] := by
      refine eq_nil_iff_forall_not_mem.mpr fun b pending => ?_
      have := fresh b pending (clear.1 b pending)
      omega
    refine ⟨clear.1, fun scope p limited => ?_⟩
    rw [show l.load scope = 0 by simp [load, empty]]
    obtain ⟨sender, peer⟩ := expired scope p limited
    refine .of_over (fun w record => ?_) fun w record => ?_
    · exact Nat.le_trans (sender w record) ended
    · have := peer w record
      omega

theorem Sound.spend (clear : l.Clear)
    (room : l.sender.Room wire.limits l.now route) : (l.spend wire route).Sound wire := by
  obtain ⟨now, inStep⟩ := h.aligned clear
  obtain ⟨-, counted⟩ := RateLimiter.consume_of_room room
  have inStep' : ∀ scope p, wire.limits.policy scope = some p →
      InStep p wire.latency l.now ((l.spend wire route).sender.record scope)
        (l.peer.record scope) ((l.spend wire route).load scope) := by
    intro scope p limited
    rw [load_spend, show (l.spend wire route).sender.record scope = _ from counted scope p limited]
    split
    · exact (inStep scope p limited).sent
    · exact inStep scope p limited
  have now' : ∀ b ∈ (l.spend wire route).pending, b.spentAt = l.now := by
    intro b member
    obtain before | added := mem_append.mp member
    · exact now b before
    · rw [mem_singleton.mp added]
  refine ⟨fun b member => Nat.le_of_eq (now' b member), fun scope p limited => ?_, fun scope p limited => ?_,
    .inl ⟨now', inStep'⟩, h.accepted⟩
  · obtain ⟨sender, peer⟩ := h.expires scope p limited
    refine ⟨fun w record => ?_, peer⟩
    rw [show (l.spend wire route).sender.record scope = _ from counted scope p limited] at record
    split at record
    · cases record
      exact count_expires_le (duration_le limited) sender
    · exact sender w record
  · by_cases covers : scope.covers route = true
    · -- What the peer will have counted is what the sender has counted.
      have same := (inStep' scope p limited).used
      have room := room scope p limited covers
      rw [show (l.spend wire route).sender.record scope = _ from counted scope p limited,
        if_pos covers, used_count] at same
      show used (l.now + wire.latency) (l.peer.record scope) + _ ≤ p.points
      omega
    · have fits := h.fits scope p limited
      rw [load_spend, if_neg covers]
      exact fits

/-- The peer has room for a request that is on the way. -/
theorem Sound.room (found : l.pending[i]? = some b) :
    l.peer.Room wire.limits (l.now + wire.latency) b.route := by
  intro scope p limited covers
  have fits := h.fits scope p limited
  rw [load_eraseIdx found, if_pos covers] at fits
  omega

theorem Sound.write (counts : wire.remoteAccess = false)
    (found : l.pending[i]? = some b) : (l.write wire i b).Sound wire := by
  have room := h.room found
  obtain ⟨granted, counted⟩ := RateLimiter.consume_of_room room
  have peer : (l.write wire i b).peer =
      (l.peer.consume wire.limits (l.now + wire.latency) b.route).1 := by
    simp [Ledger.write, Wire.receive, counts]
  have subset : ∀ x ∈ (l.write wire i b).pending, x ∈ l.pending :=
    fun x member => mem_of_mem_eraseIdx member
  have expires : ∀ scope p, wire.limits.policy scope = some p →
      (∀ w ∈ l.sender.record scope, w.expires ≤ l.now + longest) ∧
        ∀ w ∈ (l.write wire i b).peer.record scope, w.expires ≤ l.now + wire.latency + longest := by
    intro scope p limited
    obtain ⟨sender, before⟩ := h.expires scope p limited
    refine ⟨sender, fun w record => ?_⟩
    rw [peer, counted scope p limited] at record
    split at record
    · cases record
      exact count_expires_le (duration_le limited) before
    · exact before w record
  refine ⟨fun x member => h.past x (subset x member), expires, fun scope p limited => ?_, ?_, ?_⟩
  · have fits := h.fits scope p limited
    rw [load_eraseIdx found] at fits
    show used (l.now + wire.latency) _ + (l.pending.eraseIdx i).countP _ ≤ p.points
    rw [peer, counted scope p limited]
    split
    · next covers =>
        rw [if_pos covers] at fits
        rw [used_count]
        omega
    · next covers =>
        rw [if_neg covers] at fits
        exact fits
  · by_cases late : b.spentAt < l.now
    · -- The request was late, and all windows end in time.
      refine .inr (.inr ⟨⟨b.spentAt, l.now, true⟩, mem_append_right _ (by simp), .inr late,
        fun _ _ _ => Nat.le_refl _, expires⟩)
    have prompt : b.spentAt = l.now := by
      have := h.past b (mem_of_getElem? found)
      omega
    obtain ⟨now, inStep⟩ | ⟨x, member, before⟩ | ⟨e, member, lateEnded, fresh, expired⟩ := h.phase
    · left
      refine ⟨fun x member => now x (subset x member), fun scope p limited => ?_⟩
      have inStep := inStep scope p limited
      rw [load_eraseIdx found] at inStep
      show InStep p wire.latency l.now _ _ ((l.pending.eraseIdx i).countP _)
      rw [peer, counted scope p limited]
      split
      · next covers =>
          rw [if_pos covers] at inStep
          exact inStep.received
      · next covers =>
          rw [if_neg covers] at inStep
          exact inStep
    · right
      left
      obtain rfl | kept := mem_cons.mp ((pending_perm found).mem_iff.mpr member)
      · exact absurd before late
      · exact ⟨x, kept, before⟩
    · have recent := fresh b (mem_of_getElem? found) prompt
      refine .inr (.inr ⟨e, mem_append_left _ member, lateEnded,
        fun x pending => fresh x (subset x pending), fun scope p limited => ?_⟩)
      obtain ⟨sender, after⟩ := expires scope p limited
      refine ⟨(expired scope p limited).1, fun w record => ?_⟩
      have := after w record
      omega
  · have answer : (wire.receive l.now l.peer b.route).2 = .handled := by
      simp [Wire.receive, counts, RateLimiter.hasExceededRateLimit, granted]
    simp [Ledger.write, answer, h.accepted]

theorem Sound.lose (found : l.pending[i]? = some b) : (l.lose i b).Sound wire := by
  refine ⟨fun x member => h.past x (mem_of_mem_eraseIdx member), h.expires,
    fun scope p limited => ?_, .inr (.inr ⟨⟨b.spentAt, l.now, false⟩, mem_append_right _ (by simp),
      .inl rfl, fun _ _ _ => Nat.le_refl _, h.expires⟩), h.accepted⟩
  have fits := h.fits scope p limited
  rw [load_eraseIdx found] at fits
  show used (l.now + wire.latency) (l.peer.record scope) +
    (l.pending.eraseIdx i).countP _ ≤ p.points
  omega

end Ledger

end Mainsail.P2P
