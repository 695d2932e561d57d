import Mainsail.Foundation.FixedWindow

/-!
# The rate limiter

Both ends of a connection build the same limiter from the configuration: one budget for all
requests of an address, and one for each of the routes listed in `buildRateLimiter`. The sender
asks it how long to wait, the receiver whether a request is within the budget. Times are in
milliseconds.
-/

namespace Mainsail.P2P

open FixedWindow (Policy Window)
open FixedWindow

/-- `Routes`. -/
inductive Route
  | getApiNodes
  | getBlocks
  | getMessages
  | getProposal
  | getPeers
  | getStatus
  | postMessage
  | postProposal
  deriving DecidableEq, Repr

/-- What the limiters depend on: `rateLimit` of the configuration, which the schema wants to be
positive, and `getMaxRoundValidators` of the milestones. -/
structure Limits where
  rateLimit : Nat
  roundValidators : Nat
  rateLimit_pos : 0 < rateLimit
  roundValidators_pos : 0 < roundValidators

namespace Limits

variable (limits : Limits)

/-- The budget for all routes. -/
def global : Policy := ⟨limits.rateLimit, 1000, limits.rateLimit_pos, by decide⟩

/-- The budgets for single routes. -/
def endpoint : Route → Option Policy
  | .getBlocks => some ⟨5, 1000, by decide, by decide⟩
  | .getPeers => some ⟨1, 1000, by decide, by decide⟩
  | .getStatus => some ⟨2, 1000, by decide, by decide⟩
  | .postProposal => some ⟨2, 2000, by decide, by decide⟩
  | .postMessage => some ⟨limits.roundValidators, 1000, limits.roundValidators_pos, by decide⟩
  | .getMessages => some ⟨5, 1000, by decide, by decide⟩
  | .getProposal => some ⟨5, 1000, by decide, by decide⟩
  | .getApiNodes => none

/-- The longest window. -/
def longest : Nat := 2000

end Limits

/-- The records of one address. -/
structure RateLimiter where
  global : Option Window
  endpoints : Route → Option Window

namespace RateLimiter

def empty : RateLimiter := ⟨none, fun _ => none⟩

/-- `consume`, and whether it resolves. The budget of the route is not touched if the global one
is used up. -/
def consume (limits : Limits) (now : Nat) (rl : RateLimiter) (route : Route) : RateLimiter × Bool :=
  let global := { rl with global := some (count limits.global now rl.global) }
  if granted limits.global now rl.global then
    match limits.endpoint route with
    | none => (global, true)
    | some p =>
      ({ global with
          endpoints := Function.update rl.endpoints route
            (some (count p now (rl.endpoints route))) },
        granted p now (rl.endpoints route))
  else (global, false)

def hasExceededRateLimit (limits : Limits) (now : Nat) (rl : RateLimiter) (route : Route) : Bool :=
  !(rl.consume limits now route).2

def msBeforeNext (limits : Limits) (now : Nat) (rl : RateLimiter) (route : Route) : Nat :=
  max (FixedWindow.msBeforeNext limits.global now rl.global) (match limits.endpoint route with
      | none => 0
      | some p => FixedWindow.msBeforeNext p now (rl.endpoints route))

end RateLimiter

/-! ## The budgets one by one -/

/-- A budget: that of all routes, or that of one. -/
inductive Scope
  | all
  | only (route : Route)
  deriving DecidableEq

namespace Scope

/-- The route counts in the budget. -/
def covers : Scope → Route → Bool
  | all, _ => true
  | only route, other => route == other

end Scope

def Limits.policy (limits : Limits) : Scope → Option Policy
  | .all => some limits.global
  | .only route => limits.endpoint route

theorem Limits.duration_le {limits : Limits} {scope : Scope} {p : Policy}
    (limited : limits.policy scope = some p) : p.duration ≤ longest := by
  cases scope with
  | all =>
    cases limited
    simp [global, longest]
  | only route =>
    cases route <;> first
      | contradiction
      | obtain rfl := Option.some.inj limited
        simp [longest]

namespace RateLimiter

variable {limits : Limits} {now : Nat} {rl : RateLimiter} {route : Route}

def record (rl : RateLimiter) : Scope → Option Window
  | .all => rl.global
  | .only route => rl.endpoints route

/-- Every budget that the route counts in has a point left. -/
def Room (limits : Limits) (now : Nat) (rl : RateLimiter) (route : Route) : Prop :=
  ∀ scope p, limits.policy scope = some p → scope.covers route = true →
    used now (rl.record scope) + 1 ≤ p.points

theorem room_of_msBeforeNext (free : rl.msBeforeNext limits now route = 0) :
    rl.Room limits now route := by
  simp only [msBeforeNext, Nat.max_eq_zero_iff] at free
  intro scope p limited covers
  cases scope with
  | all =>
    cases limited
    exact FixedWindow.room_of_msBeforeNext free.1
  | only other =>
    obtain rfl : other = route := by simpa [Scope.covers] using covers
    have limited : limits.endpoint other = some p := limited
    rw [limited] at free
    exact FixedWindow.room_of_msBeforeNext free.2

variable (room : rl.Room limits now route)
include room

theorem Room.later {later : Nat} (le : now ≤ later) :
    rl.Room limits later route := by
  intro scope p limited covers
  have := room scope p limited covers
  have := used_le_of_le (r := rl.record scope) le
  omega

/-- With room, a request is granted and counts once in each of its budgets. -/
theorem consume_of_room :
    (rl.consume limits now route).2 = true ∧
      ∀ scope p, limits.policy scope = some p →
        (rl.consume limits now route).1.record scope =
          if scope.covers route then some (count p now (rl.record scope))
          else rl.record scope := by
  have all := granted_iff.mpr (room .all _ rfl rfl)
  simp only [record] at all
  simp only [consume, all, if_true]
  cases limited : limits.endpoint route with
  | none =>
    refine ⟨rfl, fun scope p policy => ?_⟩
    cases scope with
    | all =>
      cases policy
      rfl
    | only other =>
      have differ : other ≠ route := by
        rintro rfl
        exact absurd (limited.symm.trans policy) (by simp)
      simp [record, Scope.covers, differ]
  | some q =>
    refine ⟨granted_iff.mpr (room (.only route) q limited (by simp [Scope.covers])),
      fun scope p policy => ?_⟩
    cases scope with
    | all =>
      cases policy
      rfl
    | only other =>
      by_cases same : other = route
      · subst same
        obtain rfl : q = p := Option.some.inj (limited.symm.trans policy)
        simp [record, Scope.covers]
      · simp [record, Scope.covers, same]

end RateLimiter

end Mainsail.P2P
