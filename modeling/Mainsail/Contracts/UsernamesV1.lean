import Mainsail.Foundation.Frames
import Mainsail.Foundation.Registry
import Mainsail.Contracts.ConsensusV1

/-!
# The usernames contract

`UsernamesV1.sol`. The contract keeps the name of each address, and for the hash of each name
whether it is taken. The two mappings are written separately: a new name of an address frees the
old one, and a resignation frees the name it takes away.
-/

namespace Mainsail.UsernamesV1

open Function Registry Except

structure State where
  owner : Address
  usernames : Address → Bytes
  usernameExists : Bytes → Bool

inductive Revert
  | ownableUnauthorizedAccount
  | ownableInvalidOwner
  | invalidInitialization
  | nonPayable
  | invalidUsername
  | takenUsername
  | usernameNotRegistered
  /-- The panic of an index out of bounds. -/
  | indexOutOfBounds
  deriving DecidableEq, Repr

/-- The events of the contract itself. -/
inductive Event
  | usernameRegistered (addr : Address) (username previousUsername : Bytes)
  | usernameResigned (addr : Address) (username : Bytes)
  deriving DecidableEq, Repr

inductive Call
  | initializeContract
  | transferOwnership (newOwner : Address)
  | renounceOwnership
  | addUsername (user : Address) (username : Bytes)
  | registerUsername (username : Bytes)
  | resignUsername
  deriving DecidableEq, Repr

structure Message where
  sender : Address
  value : Nat := 0
  call : Call
  deriving DecidableEq, Repr

/-! ## Names -/

def underscore : UInt8 := 0x5F

/-- Lowercase letters, numbers and underscores. -/
def isAllowed (c : UInt8) : Bool :=
  (c ≥ 0x30 && c ≤ 0x39) || (c ≥ 0x61 && c ≤ 0x7A) || c == underscore

/-- The loop of `_verifyUsername`, from one character on. After an underscore the next character
is read, whether there is one or not. -/
def verifyCharacters : Bytes → Except Revert Bool
  | [] => .ok true
  | c :: rest =>
    if !isAllowed c then .ok false
    else if c = underscore then
      match rest with
      | [] => .error .indexOutOfBounds
      | next :: _ => if next = underscore then .ok false else verifyCharacters rest
    else verifyCharacters rest

def verifyUsername (username : Bytes) : Except Revert Bool :=
  if username.length < 1 ∨ username.length > 20 then .ok false
  else if username.head? = some underscore ∨ username.getLast? = some underscore then .ok false
  else verifyCharacters username

/-! ## Calls -/

namespace State

variable (s : State) (keccak256 : Bytes → Bytes)

def onlyOwner (sender : Address) : Except Revert Unit :=
  if sender = s.owner then .ok () else .error .ownableUnauthorizedAccount

/-- The name of an address becomes free. An address that has none is left alone. -/
def removeUsername (previousUsername : Bytes) : Bytes → Bool :=
  if previousUsername.length > 0 then
    update s.usernameExists (keccak256 previousUsername) false
  else s.usernameExists

def registerUsername (user : Address) (username : Bytes) : Except Revert (State × List Event) :=
  let usernameHash := keccak256 username
  if s.usernameExists usernameHash then .error .takenUsername
  else
    let previousUsername := s.usernames user
    .ok ({ s with
      usernames := update s.usernames user username
      usernameExists :=
        update (s.removeUsername keccak256 previousUsername) usernameHash true },
      [.usernameRegistered user username previousUsername])

def resignUsername (sender : Address) : Except Revert (State × List Event) :=
  let username := s.usernames sender
  if username.length > 0 then
    .ok ({ s with
      usernames := update s.usernames sender []
      usernameExists := update s.usernameExists (keccak256 username) false },
      [.usernameResigned sender username])
  else .error .usernameNotRegistered

def getUsername (user : Address) : Bytes := s.usernames user

def isUsernameRegistered (username : Bytes) : Bool := s.usernameExists (keccak256 username)

end State

def dispatch (keccak256 : Bytes → Bytes) (s : State) (m : Message) :
    Except Revert (State × List Event) :=
  match m.call with
  | .initializeContract => .error .invalidInitialization
  | .transferOwnership newOwner => do
      s.onlyOwner m.sender
      if newOwner = 0 then .error .ownableInvalidOwner else return ({ s with owner := newOwner }, [])
  | .renounceOwnership => do
      s.onlyOwner m.sender
      return ({ s with owner := 0 }, [])
  | .addUsername user username => do
      s.onlyOwner m.sender
      if username.length < 1 ∨ username.length > 20 then .error .invalidUsername
      else s.registerUsername keccak256 user username
  | .registerUsername username => do
      if !(← verifyUsername username) then .error .invalidUsername
      else s.registerUsername keccak256 m.sender username
  | .resignUsername => s.resignUsername keccak256 m.sender

/-- No function of the contract is payable. -/
def step (keccak256 : Bytes → Bytes) (s : State) (m : Message) :
    Except Revert (State × List Event) :=
  if m.value ≠ 0 then .error .nonPayable else dispatch keccak256 s m

/-- The storage after a call that does not revert. -/
def answer (keccak256 : Bytes → Bytes) (s : State) (m : Message) : Option State :=
  (step keccak256 s m).toOption.map Prod.fst

/-- The storage after the contract has been set up. -/
def initial (owner : Address) : State where
  owner
  usernames := fun _ => []
  usernameExists := fun _ => false

/-- The executions after the deployment of the contract. It calls nobody, but may be called from
frames that fail. -/
abbrev Reachable (keccak256 : Bytes → Bytes) (owner : Address)
    (x : Frames.Execution State Message) : Prop :=
  Frames.Reach (answer keccak256) (fun _ _ => false) (fun _ => True) (initial owner) x

/-! ## Valid names -/

/-- The rules for names. -/
structure WellFormed (username : Bytes) : Prop where
  nonempty : 1 ≤ username.length
  short : username.length ≤ 20
  allowed : ∀ c ∈ username, isAllowed c
  start : username.head? ≠ some underscore
  finish : username.getLast? ≠ some underscore
  noRepeat : username.IsChain fun c d => ¬ (c = underscore ∧ d = underscore)

variable {username : Bytes}

/-- A name that does not end with an underscore is read within its bounds. -/
theorem verifyCharacters_spec (finish : username.getLast? ≠ some underscore) :
    ∃ valid, verifyCharacters username = .ok valid ∧ (valid = true ↔ (∀ c ∈ username, isAllowed c) ∧
        username.IsChain fun c d => ¬ (c = underscore ∧ d = underscore)) := by
  induction username with
  | nil => exact ⟨true, rfl, by simp⟩
  | cons c rest ih =>
    unfold verifyCharacters
    split
    · next refused => exact ⟨false, rfl, by simp_all⟩
    next allowed =>
    have allowed : isAllowed c := by simpa using allowed
    cases rest with
    | nil =>
      have other : c ≠ underscore := by simpa using finish
      refine ⟨true, ?_, by simp [allowed]⟩
      simp [other, verifyCharacters]
    | cons d rest =>
      obtain ⟨valid, verified, spec⟩ := ih (by simpa using finish)
      split
      · next same =>
          dsimp only
          split
          · next again => exact ⟨false, rfl, by simp [same, again]⟩
          · next other =>
              refine ⟨valid, verified, spec.trans ?_⟩
              simp [allowed, other, and_assoc]
      · next other =>
          refine ⟨valid, verified, spec.trans ?_⟩
          simp [allowed, other, and_assoc]

theorem verifyUsername_spec (username : Bytes) :
    ∃ valid, verifyUsername username = .ok valid ∧ (valid = true ↔ WellFormed username) := by
  unfold verifyUsername
  split
  · next length =>
      refine ⟨false, rfl, by simp, ?_⟩
      intro wellFormed
      have := wellFormed.nonempty
      have := wellFormed.short
      omega
  next length =>
  split
  · next ends =>
      refine ⟨false, rfl, by simp, ?_⟩
      intro wellFormed
      exact (ends.elim wellFormed.start wellFormed.finish).elim
  next ends =>
  obtain ⟨start, finish⟩ := not_or.mp ends
  obtain ⟨valid, verified, spec⟩ := verifyCharacters_spec finish
  refine ⟨valid, verified, spec.trans ⟨?_, ?_⟩⟩
  · rintro ⟨allowed, noRepeat⟩
    exact ⟨by omega, by omega, allowed, start, finish, noRepeat⟩
  · intro wellFormed
    exact ⟨wellFormed.allowed, wellFormed.noRepeat⟩

/-! ## What a call changes -/

section

variable {keccak256 : Bytes → Bytes} {owner : Address} {s s' : State} {m : Message}
variable {x : Frames.Execution State Message}

/-- The names a call can change: none, one that is registered, or one that is resigned. -/
inductive Change (keccak256 : Bytes → Bytes) (s s' : State) : Prop
  | owner (usernames : s'.usernames = s.usernames)
      (usernameExists : s'.usernameExists = s.usernameExists)
  | register (user : Address) (username : Bytes) (nonempty : username ≠ [])
      (free : s.usernameExists (keccak256 username) = false)
      (usernames : s'.usernames = update s.usernames user username)
      (usernameExists : s'.usernameExists =
        update (s.removeUsername keccak256 (s.usernames user)) (keccak256 username) true)
  | resign (user : Address) (usernames : s'.usernames = update s.usernames user [])
      (usernameExists : s'.usernameExists = s.removeUsername keccak256 (s.usernames user))

open State

variable {events : List Event}

theorem State.registerUsername_change {user : Address} (nonempty : username ≠ [])
    (h : s.registerUsername keccak256 user username = .ok (s', events)) :
    Change keccak256 s s' := by
  unfold registerUsername at h
  dsimp only at h
  split at h
  · cases h
  · next free =>
      obtain ⟨rfl, -⟩ := Prod.mk.inj (ok.inj h)
      exact .register user username nonempty (by simpa using free) rfl rfl

theorem State.resignUsername_change {sender : Address}
    (h : s.resignUsername keccak256 sender = .ok (s', events)) : Change keccak256 s s' := by
  unfold resignUsername at h
  dsimp only at h
  split at h
  · next held =>
      obtain ⟨rfl, -⟩ := Prod.mk.inj (ok.inj h)
      exact .resign sender rfl (if_pos held).symm
  · cases h

theorem step_change (h : step keccak256 s m = .ok (s', events)) : Change keccak256 s s' := by
  unfold step at h
  split at h
  · cases h
  unfold dispatch at h
  split at h
  · cases h
  · obtain ⟨-, -, h⟩ := bind_eq_ok.mp h
    split at h
    · cases h
    · obtain ⟨rfl, -⟩ := Prod.mk.inj (ok.inj h)
      exact .owner rfl rfl
  · obtain ⟨-, -, h⟩ := bind_eq_ok.mp h
    obtain ⟨rfl, -⟩ := Prod.mk.inj (ok.inj h)
    exact .owner rfl rfl
  · next user username call =>
      obtain ⟨-, -, h⟩ := bind_eq_ok.mp h
      split at h
      · cases h
      · next length =>
          refine registerUsername_change ?_ h
          rintro rfl
          simp at length
  · next username call =>
      obtain ⟨valid, verified, h⟩ := bind_eq_ok.mp h
      obtain ⟨valid', verified', spec⟩ := verifyUsername_spec username
      obtain rfl := ok.inj (verified.symm.trans verified')
      split at h
      · cases h
      · next accepted =>
          have wellFormed := spec.mp (by simpa using accepted)
          exact registerUsername_change (List.length_pos_iff.mp wellFormed.nonempty) h
  · exact resignUsername_change h

theorem answer_change (h : answer keccak256 s m = some s') : Change keccak256 s s' := by
  obtain ⟨⟨_, events⟩, answered, rfl⟩ := Option.map_eq_some_iff.mp h
  exact step_change (toOption_eq_some.mp answered)

/-! ## Reservations -/

namespace State

/-- The hash of the name of an address. -/
def held (keccak256 : Bytes → Bytes) (s : State) (a : Address) : Option Bytes :=
  if s.usernames a = [] then none else some (keccak256 (s.usernames a))

variable {a : Address}

theorem held_eq_some {hash : Bytes} :
    s.held keccak256 a = some hash ↔ s.usernames a ≠ [] ∧ keccak256 (s.usernames a) = hash := by
  unfold held
  split <;> simp [*]

theorem removeUsername_eq (a : Address) :
    s.removeUsername keccak256 (s.usernames a) = release s.usernameExists (s.held keccak256 a) := by
  unfold removeUsername held
  by_cases none : s.usernames a = []
  · simp [none, release]
  · rw [if_pos (List.length_pos_iff.mpr none), if_neg none]
    rfl

theorem held_update (h : s'.usernames = update s.usernames a username) :
    s'.held keccak256 = update (s.held keccak256) a
      (if username = [] then none else some (keccak256 username)) := by
  funext b
  by_cases same : b = a
  · subst same
    simp [held, h]
  · simp [held, h, same]

end State

/-- A call keeps the reservations exact. -/
theorem Change.exact (change : Change keccak256 s s')
    (h : Exact (s.held keccak256) s.usernameExists) :
    Exact (s'.held keccak256) s'.usernameExists := by
  cases change with
  | owner usernames usernameExists =>
    have : s'.held keccak256 = s.held keccak256 := by
      funext a
      simp only [held, usernames]
    rwa [this, usernameExists]
  | register user username nonempty free usernames usernameExists =>
    rw [held_update usernames, usernameExists, removeUsername_eq, if_neg nonempty]
    exact h.take user free
  | resign user usernames usernameExists =>
    rw [held_update usernames, usernameExists, removeUsername_eq, if_pos rfl]
    exact h.release user

theorem Reachable.exact (h : Reachable keccak256 owner x) :
    Exact (x.state.held keccak256) x.state.usernameExists := by
  refine Frames.Reach.invariant h (I := fun s => Exact (s.held keccak256) s.usernameExists) ?_ ?_
  · exact .empty
  · intro s m s' holds _ answered
    exact (answer_change answered).exact holds

/-- No two addresses have the same name. A name that collides with no other that is held is
registered exactly when an address has it. -/
theorem usernames_exact (h : Reachable keccak256 owner x) :
    (∀ a b, x.state.getUsername a ≠ [] → x.state.getUsername a = x.state.getUsername b → a = b) ∧
    ∀ name, (∀ a, keccak256 (x.state.getUsername a) = keccak256 name →
        x.state.getUsername a = name) →
      (x.state.isUsernameRegistered keccak256 name ↔
        name ≠ [] ∧ ∃ a, x.state.getUsername a = name) := by
  have exact := h.exact
  constructor
  · intro a b nonempty same
    refine exact.unique a b (keccak256 (x.state.usernames a)) ?_ ?_
    · exact held_eq_some.mpr ⟨nonempty, rfl⟩
    · rw [same] at nonempty
      exact held_eq_some.mpr ⟨nonempty, congrArg keccak256 same.symm⟩
  · intro name collisionFree
    refine (exact.reserved_iff (keccak256 name)).trans ?_
    simp only [held_eq_some]
    constructor
    · rintro ⟨a, nonempty, hash⟩
      obtain rfl := collisionFree a hash
      exact ⟨nonempty, a, rfl⟩
    · rintro ⟨nonempty, a, rfl⟩
      exact ⟨a, nonempty, rfl⟩

/-- An address takes another name and then none, and its two names go to other addresses. Nobody
can take a name twice. -/
theorem usernames_exact_sample : ∃ x, Reachable id 1 x ∧ x.state.getUsername 2 = [] ∧
      x.state.getUsername 3 = [0x61] ∧ x.state.getUsername 4 = [0x62] ∧
      x.state.isUsernameRegistered id [0x62] = true := by
  let events : List (Frames.Event Message) := [
    .call { sender := 2, call := .registerUsername [0x61] },
    .call { sender := 2, call := .registerUsername [0x61] },
    .call { sender := 2, call := .registerUsername [0x62] },
    .call { sender := 1, call := .addUsername 3 [0x61] },
    .call { sender := 2, call := .resignUsername },
    .call { sender := 4, call := .registerUsername [0x61] },
    .call { sender := 4, call := .registerUsername [0x62] }]
  have ran : (Transition.run (Frames.step (answer id) fun _ _ => false) { state := initial 1 }
      events).map (fun x => (x.state.getUsername 2, x.state.getUsername 3,
        x.state.getUsername 4)) = some ([], [0x61], [0x62]) := by
    decide +kernel
  obtain ⟨x, reached, found⟩ : ∃ x, Reachable id 1 x ∧ _ = _ :=
    Transition.Reach.exists_of_run ran (.of_forall (by simp [events, Frames.Event.Sends]))
  simp only [Prod.mk.injEq] at found
  obtain ⟨second, third, fourth⟩ := found
  refine ⟨x, reached, second, third, fourth, ?_⟩
  exact ((usernames_exact reached).2 [0x62] fun a same => same).mpr ⟨by simp, 4, fourth⟩

end

end Mainsail.UsernamesV1
