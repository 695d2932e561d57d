import Mathlib.Algebra.GroupWithZero.Nat

/-!
# Nested calls that move ether

What the code of an account does, as far as balances are concerned, is a tree: it calls other
accounts with ether, goes on according to whether the call succeeded, and stops, reverts or
destructs itself in the end. The tree of a call holds the tree of the account that is called, which
can be any, so that every behaviour of unknown code is the execution of some tree. An execution
that reverts takes back all transfers within it.

A contract is known when its calls are answered by trees of a certain form. The balance of one
that passes on exactly what each call brings changes only by ether that accounts force on it when
they destruct themselves.
-/

namespace CallTree

variable {α δ : Type}

/-- What the code of an account does. -/
inductive Program (α δ : Type)
  | stop
  | revert
  /-- A call with ether and data, what the called account does, and what is done afterwards. -/
  | call (target : α) (value : Nat) (data : δ) (callee : Program α δ) (next : Bool → Program α δ)
  /-- All ether goes to the beneficiary, or is destroyed if there is none. -/
  | selfdestruct (beneficiary : Option α)

structure Transfer (α : Type) where
  source : α
  target : Option α
  amount : Nat
  /-- The target is not called. -/
  forced : Bool := false
  deriving DecidableEq, Repr

/-- The balances after an execution, the transfers of the account itself and those of the
executions within. -/
structure Effect (α : Type) where
  balances : α → Nat
  own : List (Transfer α) := []
  inner : List (Transfer α) := []

variable [DecidableEq α]

def Transfer.apply (t : Transfer α) (balances : α → Nat) (a : α) : Nat :=
  balances a - (if t.source = a then t.amount else 0) + if t.target = some a then t.amount else 0

open Transfer

/-- The balances when a call begins. -/
def enter (balances : α → Nat) (source target : α) (value : Nat) : Option (α → Nat) :=
  if balances source < value then none
  else some (apply ⟨source, some target, value, false⟩ balances)

def exec : Program α δ → α → (α → Nat) → Option (Effect α)
  | .stop, _, balances => some { balances }
  | .revert, _, _ => none
  | .call target value _ callee next, who, balances =>
    match (enter balances who target value).bind (exec callee target) with
    | none => exec (next false) who balances
    | some e => (exec (next true) who e.balances).map fun rest =>
      { rest with
        own := ⟨who, some target, value, false⟩ :: rest.own
        inner := e.own ++ e.inner ++ rest.inner }
  | .selfdestruct beneficiary, who, balances =>
    let t : Transfer α := ⟨who, beneficiary, balances who, true⟩
    some { balances := t.apply balances, own := [t] }

/-- A call from outside. -/
def invoke (p : Program α δ) (source target : α) (value : Nat) (balances : α → Nat) :
    Option (Effect α) :=
  (enter balances source target value).bind (exec p target)

/-- The balances after a call, which are as before if it reverts. -/
def settle (balances : α → Nat) : Option (Effect α) → α → Nat
  | none => balances
  | some e => e.balances

/-! ## Sums of transfers -/

def total (p : Transfer α → Prop) [DecidablePred p] (transfers : List (Transfer α)) : Nat :=
  (transfers.map fun t => if p t then t.amount else 0).sum

/-- The ether an account has got. -/
def received (a : α) (transfers : List (Transfer α)) : Nat :=
  total (fun t => t.target = some a) transfers

/-- The ether an account has given. -/
def spent (a : α) (transfers : List (Transfer α)) : Nat := total (fun t => t.source = a) transfers

/-- The ether an account has got without being called. -/
def forced (a : α) (transfers : List (Transfer α)) : Nat :=
  total (fun t => t.forced ∧ t.target = some a) transfers

section

variable {p : Transfer α → Prop} [DecidablePred p] {t : Transfer α} {l l' : List (Transfer α)}

omit [DecidableEq α] in
@[simp] theorem total_nil : total p [] = 0 := rfl

omit [DecidableEq α] in
@[simp] theorem total_cons : total p (t :: l) = (if p t then t.amount else 0) + total p l := rfl

omit [DecidableEq α] in
@[simp] theorem total_append : total p (l ++ l') = total p l + total p l' := by
  simp [total]

omit [DecidableEq α] in
theorem total_eq_zero (h : ∀ t ∈ l, ¬ p t) : total p l = 0 := by
  induction l with
  | nil => rfl
  | cons t l ih =>
    obtain ⟨head, tail⟩ := List.forall_mem_cons.mp h
    rw [total_cons, if_neg head, ih tail]

theorem received_append (a : α) : received a (l ++ l') = received a l + received a l' :=
  total_append

theorem spent_append (a : α) : spent a (l ++ l') = spent a l + spent a l' := total_append

theorem forced_append (a : α) : forced a (l ++ l') = forced a l + forced a l' := total_append

end

variable {p callee : Program α δ} {next : Bool → Program α δ} {who target : α} {value : Nat}
variable {data : δ} {balances : α → Nat} {e : Effect α}

/-! ## Balances -/

theorem Transfer.apply_add {t : Transfer α} (enough : t.amount ≤ balances t.source) (a : α) :
    t.apply balances a + (if t.source = a then t.amount else 0) =
      balances a + if t.target = some a then t.amount else 0 := by
  unfold apply
  by_cases source : t.source = a
  · subst source
    simp only [if_true]
    omega
  · simp [source]

theorem enter_eq_some {balances' : α → Nat} : enter balances who target value = some balances' ↔
      value ≤ balances who ∧ balances' = apply ⟨who, some target, value, false⟩ balances := by
  unfold enter
  split
  · next small =>
      have : ¬ value ≤ balances who := Nat.not_le.mpr small
      simp [this]
  · next enough =>
      have : value ≤ balances who := Nat.not_lt.mp enough
      simp [this, eq_comm]

theorem invoke_eq_some {source : α} : invoke p source target value balances = some e ↔
      value ≤ balances source ∧
        exec p target (apply ⟨source, some target, value, false⟩ balances) = some e := by
  simp only [invoke, Option.bind_eq_some_iff, enter_eq_some, and_assoc, exists_and_left,
    exists_eq_left]

/-- A call that fails changes nothing. One that succeeds is recorded before what follows. -/
theorem exec_call (h : exec (.call target value data callee next) who balances = some e) :
    invoke callee who target value balances = none ∧ exec (next false) who balances = some e ∨
      ∃ called rest, invoke callee who target value balances = some called ∧
        exec (next true) who called.balances = some rest ∧
        e = { rest with
          own := ⟨who, some target, value, false⟩ :: rest.own
          inner := called.own ++ called.inner ++ rest.inner } := by
  rw [exec] at h
  split at h
  · next failed => exact .inl ⟨failed, h⟩
  · next called succeeded =>
      obtain ⟨rest, after, rfl⟩ := Option.map_eq_some_iff.mp h
      exact .inr ⟨called, rest, succeeded, after, rfl⟩

/-- The balance of each account changes by the transfers. -/
theorem exec_balances (h : exec p who balances = some e) (a : α) :
    e.balances a + spent a (e.own ++ e.inner) = balances a + received a (e.own ++ e.inner) := by
  induction p generalizing who balances e with
  | stop =>
    cases h
    rfl
  | revert => cases h
  | call target value data callee next callee_ih next_ih =>
    obtain ⟨-, after⟩ | ⟨called, rest, invoked, after, rfl⟩ := exec_call h
    · exact next_ih false after
    · obtain ⟨enough, executed⟩ := invoke_eq_some.mp invoked
      have first := apply_add (t := ⟨who, some target, value, false⟩) enough a
      have second := callee_ih executed
      have third := next_ih true after
      simp only [spent, received, total_append, List.cons_append,
        total_cons] at first second third ⊢
      omega
  | selfdestruct beneficiary =>
    cases h
    have := apply_add (t := ⟨who, beneficiary, balances who, true⟩) (Nat.le_refl _) a
    simpa [spent, received] using this

theorem exec_own_source (h : exec p who balances = some e) : ∀ t ∈ e.own, t.source = who := by
  induction p generalizing balances e with
  | stop | selfdestruct =>
    cases h
    simp
  | revert => cases h
  | call target value data callee next _ next_ih =>
    obtain ⟨-, after⟩ | ⟨called, rest, -, after, rfl⟩ := exec_call h
    · exact next_ih false after
    · exact List.forall_mem_cons.mpr ⟨rfl, next_ih true after⟩

/-! ## Known contracts -/

/-- All calls of the contract within a tree are answered by its code, which depends on the sender,
the value and the data of a call. -/
def Program.Calls (self : α) (code : α → Nat → δ → Program α δ → Prop) (who : α) :
    Program α δ → Prop
  | .stop | .revert | .selfdestruct _ => True
  | .call target value data callee next =>
    (target = self → code who value data callee) ∧ callee.Calls self code target ∧
      ∀ success, (next success).Calls self code who

/-- The code gives away as much as it has been sent. -/
def PassesOn (self : α) (code : α → Nat → δ → Program α δ → Prop) : Prop :=
  ∀ {sender value data p balances e}, code sender value data p →
    exec p self balances = some e → total (fun _ => True) e.own = value

/-- A contract that passes on what it is sent has, at the end of any execution, what it had and
what has been forced on it. While it executes itself it has given away its own transfers. -/
theorem exec_self {self : α} {code : α → Nat → δ → Program α δ → Prop}
    (passes : PassesOn self code) (calls : p.Calls self code who)
    (h : exec p who balances = some e) :
    e.balances self + (if who = self then total (fun _ => True) e.own else 0) =
      balances self + forced self (e.own ++ e.inner) := by
  induction p generalizing who balances e with
  | stop =>
    cases h
    simp [forced]
  | revert => cases h
  | call target value data callee next callee_ih next_ih =>
    obtain ⟨answered, within, afterwards⟩ := calls
    obtain ⟨-, after⟩ | ⟨called, rest, invoked, after, rfl⟩ := exec_call h
    · exact next_ih false (afterwards false) after
    · obtain ⟨enough, executed⟩ := invoke_eq_some.mp invoked
      have first := apply_add (t := ⟨who, some target, value, false⟩) enough self
      have second := callee_ih within executed
      have third := next_ih true (afterwards true) after
      -- A call of the contract is answered by code that gives the value away again.
      have passed : (if target = self then total (fun _ => True) called.own else 0) =
          if target = self then value else 0 := by
        split
        · next same =>
            rw [same] at executed
            exact passes (answered same) executed
        · rfl
      rw [passed] at second
      simp only [forced, total_append, List.cons_append, total_cons, Option.some.injEq, if_true,
        Bool.false_eq_true, false_and, if_false] at first second third ⊢
      by_cases mine : who = self
      · subst mine
        simp only [if_true] at first third ⊢
        omega
      · simp only [mine, if_false] at first third ⊢
        omega
  | selfdestruct beneficiary =>
    cases h
    have := apply_add (t := ⟨who, beneficiary, balances who, true⟩) (Nat.le_refl _) self
    simpa [forced] using this

end CallTree
