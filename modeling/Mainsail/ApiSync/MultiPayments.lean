import Mainsail.Contracts.MultiPaymentV1
import Mainsail.Evm.Data

/-!
# Multi-payments of a receipt

`multi-payment.ts` of the sync, which reads the payments of a transaction off the logs of its
receipt, and `pay` of `MultiPaymentV1.sol` as far as logs go. What the recipients and the sender do
when they are called is unknown: their calls succeed or fail, and those that succeed leave logs of
any accounts between those of the contract.
-/

namespace Mainsail.MultiPayments

open List

open Evm (Word)
open Option

/-- A log, with its topics and its data as one. -/
structure Log (ε : Type) where
  address : Address
  event : ε
  deriving DecidableEq

structure Payment where
  recipient : Address
  amount : Word
  success : Bool
  deriving DecidableEq

/-- The topics and the data of `Payment`, and how `parseEventLogs` finds them. It skips what does
not decode, and does not look at the address. -/
structure PaymentAbi (ε : Type) where
  encode : Payment → ε
  decode : ε → Option Payment
  decode_encode : ∀ payment, decode (encode payment) = some payment

/-- The machine around the contract. Its state holds the gas that is left. -/
structure Machine (ω ε : Type) where
  /-- A call with ether, and with a limit for its gas or without, and the logs within it if it
  succeeds. -/
  call : ω → Address → Word → Option Nat → ω × Option (List (Log ε))
  /-- There may be too little gas. -/
  emit : ω → Log ε → Option ω

/-! ## The payments of a call -/

/-- What a call of `pay` has done. -/
structure Outcome (ω ε : Type) where
  state : ω
  /-- What remains of the total. -/
  total : Nat
  logs : List (Log ε) := []
  payments : List Payment := []
  /-- The logs of the accounts that have been called. -/
  nested : List (Log ε) := []

variable {ω ε : Type} (abi : PaymentAbi ε) (machine : Machine ω ε) (self : Address)

def payRecipients : ω → List (Address × Word) → Nat → Option (Outcome ω ε)
  | state, [], total => some { state, total }
  | state, (recipient, amount) :: rest, total => do
    let (state, inner) := machine.call state recipient amount (some 5000)
    if inner.isSome ∧ total < amount then none
    else
      let payment : Payment := { recipient, amount, success := inner.isSome }
      let log : Log ε := { address := self, event := abi.encode payment }
      let state ← machine.emit state log
      let after ← payRecipients state rest (if inner.isSome then total - amount else total)
      some { after with
        logs := inner.getD [] ++ log :: after.logs
        payments := payment :: after.payments
        nested := inner.getD [] ++ after.nested }

/-- A call of `pay` by `sender`, unless it reverts. -/
def pay (state : ω) (sender : Address) (value : Nat) (recipients : List Address)
    (amounts : List Word) : Option (Outcome ω ε) :=
  if recipients.length ≠ amounts.length then none
  else do
    let total ← MultiPaymentV1.sumAmounts (amounts.map Fin.val) 0
    if value ≠ total then none
    else if recipients.length = 0 then some { state, total }
    else
      let paid ← payRecipients abi machine self state (recipients.zip amounts) total
      if paid.total > 0 then
        let (state, inner) := machine.call paid.state sender (Fin.ofNat _ paid.total) none
        inner.map fun logs =>
          { paid with state, logs := paid.logs ++ logs, nested := paid.nested ++ logs }
      else some paid

/-! ## The rows of the index -/

structure Transaction where
  hash : Nat
  recipient : Option Address

structure MultiPayment where
  amount : String
  hash : Nat
  logIndex : Nat
  success : Bool
  recipient : Address
  deriving DecidableEq

/-- The rows for a list of payments. -/
def rows (hash : Nat) (payments : List Payment) : List MultiPayment :=
  payments.mapIdx fun logIndex payment =>
    { amount := toString payment.amount.val, hash, logIndex, success := payment.success,
      recipient := payment.recipient }

/-- The last argument is the logs of the receipt. -/
def parseMultiPayments (multiPaymentContractAddress : Address) (transaction : Transaction)
    (logs : Option (List (Log ε))) : List MultiPayment :=
  if transaction.recipient ≠ some multiPaymentContractAddress then []
  else rows transaction.hash ((logs.getD []).filterMap (abi.decode ·.event))

/-! ## What the logs hold -/

variable {abi machine self} {outcome : Outcome ω ε} {inner : List (Log ε)} {payment : Payment}

/-- The payments found in the logs are those of the call, and then those that the accounts within
have put there. -/
structure Interleaved (abi : PaymentAbi ε) (outcome : Outcome ω ε) : Prop where
  length : (outcome.logs.filterMap (abi.decode ·.event)).length =
    outcome.payments.length + (outcome.nested.filterMap (abi.decode ·.event)).length
  exact : outcome.nested.filterMap (abi.decode ·.event) = [] →
    outcome.logs.filterMap (abi.decode ·.event) = outcome.payments

theorem Interleaved.payRecipients {state : ω} {payments : List (Address × Word)} {total : Nat}
    (paid : payRecipients abi machine self state payments total = some outcome) :
    Interleaved abi outcome := by
  induction payments generalizing state total outcome with
  | nil =>
    obtain rfl := some.inj paid
    exact ⟨rfl, fun _ => rfl⟩
  | cons payment rest ih =>
    simp only [MultiPayments.payRecipients] at paid
    split at paid
    · cases paid
    · simp only [bind_eq_bind, bind_eq_some_iff, some.injEq] at paid
      obtain ⟨state, -, after, looped, rfl⟩ := paid
      have before := ih looped
      constructor
      · simp only [filterMap_append, filterMap_cons, abi.decode_encode,
          length_append, length_cons, before.length]
        omega
      · intro silent
        simp only [filterMap_append, append_eq_nil_iff] at silent
        simp only [filterMap_append, filterMap_cons, abi.decode_encode, silent.1,
          before.exact silent.2, nil_append]

theorem Interleaved.pay {state : ω} {sender : Address} {value : Nat} {recipients : List Address}
    {amounts : List Word}
    (paid : pay abi machine self state sender value recipients amounts = some outcome) :
    Interleaved abi outcome := by
  unfold MultiPayments.pay at paid
  split at paid
  · cases paid
  simp only [bind_eq_bind, bind_eq_some_iff] at paid
  obtain ⟨total, -, paid⟩ := paid
  split at paid
  · cases paid
  split at paid
  · obtain rfl := some.inj paid
    exact ⟨rfl, fun _ => rfl⟩
  obtain ⟨before, looped, paid⟩ := bind_eq_some_iff.mp paid
  have loop := Interleaved.payRecipients looped
  split at paid
  · obtain ⟨logs, -, rfl⟩ := map_eq_some_iff.mp paid
    constructor
    · simp only [filterMap_append, length_append, loop.length]
      omega
    · intro silent
      simp only [filterMap_append, append_eq_nil_iff] at silent
      simp only [filterMap_append, silent.2, loop.exact silent.1, append_nil]
  · obtain rfl := some.inj paid
    exact loop

/-- The rows are those of the call if and only if no account called within it has emitted
something that decodes as a payment. -/
theorem parseMultiPayments_iff_silent (abi : PaymentAbi ε) (machine : Machine ω ε)
    (self sender : Address) (state : ω) (value hash : Nat) (recipients : List Address)
    (amounts : List Word) :
    let outcome := pay abi machine self state sender value recipients amounts
    parseMultiPayments abi self ⟨hash, some self⟩ (outcome.map (·.logs)) =
        rows hash ((outcome.map (·.payments)).getD []) ↔
      ∀ log ∈ (outcome.map (·.nested)).getD [], abi.decode log.event = none := by
  intro outcome
  rw [parseMultiPayments, if_neg (not_not.mpr rfl), ← filterMap_eq_nil_iff]
  cases paid : outcome with
  | none => exact iff_of_true rfl rfl
  | some done =>
    have logged := Interleaved.pay paid
    constructor
    · intro same
      have lengths := congrArg length same
      simp only [rows, length_mapIdx, map_some, getD_some, logged.length] at lengths
      exact eq_nil_of_length_eq_zero (Nat.left_eq_add.mp lengths.symm)
    · intro silent
      rw [map_some, getD_some, logged.exact silent]
      rfl

namespace Sample

def plain : PaymentAbi (Option Payment) := ⟨some, id, fun _ => rfl⟩

/-- Every account that is called claims a payment of its own. -/
def forging : Machine Unit (Option Payment) where
  call _ target _ _ := ((), some [⟨target, some ⟨9, 1000, true⟩⟩])
  emit _ _ := some ()

end Sample

/-- A recipient adds a payment that was never made. -/
theorem parseMultiPayments_forged :
    (pay Sample.plain Sample.forging 1 () 2 5 [3] [5]).map (·.payments) = some [⟨3, 5, true⟩] ∧
      parseMultiPayments Sample.plain 1 ⟨0, some 1⟩
          ((pay Sample.plain Sample.forging 1 () 2 5 [3] [5]).map (·.logs)) =
        rows 0 [⟨9, 1000, true⟩, ⟨3, 5, true⟩] := by
  decide +kernel

end Mainsail.MultiPayments
