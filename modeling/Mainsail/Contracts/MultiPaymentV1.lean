import Mainsail.Foundation.CallTree
import Mainsail.Contracts.ConsensusV1

/-!
# The multi-payment contract

`MultiPaymentV1.sol`. The contract is a program of the calls it makes: it pays the recipients one
after the other, and sends what could not be delivered back to its caller. The recipients and the
caller are any programs, which can call the contract again before it is done.

The gas that a recipient gets decides only whether its call fails, and any call may fail here.
-/

namespace Mainsail.MultiPaymentV1

open List Option CallTree

open CallTree (Transfer Effect)
open CallTree (exec exec_call received)

/-- The data of a call. -/
inductive Calldata
  /-- A plain transfer of ether. -/
  | empty
  | pay (recipients : List Address) (amounts : List Nat)
  /-- One of the functions that are not payable. -/
  | other
  deriving DecidableEq, Repr

abbrev Program := CallTree.Program Address Calldata

/-- The checked sum of the amounts. -/
def sumAmounts : List Nat → Nat → Option Nat
  | [], total => some total
  | amount :: amounts, total =>
    if total + amount < 2 ^ 256 then sumAmounts amounts (total + amount) else none

/-- What remains is sent to the caller, who has to take it. -/
def refund (sender : Address) (total : Nat) (refunded : Program) : Program :=
  if total > 0 then
    .call sender total .empty refunded fun success => if success then .stop else .revert
  else .stop

/-- The loop over the recipients, each with what its code does. -/
def payRecipients (sender : Address) (refunded : Program) :
    List ((Address × Nat) × Program) → Nat → Program
  | [], total => refund sender total refunded
  | ((recipient, amount), callee) :: payments, total =>
    .call recipient amount .empty callee fun sent =>
      if sent then
        if amount ≤ total then payRecipients sender refunded payments (total - amount)
        else .revert
      else payRecipients sender refunded payments total

/-- `pay`, where `callees` is what the code of the recipients does, and `refunded` what that of the
caller does. -/
def pay (sender : Address) (value : Nat) (recipients : List Address) (amounts : List Nat)
    (callees : List Program) (refunded : Program) : Program :=
  if recipients.length ≠ amounts.length then .revert
  else match sumAmounts amounts 0 with
    | none => .revert
    | some total =>
      if value ≠ total then .revert
      else if recipients.length = 0 then .stop
      else payRecipients sender refunded ((recipients.zip amounts).zip callees) total

/-- How the contract answers a call. It has no function that takes plain ether. -/
inductive Code (sender : Address) (value : Nat) : Calldata → Program → Prop
  | empty : Code sender value .empty .revert
  | pay {recipients : List Address} {amounts : List Nat} (callees : List Program)
      (refunded : Program) (all : callees.length = recipients.length) :
      Code sender value (.pay recipients amounts)
        (pay sender value recipients amounts callees refunded)
  | other (unpaid : value = 0) : Code sender value .other .stop
  | revert : Code sender value .other .revert

/-! ## The transfers of a call -/

/-- The payments that have been made. -/
def sentPayments (self : Address) (payments : List (Address × Nat)) (sent : List Bool) :
    List (Transfer Address) :=
  (payments.zip sent).filterMap fun x =>
    if x.2 then some ⟨self, some x.1.1, x.1.2, false⟩ else none

/-- The amounts that have not been delivered. -/
def unsent (payments : List (Address × Nat)) (sent : List Bool) : Nat :=
  ((payments.zip sent).map fun x => if x.2 then 0 else x.1.2).sum

/-- The amounts that have been delivered to one recipient. -/
def delivered (a : Address) (payments : List (Address × Nat)) (sent : List Bool) : Nat :=
  ((payments.zip sent).map fun x => if x.1.1 = a ∧ x.2 then x.1.2 else 0).sum

def refundTransfers (self sender : Address) (total : Nat) : List (Transfer Address) :=
  if total > 0 then [⟨self, some sender, total, false⟩] else []

section

variable {self sender : Address} {value total : Nat} {balances : Address → Nat}
variable {recipients : List Address} {amounts : List Nat} {callees : List Program}
variable {refunded p : Program} {e : Effect Address} {data : Calldata}

theorem sumAmounts_eq_some {result : Nat} (h : sumAmounts amounts total = some result) :
    result = total + amounts.sum := by
  induction amounts generalizing total with
  | nil => exact (some.inj h).symm
  | cons amount amounts ih =>
    rw [sumAmounts] at h
    split at h
    · rw [ih h, sum_cons]
      omega
    · cases h

theorem refund_own (h : exec (refund sender total refunded) self balances = some e) :
    e.own = refundTransfers self sender total := by
  unfold refund at h
  unfold refundTransfers
  split at h
  · next positive =>
      rw [if_pos positive]
      obtain ⟨-, after⟩ | ⟨called, rest, -, after, rfl⟩ := exec_call h
      · cases after
      · cases after
        rfl
  · next none =>
      cases h
      rw [if_neg none]

variable {payments : List ((Address × Nat) × Program)}

/-- The loop pays those recipients whose calls succeed, and then gives back what is left of the
total: what it held beyond the amounts of the loop, and the amounts not delivered. -/
theorem payRecipients_own (carry : Nat)
    (h : exec (payRecipients sender refunded payments total) self balances = some e)
    (enough : total = carry + ((payments.map Prod.fst).map Prod.snd).sum) :
    ∃ sent : List Bool, sent.length = payments.length ∧
      e.own = sentPayments self (payments.map Prod.fst) sent ++
        refundTransfers self sender (carry + unsent (payments.map Prod.fst) sent) := by
  induction payments generalizing total carry balances e with
  | nil =>
    refine ⟨[], rfl, ?_⟩
    rw [payRecipients, enough] at h
    exact refund_own h
  | cons payment payments ih =>
    obtain ⟨⟨recipient, amount⟩, callee⟩ := payment
    simp only [map_cons, sum_cons] at enough
    rw [payRecipients] at h
    obtain ⟨-, after⟩ | ⟨called, rest, -, after, rfl⟩ := exec_call h
    · rw [if_neg Bool.false_ne_true] at after
      obtain ⟨sent, length, own⟩ := ih (carry + amount) after (by omega)
      refine ⟨false :: sent, by simp [length], ?_⟩
      simp [own, sentPayments, unsent, Nat.add_assoc]
    · rw [if_pos rfl, if_pos (by omega)] at after
      obtain ⟨sent, length, own⟩ := ih carry after (by omega)
      refine ⟨true :: sent, by simp [length], ?_⟩
      simp [own, sentPayments, unsent]

/-- A call of `pay` that succeeds makes the payments that can be made, and gives back the rest. -/
theorem pay_own (all : callees.length = recipients.length)
    (h : exec (pay sender value recipients amounts callees refunded) self balances = some e) :
    ∃ sent : List Bool, sent.length = recipients.length ∧ recipients.length = amounts.length ∧
      amounts.sum = value ∧
      e.own = sentPayments self (recipients.zip amounts) sent ++
        refundTransfers self sender (unsent (recipients.zip amounts) sent) := by
  unfold pay at h
  split at h
  · cases h
  next matching =>
  split at h
  · cases h
  next total summed =>
  have sum := sumAmounts_eq_some summed
  split at h
  · cases h
  next right =>
  split at h
  · next none =>
      cases h
      obtain rfl := length_eq_zero_iff.mp none
      exact ⟨[], rfl, by omega, by omega, rfl⟩
  · have fsts : ((recipients.zip amounts).zip callees).map Prod.fst = recipients.zip amounts :=
      map_fst_zip (by simp; omega)
    have snds : (recipients.zip amounts).map Prod.snd = amounts := map_snd_zip (by omega)
    obtain ⟨sent, length, own⟩ := payRecipients_own 0 h (by rw [fsts, snds, sum])
    rw [fsts, Nat.zero_add] at own
    exact ⟨sent, by simp at length; omega, by omega, by omega, own⟩

theorem total_sentPayments {payments : List (Address × Nat)} {sent : List Bool}
    (length : sent.length = payments.length) :
    CallTree.total (fun _ => True) (sentPayments self payments sent) + unsent payments sent =
      (payments.map Prod.snd).sum := by
  induction payments generalizing sent with
  | nil => simp [sentPayments, unsent]
  | cons payment payments ih =>
    obtain _ | ⟨success, sent⟩ := sent
    · cases length
    · have := ih (Nat.succ.inj length)
      unfold sentPayments unsent at this ⊢
      cases success <;> simp <;> omega

theorem received_sentPayments (a : Address) (payments : List (Address × Nat)) (sent : List Bool) :
    received a (sentPayments self payments sent) = delivered a payments sent := by
  induction payments generalizing sent with
  | nil => rfl
  | cons payment payments ih =>
    obtain _ | ⟨success, sent⟩ := sent
    · rfl
    · have := ih sent
      unfold received sentPayments delivered at this ⊢
      cases success <;> simp [this]

theorem total_refundTransfers (self sender : Address) (total : Nat) :
    CallTree.total (fun _ => True) (refundTransfers self sender total) = total := by
  unfold refundTransfers
  split
  · simp
  · simp
    omega

theorem received_refundTransfers (a self sender : Address) (total : Nat) :
    received a (refundTransfers self sender total) = if a = sender then total else 0 := by
  unfold received refundTransfers
  split
  · simp [eq_comm]
  · simp
    omega

/-- Whatever the contract is called with, it gives away again. -/
theorem passesOn (self : Address) : CallTree.PassesOn self Code := by
  intro sender value data p balances e answered h
  cases answered with
  | empty | revert => cases h
  | pay callees refunded all =>
    obtain ⟨sent, length, matching, sum, own⟩ := pay_own all h
    rw [own, total_append, total_refundTransfers, total_sentPayments (by simp; omega),
      map_snd_zip (by omega), sum]
  | other unpaid =>
    cases h
    exact unpaid.symm

section

variable (outside : sender ≠ self)
include outside

/-- No plain ether reaches the contract, and it destructs nothing. -/
theorem payRecipients_target
    (h : exec (payRecipients sender refunded payments total) self balances = some e)
    (calls : (payRecipients sender refunded payments total).Calls self Code self) :
    ∀ t ∈ e.own, t.target ≠ some self ∧ t.forced = false := by
  induction payments generalizing total balances e with
  | nil =>
    rw [payRecipients] at h
    rw [refund_own h, refundTransfers]
    split <;> simp [outside]
  | cons payment payments ih =>
    obtain ⟨⟨recipient, amount⟩, callee⟩ := payment
    rw [payRecipients] at h calls
    obtain ⟨answered, -, afterwards⟩ := calls
    obtain ⟨-, after⟩ | ⟨called, rest, invoked, after, rfl⟩ := exec_call h
    · have next := afterwards false
      simp only [Bool.false_eq_true, if_false] at after next
      exact ih after next
    · have next := afterwards true
      simp only [if_true] at after next
      have other : recipient ≠ self := by
        intro same
        cases answered same
        cases (invoke_eq_some.mp invoked).2
      split at after
      · next enough =>
          rw [if_pos enough] at next
          exact forall_mem_cons.mpr ⟨by simp [other], ih after next⟩
      · cases after

theorem pay_target
    (h : exec (pay sender value recipients amounts callees refunded) self balances = some e)
    (calls : (pay sender value recipients amounts callees refunded).Calls self Code self) :
    ∀ t ∈ e.own, t.target ≠ some self ∧ t.forced = false := by
  unfold pay at h calls
  split at h
  · cases h
  next matching =>
  rw [if_neg matching] at calls
  split at h
  · cases h
  next total summed =>
  simp only [summed] at calls
  split at h
  · cases h
  next right =>
  rw [if_neg right] at calls
  split at h
  · cases h
    simp
  · next some =>
      rw [if_neg some] at calls
      exact payRecipients_target outside h calls

/-- Within a call of `pay`, the contract is called as the recipients and the caller call it. Its
own transfers to itself are refused. -/
theorem calls_pay (sender_calls : refunded.Calls self Code sender)
    (recipient_calls : ∀ x ∈ (recipients.zip amounts).zip callees,
      x.2.Calls self Code x.1.1 ∧ (x.1.1 = self → x.2 = .revert)) :
    (pay sender value recipients amounts callees refunded).Calls self Code self := by
  have loop : ∀ payments : List ((Address × Nat) × Program),
      (∀ x ∈ payments, x.2.Calls self Code x.1.1 ∧ (x.1.1 = self → x.2 = .revert)) →
      ∀ total, (payRecipients sender refunded payments total).Calls self Code self := by
    intro payments
    induction payments with
    | nil =>
      intro _ total
      rw [payRecipients, refund]
      split
      · refine ⟨fun same => absurd same outside, sender_calls, ?_⟩
        intro success
        cases success <;> trivial
      · trivial
    | cons payment payments ih =>
      intro all total
      obtain ⟨⟨recipient, amount⟩, callee⟩ := payment
      obtain ⟨⟨within, refused⟩, tail⟩ := forall_mem_cons.mp all
      rw [payRecipients]
      refine ⟨?_, within, ?_⟩
      · intro same
        obtain rfl : callee = .revert := refused same
        exact .empty
      intro success
      dsimp only
      split
      · split
        · exact ih tail _
        · trivial
      · exact ih tail _
  unfold pay
  split
  · trivial
  split
  · trivial
  split
  · trivial
  split
  · trivial
  · exact loop _ recipient_calls _

end

/-- A call of `pay` reverts and changes nothing, or delivers some of the amounts and gives back
the others. The balance of the contract grows by what is forced on it meanwhile, and each other
account has what it is given here besides what the accounts transfer themselves. -/
theorem pay_conserves (answered : Code sender value (.pay recipients amounts) p)
    (calls : p.Calls self Code self) (outside : sender ≠ self) (balances : Address → Nat) :
    settle balances (invoke p sender self value balances) = balances ∨
      ∃ e, invoke p sender self value balances = some e ∧
        e.balances self = balances self + forced self e.inner ∧
        ∃ sent : List Bool, sent.length = recipients.length ∧
          recipients.length = amounts.length ∧ amounts.sum = value ∧
          e.own = sentPayments self (recipients.zip amounts) sent ++
            refundTransfers self sender (unsent (recipients.zip amounts) sent) ∧
          delivered self (recipients.zip amounts) sent = 0 ∧
          ∀ a, a ≠ self →
            e.balances a + spent a e.inner + (if a = sender then value else 0) =
              balances a + received a e.inner +
                delivered a (recipients.zip amounts) sent +
                if a = sender then unsent (recipients.zip amounts) sent else 0 := by
  cases invoked : invoke p sender self value balances with
  | none => exact .inl rfl
  | some e =>
    refine .inr ⟨e, rfl, ?_⟩
    obtain ⟨enough, executed⟩ := invoke_eq_some.mp invoked
    have entered := CallTree.Transfer.apply_add
      (t := ⟨sender, some self, value, false⟩) enough
    have kept := exec_self (passesOn self) calls executed
    have passed := passesOn self answered executed
    have moved := exec_balances executed
    have source := exec_own_source executed
    cases answered with
    | pay callees refunded all =>
      have target := pay_target outside executed calls
      obtain ⟨sent, length, matching, sum, own⟩ := pay_own all executed
      have received : ∀ a, received a e.own =
          delivered a (recipients.zip amounts) sent +
            if a = sender then unsent (recipients.zip amounts) sent else 0 := by
        intro a
        rw [own, received_append, received_sentPayments, received_refundTransfers]
      have unforced : forced self e.own = 0 :=
        total_eq_zero fun t member => by simp [target t member]
      refine ⟨?_, sent, length, matching, sum, own, ?_, ?_⟩
      · have := entered self
        simp only [if_true, forced_append, outside, if_false] at kept this
        omega
      · have none : CallTree.received self e.own = 0 :=
          CallTree.total_eq_zero fun t member => (target t member).1
        have := received self
        omega
      · intro a other
        have unspent : spent a e.own = 0 :=
          total_eq_zero fun t member => by
            rw [source t member]
            exact other.symm
        have first := entered a
        have second := moved a
        have third := received a
        simp only [spent_append, received_append, some.injEq,
          other.symm, if_false, eq_comm (a := sender)] at first second
        omega

end

namespace Sample

/-- The fourth recipient refuses ether, and the fifth calls `pay` itself. -/
def payment : Program :=
  pay 3 7 [2, 2, 1, 4, 5] [1, 2, 1, 1, 2] [.stop, .stop, .revert, .revert,
      .call 1 1 (.pay [2] [1]) (pay 5 1 [2] [1] [.stop] .stop) fun _ => .stop] .stop

def balances (a : Address) : Nat := if a = 3 then 9 else 0

end Sample

open Sample

/-- One recipient is paid twice, the contract is among the recipients, one of them refuses the
ether and one calls `pay` again. -/
theorem pay_conserves_sample :
    ∃ e, invoke payment 3 1 7 balances = some e ∧
      e.balances 1 = balances 1 + forced 1 e.inner ∧
      [1, 2, 3, 4, 5].map e.balances = [0, 4, 4, 0, 1] := by
  have found : (invoke payment 3 1 7 balances).map
      (fun e => [1, 2, 3, 4, 5].map e.balances) = some [0, 4, 4, 0, 1] := by
    decide +kernel
  have calls : payment.Calls 1 Code 1 := by
    refine calls_pay (by decide) trivial ?_
    have again : (pay 5 1 [2] [1] [.stop] .stop).Calls 1 Code 1 :=
      calls_pay (by decide) trivial (by simp [CallTree.Program.Calls])
    simpa [CallTree.Program.Calls, again] using .pay _ _ rfl
  obtain ⟨e, invoked, observed⟩ := map_eq_some_iff.mp found
  refine ⟨e, invoked, ?_, observed⟩
  have answered : Code 3 7 (.pay [2, 2, 1, 4, 5] [1, 2, 1, 1, 2]) payment := .pay _ _ rfl
  obtain unchanged | ⟨e', invoked', own, -⟩ :=
    pay_conserves answered calls (by decide) balances
  · rw [invoked] at unchanged
    simp only [map_cons, cons.injEq] at observed
    have second : e.balances 2 = 4 := observed.2.1
    exact absurd (second.symm.trans (congrFun unchanged 2)) (by decide)
  · obtain rfl := some.inj (invoked.symm.trans invoked')
    exact own

/-- A recipient that destructs itself in favour of the contract leaves it with the ether. -/
theorem pay_forced_ether : ∃ p, Code 3 1 (.pay [2] [1]) p ∧ p.Calls 1 Code 1 ∧
      ∃ e, invoke p 3 1 1 balances = some e ∧ e.balances 1 ≠ balances 1 := by
  let p := pay 3 1 [2] [1] [.selfdestruct (some 1)] .stop
  have found : (invoke p 3 1 1 balances).map (fun e => e.balances 1) = some 1 := by
    decide +kernel
  obtain ⟨e, invoked, observed⟩ := map_eq_some_iff.mp found
  refine ⟨p, .pay _ _ rfl, ?_, e, invoked, by rw [observed]; decide⟩
  exact calls_pay (by decide) trivial (by simp [CallTree.Program.Calls])

end Mainsail.MultiPaymentV1
