import Mainsail.Foundation.LinkedList
import Mainsail.Contracts.Execution

/-!
# The list of the voters

Voters are the addresses with a validator other than zero. The list that the contract keeps in
the records of the voters visits each of them once, in both directions.

The contract takes a zero validator for no vote, but the owner can register the zero address as
a validator and add votes for it. Such a voter can be linked a second time.
-/

namespace Mainsail.ConsensusV1

open LinkedList State List

variable {precompiles : Precompiles} {owner : Address} {registrationFee : Fin (2 ^ 128)}
variable {x : Execution} {s s' : State} {m : Message} {l : List Address}

/-- All voters to be added are addresses of accounts. -/
def Message.NonzeroVoters (m : Message) : Prop :=
  ∀ voters validators, m.call = .addVotes voters validators → 0 ∉ voters

/-- The owner does not register the zero address. -/
def Message.NonzeroValidator (m : Message) : Prop :=
  ∀ isResigned, m.call ≠ .addValidator 0 isResigned

/-- Only the owner can register the zero address. -/
theorem Change.hasValidator_zero (change : Change precompiles m s s') (nonzero : m.NonzeroValidator)
    (h : s.hasValidator 0 = false) : s'.hasValidator 0 = false := by
  cases change with
  | owner | fee | resignValidator | calculateRoundValidators => exact h
  | @addValidator addr isResigned call =>
    have other : 0 ≠ addr := by
      rintro rfl
      exact nonzero isResigned call
    exact (Function.update_of_ne other ..).trans h
  | registerValidator => exact (Function.update_of_ne m.sender_ne_zero.symm ..).trans h
  | updateValidator => split <;> exact h
  | votes change => rwa [(SameRegistry.of_votes change).hasValidator]

namespace State

def next (s : State) (a : Address) : Address := (s.voters a).next

def prev (s : State) (a : Address) : Address := (s.voters a).prev

/-- The links, followed in either direction, visit the list. -/
def Linked (s : State) (l : List Address) : Prop :=
  Doubly s.next s.prev 0 s.votersHead s.votersTail l

/-- The list is the voters, in the order of the links. -/
structure Voters (s : State) (l : List Address) : Prop where
  links : s.Linked l
  mem : ∀ a, a ∈ l ↔ (s.voters a).validator ≠ 0
  length : l.length = s.votersCount

/-! ## Links -/

theorem setNext_next (addr next a : Address) :
    (s.setNext addr next).next a = if a = addr then next else s.next a := by
  by_cases h : a = addr
  · subst h
    simp [State.next, setNext]
  · simp [State.next, setNext, setVote_voters_of_ne h, h]

theorem setNext_prev (addr next a : Address) : (s.setNext addr next).prev a = s.prev a := by
  by_cases h : a = addr
  · subst h
    simp [prev, setNext]
  · simp [prev, setNext, setVote_voters_of_ne h]

theorem setPrev_prev (addr prev a : Address) :
    (s.setPrev addr prev).prev a = if a = addr then prev else s.prev a := by
  by_cases h : a = addr
  · subst h
    simp [State.prev, setPrev]
  · simp [State.prev, setPrev, setVote_voters_of_ne h, h]

theorem setPrev_next (addr prev a : Address) : (s.setPrev addr prev).next a = s.next a := by
  by_cases h : a = addr
  · subst h
    simp [next, setPrev]
  · simp [next, setPrev, setVote_voters_of_ne h]

variable {addr a : Address}

theorem setVote_next_of_ne (h : a ≠ addr) (vote : Vote) :
    (s.setVote addr vote).next a = s.next a := by
  simp [next, setVote_voters_of_ne h]

theorem setVote_prev_of_ne (h : a ≠ addr) (vote : Vote) :
    (s.setVote addr vote).prev a = s.prev a := by
  simp [prev, setVote_voters_of_ne h]

theorem validator_eq_of_content (h : s'.content = s.content) (a : Address) :
    (s'.voters a).validator = (s.voters a).validator :=
  congrArg Prod.fst (congrFun h a)

end State

/-! ## Changes of the list -/

namespace State.Linked

variable {voter sender p t : Address} {before after : List Address}

/-- A new voter comes last. -/
theorem linkVoter (h : s.Linked l) {vote : Vote} (new : voter ∉ l)
    (node : voter ≠ 0) (next : vote.next = 0) (prev : vote.prev = 0) :
    ((s.setVote voter vote).linkVoter voter).Linked (l ++ [voter]) := by
  have others : ∀ a ∈ l, a ≠ voter := by
    rintro a member rfl
    exact new member
  unfold State.linkVoter
  by_cases empty : s.votersHead = 0
  · obtain rfl := h.head_eq_nil.mp empty
    simp only [setVote, empty, if_true]
    exact .single node (by simpa [State.next] using next) (by simpa [State.prev] using prev)
  · have head : (s.setVote voter vote).votersHead ≠ 0 := empty
    have tail : (s.setVote voter vote).votersTail = s.votersTail := rfl
    have last : s.votersTail ∈ l := h.tail_mem (x := []) (mt h.head_eq_nil.mpr empty)
    simp only [head, if_false]
    refine h.push empty node ?sameNext ?last ?new ?samePrev ?back
    case sameNext =>
      intro a member notLast
      change (setPrev (setNext ..) ..).next a = _
      rw [setPrev_next, setNext_next, tail, if_neg notLast, setVote_next_of_ne (others a member)]
    case last =>
      change (setPrev (setNext ..) ..).next _ = _
      rw [setPrev_next, setNext_next]
      exact if_pos rfl
    case new =>
      change (setPrev (setNext ..) ..).next _ = _
      rw [setPrev_next, setNext_next, tail, if_neg (others _ last).symm]
      simpa [State.next] using next
    case samePrev =>
      intro a member
      change (setPrev (setNext ..) ..).prev a = _
      rw [setPrev_prev, if_neg (others a member), setNext_prev,
        setVote_prev_of_ne (others a member)]
    case back =>
      change (setPrev (setNext ..) ..).prev _ = _
      rw [setPrev_prev]
      exact if_pos rfl

/-- The four branches of `_unvote` are the four places a voter can have in the list. -/
theorem unlink_only (h : s.Linked [sender]) : (s.unlinkVoter sender).Linked [] := by
  have head : s.votersHead = sender := h.forward.1
  have tail : s.votersTail = sender := h.tail_eq (x := [])
  simp only [unlinkVoter, head, tail, if_true]
  exact .empty

theorem unlink_last
    (h : s.Linked (before ++ [p, sender])) : (s.unlinkVoter sender).Linked (before ++ [p]) := by
  have links : s.Linked ((before ++ [p]) ++ [sender]) := by simpa using h
  have tail : s.votersTail = sender := links.tail_eq
  have prev : (s.voters sender).prev = p := h.prev_eq
  obtain ⟨distinct, -, apart⟩ := nodup_append.mp links.forward.nodup
  have head : s.votersHead ≠ sender :=
    apart _ (links.head_mem (by simp)) _ (mem_singleton_self _)
  simp only [unlinkVoter, head, tail, if_false, if_true, prev]
  refine LinkedList.Doubly.unlink_last h ?_ ?_ ?_
  · intro a member
    refine (setNext_next ..).trans (if_neg ?_)
    exact (nodup_append.mp distinct).2.2 a member p (mem_singleton_self p)
  · exact (setNext_next ..).trans (if_pos rfl)
  · intro a _
    exact setNext_prev ..

theorem unlink_first
    (h : s.Linked (sender :: t :: after)) : (s.unlinkVoter sender).Linked (t :: after) := by
  have head : s.votersHead = sender := h.forward.1
  have next : (s.voters sender).next = t := h.forward.next_eq (x := [])
  obtain ⟨first, distinct⟩ := nodup_cons.mp h.forward.nodup
  have tail : s.votersTail ≠ sender := by
    intro same
    exact first (same ▸ h.tail_mem (x := [sender]) (by simp))
  simp only [unlinkVoter, head, tail, tail.symm, if_false, if_true, next]
  refine LinkedList.Doubly.unlink_first h ?_ ?_ ?_
  · intro a _
    exact setPrev_next ..
  · exact (setPrev_prev ..).trans (if_pos rfl)
  · intro a member
    refine (setPrev_prev ..).trans (if_neg ?_)
    rintro rfl
    exact (nodup_cons.mp distinct).1 member

theorem unlink_between (h : s.Linked (before ++ p :: sender :: t :: after)) :
    (s.unlinkVoter sender).Linked (before ++ p :: t :: after) := by
  have links : s.Linked ((before ++ [p]) ++ sender :: t :: after) := by simpa using h
  have prev : (s.voters sender).prev = p := h.prev_eq
  have next : (s.voters sender).next = t := links.forward.next_eq
  obtain ⟨distinct, rest, apart⟩ := nodup_append.mp links.forward.nodup
  have head : s.votersHead ∈ before ++ [p] := links.head_mem (by simp)
  have ends : s.Linked ((before ++ [p, sender]) ++ t :: after) := by simpa using h
  have tail : s.votersTail ∈ t :: after := ends.tail_mem (by simp)
  have headNeSender := apart _ head sender (mem_cons_self ..)
  have headNeTail := apart _ head _ (mem_cons_of_mem _ tail)
  have tailNeSender : s.votersTail ≠ sender := by
    intro same
    exact (nodup_cons.mp rest).1 (same ▸ tail)
  have pNeSender : sender ≠ p := (apart p (by simp) sender (mem_cons_self ..)).symm
  have kept : (s.setNext p t).voters sender = s.voters sender := setVote_voters_of_ne pNeSender _
  simp only [unlinkVoter, headNeTail, tailNeSender, headNeSender, if_false, prev, next, kept]
  refine LinkedList.Doubly.unlink h ?sameNext ?skipNext ?samePrev ?skipPrev
  case sameNext =>
    intro a member
    rw [setPrev_next, setNext_next, if_neg]
    rintro rfl
    obtain early | late := mem_append.mp member
    · exact (nodup_append.mp distinct).2.2 a early a (mem_singleton_self a) rfl
    · exact apart a (by simp) a (mem_cons_of_mem _ late) rfl
  case skipNext =>
    rw [setPrev_next, setNext_next, if_pos rfl]
    exact next.symm
  case samePrev =>
    intro a member
    rw [setPrev_prev, setNext_prev, if_neg]
    rintro rfl
    have late : a ∉ after := (nodup_cons.mp (nodup_cons.mp rest).2).1
    have early : a ∉ before ++ [p] := fun member => apart a member a (by simp) rfl
    simp only [mem_append, mem_cons, not_mem_nil, or_false] at member early
    tauto
  case skipPrev =>
    rw [setPrev_prev, if_pos rfl]
    exact prev.symm

theorem unlinkVoter (h : s.Linked (before ++ sender :: after)) :
    (s.unlinkVoter sender).Linked (before ++ after) := by
  obtain rfl | ⟨before, p, rfl⟩ := before.eq_nil_or_concat
  · cases after with
    | nil => exact h.unlink_only
    | cons t after => exact h.unlink_first
  · simp only [concat_eq_append, append_assoc, singleton_append] at h ⊢
    cases after with
    | nil => exact h.unlink_last
    | cons t after => exact h.unlink_between

end State.Linked

namespace State.Voters

variable (h : s.Voters l)
include h

theorem congr (next : ∀ a, s'.next a = s.next a) (prev : ∀ a, s'.prev a = s.prev a)
    (validator : ∀ a, (s'.voters a).validator = (s.voters a).validator)
    (head : s'.votersHead = s.votersHead) (tail : s'.votersTail = s.votersTail)
    (count : s'.votersCount = s.votersCount) : s'.Voters l := by
  refine ⟨?_, fun a => by rw [h.mem, validator], by rw [h.length, count]⟩
  unfold Linked
  rw [funext next, funext prev, head, tail]
  exact h.links

theorem of_sameVotes (same : SameVotes s s') : s'.Voters l := by
  have voters : ∀ a, s'.voters a = s.voters a := congrFun same.voters
  exact h.congr (fun a => by simp [next, voters]) (fun a => by simp [prev, voters])
    (fun a => by rw [voters]) same.votersHead same.votersTail same.votersCount

theorem voted {voter validator : Address} {balance : Nat} (node : voter ≠ 0)
    (registered : validator ≠ 0) (new : (s.voters voter).validator = 0) :
    (s.voted voter validator balance).Voters (l ++ [voter]) := by
  have absent : voter ∉ l := fun member => (h.mem voter).mp member new
  refine ⟨h.links.linkVoter absent node rfl rfl, ?_, ?_⟩
  · intro a
    have content : (s.voted voter validator balance).content =
        (s.setVote voter { validator, balance }).content :=
      (content_of_voters_eq rfl).trans (content_linkVoter voter)
    rw [validator_eq_of_content content, mem_append, mem_singleton]
    by_cases same : a = voter
    · subst same
      simp [registered]
    · simp [same, setVote_voters_of_ne same, h.mem]
  · simp [State.voted, h.length]

theorem unvoted {sender : Address} (voter : (s.voters sender).validator ≠ 0) :
    (s.unvoted sender).Voters (l.erase sender) := by
  have member := (h.mem sender).mpr voter
  have distinct := h.links.forward.nodup
  have others : ∀ a ∈ l.erase sender, a ≠ sender := by
    rintro a rest rfl
    exact distinct.not_mem_erase rest
  refine ⟨?links, ?mem, ?length⟩
  case links =>
    obtain ⟨before, after, split⟩ := append_of_mem member
    have unlinked : (s.unlinkVoter sender).Linked (l.erase sender) := by
      subst split
      rw [erase_append_right _ fun early => (nodup_append.mp distinct).2.2 sender early
        sender (mem_cons_self ..) rfl, erase_cons_head]
      exact h.links.unlinkVoter
    constructor
    · exact unlinked.forward.congr fun a rest => setVote_next_of_ne (others a rest) _
    · exact unlinked.backward.congr fun a rest =>
        setVote_prev_of_ne (others a (mem_reverse.mp rest)) _
  case mem =>
    intro a
    rw [distinct.mem_erase_iff, h.mem]
    by_cases same : a = sender
    · subst same
      simp
    · have kept : ((s.unvoted sender).voters a).validator = (s.voters a).validator := by
        change (((s.unlinkVoter sender).setVote sender {}).voters a).validator = _
        rw [setVote_voters_of_ne same]
        exact validator_eq_of_content (content_unlinkVoter sender) a
      simp [same, kept]
  case length =>
    rw [length_erase_of_mem member, h.length]
    rfl

theorem updated (balances : Address → Nat) (addr : Address) :
    (s.updated balances addr).Voters l := by
  have voters : ∀ a, (s.updated balances addr).voters a =
      { s.voters a with balance := ((s.updated balances addr).voters a).balance } := by
    intro a
    by_cases same : a = addr
    · subst same
      simp [State.updated]
    · simp [State.updated, same]
  refine h.congr ?_ ?_ ?_ rfl rfl rfl
  · intro a
    rw [next, voters]
    rfl
  · intro a
    rw [prev, voters]
    rfl
  · intro a
    rw [voters]

end State.Voters

/-! ## Executions -/

/-- No vote is for the zero address. -/
structure State.HasVoters (s : State) : Prop where
  zero : s.hasValidator 0 = false
  voters : ∃ l, s.Voters l

theorem State.HasVoters.votes (h : s.HasVoters) (nonzero : m.NonzeroVoters)
    (change : VoteChange m s s') : ∃ l, s'.Voters l := by
  obtain ⟨l, voters⟩ := h.voters
  cases change with
  | @recordVote voter _ voter_mem new registered =>
    have node : voter ≠ 0 := by
      obtain rfl | ⟨_, _, call, member⟩ := voter_mem
      · exact m.sender_ne_zero
      · rintro rfl
        exact nonzero _ _ call member
    exact ⟨_, voters.voted node (ne_of_registered registered h.zero) new⟩
  | unvote voter => exact ⟨_, voters.unvoted voter⟩
  | updateVoter => exact ⟨l, voters.updated m.balances _⟩

theorem Reachable.hasVoters (h : Reachable precompiles
      (fun m => m.NonzeroVoters ∧ m.NonzeroValidator) owner registrationFee x) :
    x.state.HasVoters := by
  refine h.keeps (P := HasVoters) ⟨rfl, [], .empty, by simp [initial], rfl⟩ ?_
  intro m s s' sent change holds
  refine ⟨change.hasValidator_zero sent.2 holds.zero, ?_⟩
  obtain same | votes := change.sameVotes_or_votes
  · obtain ⟨l, voters⟩ := holds.voters
    exact ⟨l, voters.of_sameVotes same⟩
  · exact holds.votes sent.1 votes

/-- Following the links visits each voter once, and their number is the count. -/
theorem voters_linked (h : Reachable precompiles
      (fun m => m.NonzeroVoters ∧ m.NonzeroValidator) owner registrationFee x) :
    ∃ l, Visits x.state.next 0 x.state.votersHead l ∧
      Visits x.state.prev 0 x.state.votersTail l.reverse ∧
      l.Nodup ∧ (∀ a, a ∈ l ↔ (x.state.voters a).validator ≠ 0) ∧
      (x.state.votersHead = 0 ↔ l = []) ∧ (x.state.votersTail = 0 ↔ l = []) ∧
      (l ≠ [] → l.getLast? = some x.state.votersTail) ∧
      (∀ a ∈ l, ∀ b ∈ l, x.state.next a = b ↔ x.state.prev b = a) ∧
      l.length = x.state.votersCount := by
  obtain ⟨l, links, mem, length⟩ := h.hasVoters.voters
  refine ⟨l, links.forward, links.backward, links.forward.nodup, mem, links.head_eq_nil,
    links.tail_eq_nil, ?_, fun a ha b hb => links.next_eq_iff_prev_eq ha hb, length⟩
  intro nonempty
  obtain ⟨y, rfl⟩ := links.exists_snoc nonempty
  simp

/-- Two votes for a validator, in the order in which they were cast. -/
theorem voters_linked_sample :
    ∃ x, Reachable Sample.precompiles (fun m => m.NonzeroVoters ∧ m.NonzeroValidator) 1 0 x ∧
      x.state.votersCount = 2 ∧
      ∃ l, Visits x.state.next 0 x.state.votersHead l ∧ l.length = x.state.votersCount := by
  obtain ⟨x, reached, count⟩ := Sample.exists_reachable
    (fun m => m.NonzeroVoters ∧ m.NonzeroValidator) 0 [ .call (Sample.register 2 (by decide) 2 0),
      .call (Sample.message 3 (by decide) (.vote 2) 0),
      .call (Sample.message 4 (by decide) (.vote 2) 0)]
    (fun x => x.state.votersCount) 2 (by decide +kernel)
    (by simp [Frames.Event.Sends, Message.NonzeroVoters, Message.NonzeroValidator, Sample.register,
      Sample.message])
  obtain ⟨l, visits, -, -, -, -, -, -, -, length⟩ := voters_linked reached
  exact ⟨x, reached, count, l, visits, length⟩

/-- A voter for the zero address can be linked to itself. -/
theorem voter_for_zero_linked_twice :
    ∃ x, Reachable Sample.precompiles Message.NonzeroVoters 1 0 x ∧
      ¬ ∃ l, Visits x.state.next 0 x.state.votersHead l := by
  obtain ⟨x, reached, links⟩ := Sample.exists_reachable Message.NonzeroVoters 0 [
      .call (Sample.message 1 (by decide) (.addValidator 0 false) 0),
      .call (Sample.message 1 (by decide) (.addVotes [2, 2] [0, 0]) 0)]
    (fun x => (x.state.votersHead, x.state.next 2)) (2, 2) (by decide +kernel)
    (by simp [Frames.Event.Sends, Message.NonzeroVoters, Sample.message])
  obtain ⟨head, next⟩ := Prod.mk.inj links
  refine ⟨x, reached, ?_⟩
  rintro ⟨l, visits⟩
  rw [head] at visits
  exact visits.ne_self (by decide) next

end Mainsail.ConsensusV1
