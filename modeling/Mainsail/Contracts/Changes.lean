import Mainsail.Contracts.ConsensusV1

/-!
# What a call changes

A call that does not revert is a sequence of the changes below: a call for several voters makes
one change for each of them, and a vote in place of another takes the old one back first. The
invariants are proved for one change.

Most changes concern either the votes or the registered validators, and leave the other half of
the storage as it is.
-/

namespace Mainsail.ConsensusV1

open Function State Except Nat

variable {precompiles : Precompiles} {s s' : State} {m : Message}

/-! ## Words -/

variable {x y z : Nat} {voters : List Address} {isResigned : Bool}
variable {blsPublicKey proofOfPossession : Bytes}

theorem add256_eq_ok : add256 x y = .ok z ↔ x + y < 2 ^ 256 ∧ x + y = z := by
  unfold add256
  split
  · next small => simp only [small, true_and, ok.injEq]
  · next large => simp only [large, false_and, reduceCtorEq]

theorem add64_eq_ok : add64 x y = .ok z ↔ x + y < 2 ^ 64 ∧ x + y = z := by
  unfold add64
  split
  · next small => simp only [small, true_and, ok.injEq]
  · next large => simp only [large, false_and, reduceCtorEq]

theorem sub_eq_ok : sub x y = .ok z ↔ y ≤ x ∧ x - y = z := by
  unfold sub
  split <;> simp [*]

/-! ## Votes -/

namespace State

@[simp] theorem setVote_voters_self (addr : Address) (vote : Vote) :
    (s.setVote addr vote).voters addr = vote := update_self ..

variable {addr a validator sender : Address} {balances : Address → Nat}

theorem setVote_voters_of_ne (h : a ≠ addr) (vote : Vote) :
    (s.setVote addr vote).voters a = s.voters a := update_of_ne h ..

/-- Linking a voter leaves everything but the list. -/
theorem linkVoter_eq (voter : Address) : s.linkVoter voter = { s with
      voters := (s.linkVoter voter).voters
      votersHead := (s.linkVoter voter).votersHead
      votersTail := (s.linkVoter voter).votersTail } := by
  unfold linkVoter
  split <;> rfl

theorem unlinkVoter_eq (sender : Address) : s.unlinkVoter sender = { s with
      voters := (s.unlinkVoter sender).voters
      votersHead := (s.unlinkVoter sender).votersHead
      votersTail := (s.unlinkVoter sender).votersTail } := by
  simp only [unlinkVoter]
  repeat' split
  all_goals rfl

/-- The vote without its place in the list. -/
def content (s : State) (a : Address) : Address × Nat :=
  ((s.voters a).validator, (s.voters a).balance)

@[simp] theorem content_setNext (addr next : Address) :
    (s.setNext addr next).content = s.content := by
  funext a
  by_cases h : a = addr
  · subst h
    simp [content, setNext]
  · simp [content, setNext, setVote_voters_of_ne h]

@[simp] theorem content_setPrev (addr prev : Address) :
    (s.setPrev addr prev).content = s.content := by
  funext a
  by_cases h : a = addr
  · subst h
    simp [content, setPrev]
  · simp [content, setPrev, setVote_voters_of_ne h]

theorem content_of_voters_eq (h : s'.voters = s.voters) : s'.content = s.content := by
  funext a
  simp [content, h]

@[simp] theorem content_linkVoter (voter : Address) : (s.linkVoter voter).content = s.content := by
  unfold linkVoter
  split
  · rfl
  · exact (content_of_voters_eq rfl).trans ((content_setPrev ..).trans (content_setNext ..))

@[simp] theorem content_unlinkVoter (sender : Address) :
    (s.unlinkVoter sender).content = s.content := by
  simp only [unlinkVoter]
  repeat' split
  · rfl
  · exact (content_of_voters_eq rfl).trans (content_setNext ..)
  · exact (content_of_voters_eq rfl).trans (content_setPrev ..)
  · exact (content_setPrev ..).trans (content_setNext ..)

/-- The storage after `recordVote`. -/
def voted (s : State) (voter validator : Address) (balance : Nat) : State :=
  let data := s.validatorsData validator
  { (s.setVote voter { validator, balance }).linkVoter voter with
    votersCount := s.votersCount + 1
    validatorsData := update s.validatorsData validator
      { data with voteBalance := data.voteBalance + balance, votersCount := data.votersCount + 1 } }

theorem recordVote_eq_ok {voter : Address} {balance : Nat} :
    s.recordVote voter validator balance = .ok s' ↔
      (s.validatorsData validator).voteBalance + balance < 2 ^ 256 ∧
      (s.validatorsData validator).votersCount + 1 < 2 ^ 64 ∧
      s' = s.voted voter validator balance := by
  have linked := linkVoter_eq (s := s.setVote voter { validator, balance }) voter
  have data : ((s.setVote voter { validator, balance }).linkVoter voter).validatorsData =
      s.validatorsData := by rw [linked]; rfl
  have count : ((s.setVote voter { validator, balance }).linkVoter voter).votersCount =
      s.votersCount := by rw [linked]; rfl
  simp only [recordVote, Except.bind_eq_ok, add256_eq_ok, add64_eq_ok, data, count, pure,
    Except.pure, Except.ok.injEq]
  constructor
  · rintro ⟨_, ⟨small, rfl⟩, _, ⟨few, rfl⟩, rfl⟩
    refine ⟨small, few, ?_⟩
    simp only [voted, setData]
  · rintro ⟨small, few, rfl⟩
    refine ⟨_, ⟨small, rfl⟩, _, ⟨few, rfl⟩, ?_⟩
    simp only [voted, setData]

/-- The storage after `_unvote`. -/
def unvoted (s : State) (sender : Address) : State :=
  let voter := s.voters sender
  let data := s.validatorsData voter.validator
  { (s.unlinkVoter sender).setVote sender {} with
    votersCount := s.votersCount - 1
    validatorsData := update s.validatorsData voter.validator { data with
        voteBalance := data.voteBalance - voter.balance
        votersCount := data.votersCount - 1 } }

theorem unvote_eq_ok :
    s.unvote sender = .ok s' ↔
      (s.voters sender).validator ≠ 0 ∧
      (s.voters sender).balance ≤
        (s.validatorsData (s.voters sender).validator).voteBalance ∧
      1 ≤ (s.validatorsData (s.voters sender).validator).votersCount ∧
      1 ≤ s.votersCount ∧ s' = s.unvoted sender := by
  have unlinked := unlinkVoter_eq (s := s) sender
  have data : (s.unlinkVoter sender).validatorsData = s.validatorsData := by rw [unlinked]
  have count : (s.unlinkVoter sender).votersCount = s.votersCount := by rw [unlinked]
  have same := Prod.mk.inj (congrFun (content_unlinkVoter (s := s) sender) sender)
  by_cases none : (s.voters sender).validator = 0
  · simp [unvote, none]
  · simp only [unvote, none, if_false, ne_eq, not_false_eq_true, true_and, Except.bind_eq_ok,
      sub_eq_ok, same.1, same.2, data, setData, count, pure, Except.pure, Except.ok.injEq]
    constructor
    · rintro ⟨_, ⟨enough, rfl⟩, _, ⟨some, rfl⟩, _, ⟨more, rfl⟩, rfl⟩
      exact ⟨enough, some, more, rfl⟩
    · rintro ⟨enough, some, more, rfl⟩
      exact ⟨_, ⟨enough, rfl⟩, _, ⟨some, rfl⟩, _, ⟨more, rfl⟩, rfl⟩

/-- The storage after `_updateVoter` for a voter. -/
def updated (s : State) (balances : Address → Nat) (addr : Address) : State :=
  let voter := s.voters addr
  let data := s.validatorsData voter.validator
  { s with
    voters := update s.voters addr { voter with balance := balances addr }
    validatorsData := update s.validatorsData voter.validator
      { data with voteBalance := data.voteBalance + balances addr - voter.balance } }

theorem updateVoter_eq_ok (voter : (s.voters addr).validator ≠ 0) :
    s.updateVoter balances addr = .ok s' ↔
      (s.voters addr).balance ≤
        (s.validatorsData (s.voters addr).validator).voteBalance + balances addr ∧
      ((s.voters addr).balance < balances addr →
        (s.validatorsData (s.voters addr).validator).voteBalance + balances addr -
          (s.voters addr).balance < 2 ^ 256) ∧
      s' = s.updated balances addr := by
  simp only [updateVoter, voter, if_false]
  split
  · next more =>
      have total : ∀ x : Nat, x + (balances addr - (s.voters addr).balance) =
          x + balances addr - (s.voters addr).balance := by omega
      simp only [Except.bind_eq_ok, add256_eq_ok, total, pure, Except.pure, Except.ok.injEq]
      constructor
      · rintro ⟨_, ⟨small, rfl⟩, rfl⟩
        exact ⟨by omega, fun _ => small, rfl⟩
      · rintro ⟨-, small, rfl⟩
        exact ⟨_, ⟨small more, rfl⟩, rfl⟩
  · next less =>
      have total : ∀ x : Nat, x - ((s.voters addr).balance - balances addr) =
          x + balances addr - (s.voters addr).balance := by omega
      simp only [Except.bind_eq_ok, sub_eq_ok, total, pure, Except.pure, Except.ok.injEq]
      constructor
      · rintro ⟨_, ⟨enough, rfl⟩, rfl⟩
        exact ⟨by omega, fun more => absurd more less, rfl⟩
      · rintro ⟨enough, -, rfl⟩
        exact ⟨_, ⟨by omega, rfl⟩, rfl⟩

theorem updateVoter_of_not_voter
    (h : (s.voters addr).validator = 0) : s.updateVoter balances addr = .ok s := by
  simp [updateVoter, h]

/-- Only the record of a voter changes. -/
theorem updateVoter_cases (h : s.updateVoter balances addr = .ok s') :
    s' = s ∨ (s.voters addr).validator ≠ 0 ∧ s' = s.updated balances addr := by
  by_cases voter : (s.voters addr).validator = 0
  · rw [updateVoter_of_not_voter voter] at h
    exact .inl (ok.inj h).symm
  · exact .inr ⟨voter, ((updateVoter_eq_ok voter).mp h).2.2⟩

@[simp] theorem voted_hasValidator (voter validator : Address) (balance : Nat) :
    (s.voted voter validator balance).hasValidator = s.hasValidator := by
  change ((s.setVote voter { validator, balance }).linkVoter voter).hasValidator = _
  rw [linkVoter_eq]
  rfl

@[simp] theorem unvoted_hasValidator (sender : Address) :
    (s.unvoted sender).hasValidator = s.hasValidator := by
  change (s.unlinkVoter sender).hasValidator = _
  rw [unlinkVoter_eq]

@[simp] theorem unvoted_voters_self (sender : Address) :
    (s.unvoted sender).voters sender = {} := setVote_voters_self ..

end State

/-! ## Validators -/

/-- A registered validator is not one that is not. -/
theorem State.ne_of_registered {a b : Address} (registered : s.hasValidator a)
    (unknown : s.hasValidator b = false) : a ≠ b := by
  rintro rfl
  exact Bool.false_ne_true (unknown.symm.trans registered)

theorem State.addValidator_eq_ok {addr : Address} :
    s.addValidator addr isResigned = .ok s' ↔ s.rounds = [] ∧ s.hasValidator addr = false ∧
      s' = { s with
        validatorsData := update s.validatorsData addr { isResigned }
        hasValidator := update s.hasValidator addr true
        validators := s.validators ++ [addr]
        resignedValidatorsCount :=
          s.resignedValidatorsCount + if isResigned then 1 else 0 } := by
  unfold addValidator
  split
  · next rounds =>
      have : s.rounds ≠ [] := List.ne_nil_of_length_pos rounds
      simp [this]
  · next rounds =>
      have : s.rounds = [] := by simpa using rounds
      split
      · next registered => simp [registered]
      · next registered => simp [this, registered, setData, eq_comm]

theorem State.verifyAndRegisterBlsPublicKey_eq_ok :
    s.verifyAndRegisterBlsPublicKey precompiles blsPublicKey = .ok s' ↔
      s.blsPublicKeys (precompiles.keccak256 blsPublicKey) = false ∧ blsPublicKey.length = 48 ∧
      s' = { s with
        blsPublicKeys :=
          update s.blsPublicKeys (precompiles.keccak256 blsPublicKey) true } := by
  unfold verifyAndRegisterBlsPublicKey
  split
  · next reserved => simp [reserved]
  · next free =>
      split
      · next length => simp [length]
      · next length =>
          rw [not_not] at length
          simp [free, length, eq_comm]

/-- The storage after `registerValidator`. -/
def State.registered (s : State) (precompiles : Precompiles) (sender : Address) (value : Nat)
    (blsPublicKey : Bytes) : State :=
  { s with
    blsPublicKeys := update s.blsPublicKeys (precompiles.keccak256 blsPublicKey) true
    validatorsData :=
      update s.validatorsData sender { fee := Fin.ofNat _ value, blsPublicKey }
    hasValidator := update s.hasValidator sender true
    validators := s.validators ++ [sender]
    balance := s.balance + value }.addActiveValidator sender

theorem State.registerValidator_eq_ok {sender : Address} {value : Nat}
    (h : s.registerValidator precompiles sender value blsPublicKey proofOfPossession = .ok s') :
    value = s.fee ∧ s.hasValidator sender = false ∧
      s.blsPublicKeys (precompiles.keccak256 blsPublicKey) = false ∧ blsPublicKey.length = 48 ∧
      s' = s.registered precompiles sender value blsPublicKey := by
  unfold registerValidator at h
  split at h
  · cases h
  next paid =>
  split at h
  · cases h
  next new =>
  obtain ⟨_, _, h⟩ := bind_eq_ok.mp h
  obtain ⟨_, reserved, h⟩ := bind_eq_ok.mp h
  obtain ⟨free, length, rfl⟩ := verifyAndRegisterBlsPublicKey_eq_ok.mp reserved
  exact ⟨not_not.mp paid, Bool.eq_false_of_not_eq_true new, free, length, (ok.inj h).symm⟩

/-- The storage after a validator has replaced its key. -/
def State.rekeyed (s : State) (precompiles : Precompiles) (sender : Address)
    (blsPublicKey : Bytes) : State :=
  { s with
    blsPublicKeys := update s.blsPublicKeys (precompiles.keccak256 blsPublicKey) true
    validatorsData := update s.validatorsData sender
      { s.validatorsData sender with blsPublicKey } }

theorem State.updateValidator_eq_ok {sender : Address}
    (h : s.updateValidator precompiles sender blsPublicKey proofOfPossession = .ok s') :
    s.hasValidator sender = true ∧ s.blsPublicKeys (precompiles.keccak256 blsPublicKey) = false ∧
      blsPublicKey.length = 48 ∧
      s' = if (s.validatorsData sender).isResigned = false ∧ s.isActiveValidator sender = false
        then (s.rekeyed precompiles sender blsPublicKey).addActiveValidator sender
        else s.rekeyed precompiles sender blsPublicKey := by
  unfold updateValidator at h
  split at h
  · next registered =>
      obtain ⟨_, _, h⟩ := bind_eq_ok.mp h
      obtain ⟨_, reserved, h⟩ := bind_eq_ok.mp h
      obtain ⟨free, length, rfl⟩ := verifyAndRegisterBlsPublicKey_eq_ok.mp reserved
      refine ⟨registered, free, length, ?_⟩
      have active : (s.rekeyed precompiles sender blsPublicKey).isActiveValidator sender =
          s.isActiveValidator sender := rfl
      have can : (s.rekeyed precompiles sender blsPublicKey).canBecomeActiveValidator sender =
          !(s.validatorsData sender).isResigned := by
        simp [canBecomeActiveValidator, rekeyed, length]
      change (if (s.rekeyed precompiles sender blsPublicKey).canBecomeActiveValidator sender &&
          !(s.rekeyed precompiles sender blsPublicKey).isActiveValidator sender
        then .ok ((s.rekeyed precompiles sender blsPublicKey).addActiveValidator sender)
        else .ok (s.rekeyed precompiles sender blsPublicKey)) = ok s' at h
      rw [active, can] at h
      cases resigned : (s.validatorsData sender).isResigned <;>
        cases isActive : s.isActiveValidator sender <;>
        simp_all
  · cases h

theorem State.refund_eq_ok {fee : Nat} :
    s.refund fee = .ok s' ↔ fee ≤ s.balance ∧ s' = { s with balance := s.balance - fee } := by
  unfold refund
  split
  · split
    · next poor => simp only [not_le.mpr poor, false_and, reduceCtorEq]
    · next rich => simp only [not_lt.mp rich, true_and, ok.injEq, eq_comm]
  · next free =>
      obtain rfl : fee = 0 := by omega
      simp only [zero_le, Nat.sub_zero, true_and, ok.injEq]
      exact eq_comm

/-- Removing a validator leaves everything but the array and its index. -/
theorem State.removeActiveValidator_eq (addr : Address) : s.removeActiveValidator addr = { s with
      activeValidators := (s.removeActiveValidator addr).activeValidators
      activeValidatorIndex := (s.removeActiveValidator addr).activeValidatorIndex } := by
  unfold removeActiveValidator
  split <;> rfl

/-- A resignation, apart from the array and its index. -/
theorem State.resign_eq (sender : Address) : s.resign sender = { s with
      validatorsData := update s.validatorsData sender
        { s.validatorsData sender with isResigned := true }
      resignedValidatorsCount := s.resignedValidatorsCount + 1
      activeValidators := (s.resign sender).activeValidators
      activeValidatorIndex := (s.resign sender).activeValidatorIndex } := by
  unfold resign
  rw [removeActiveValidator_eq]
  rfl

theorem State.resignValidator_eq_ok {sender : Address} : s.resignValidator sender = .ok s' ↔
      s.hasValidator sender = true ∧ (s.validatorsData sender).isResigned = false ∧
      s.minValidators < s.activeValidators.length ∧
      (s.validatorsData sender).fee ≤ s.balance ∧
      s' = { s with
        validatorsData := update s.validatorsData sender
          { s.validatorsData sender with isResigned := true }
        resignedValidatorsCount := s.resignedValidatorsCount + 1
        activeValidators := (s.resign sender).activeValidators
        activeValidatorIndex := (s.resign sender).activeValidatorIndex
        balance := s.balance - (s.validatorsData sender).fee } := by
  have balance : (s.resign sender).balance = s.balance := by rw [resign_eq]
  unfold resignValidator isValidatorRegistered
  split
  · next registered =>
      split
      · next resigned =>
          simp only [resigned, reduceCtorEq, Bool.true_eq_false, false_and, and_false]
      · next current =>
          rw [Bool.not_eq_true] at current
          split
          · next few =>
              simp only [not_lt.mpr few, reduceCtorEq, false_and, and_false]
          · next many =>
              simp only [registered, current, not_le.mp many, refund_eq_ok, balance, true_and]
              rw [resign_eq]
  · next unknown => simp only [unknown, reduceCtorEq, false_and]

/-! ## Rounds -/

/-- The list after the loop over the active validators. -/
def State.selection (s : State) (n : Nat) : RoundList :=
  s.activeValidators.foldl (fun list addr => list.consider s.validatorsData n addr)
    { s.roundList.deleteRoundValidators with head := 0 }

/-- The storage after `calculateRoundValidators`. -/
def State.calculated (s : State) (random : Nat → Nat) (n : Nat) : State :=
  let shuffled := shuffleMem random (RoundList.walk (s.selection n).map n (s.selection n).head)
  { s with
    minValidators := n
    roundList := s.selection n
    roundValidators := shuffled
    rounds := s.rounds ++ [shuffled.map fun addr => ⟨addr, (s.validatorsData addr).voteBalance⟩] }

theorem State.calculateRoundValidators_eq_ok {random : Nat → Nat} {n : Nat} :
    s.calculateRoundValidators random n = .ok s' ↔
      n ≠ 0 ∧ n ≤ (s.selection n).count ∧ s' = s.calculated random n := by
  unfold calculateRoundValidators
  split
  · next zero => simp only [zero, ne_eq, not_true_eq_false, reduceCtorEq, false_and]
  · next positive =>
      change (if (s.selection n).count < n then _ else ok (s.calculated random n)) = _ ↔ _
      split
      · next few => simp only [not_le.mpr few, reduceCtorEq, false_and, and_false]
      · next enough =>
          simp only [ne_eq, positive, not_false_eq_true, not_lt.mp enough, true_and, ok.injEq]
          exact eq_comm

/-! ## Calls -/

/-- The elementary changes a message can make to the votes. -/
inductive VoteChange (m : Message) (s : State) : State → Prop
  /-- The voter is the sender, or one of the voters to be added. -/
  | recordVote {voter validator : Address} (voter_mem : voter = m.sender ∨
        ∃ voters validators, m.call = .addVotes voters validators ∧ voter ∈ voters)
      (new : (s.voters voter).validator = 0) (registered : s.hasValidator validator) :
      VoteChange m s (s.voted voter validator (m.balances voter))
  | unvote (voter : (s.voters m.sender).validator ≠ 0) : VoteChange m s (s.unvoted m.sender)
  | updateVoter {addr : Address} (voter : (s.voters addr).validator ≠ 0) :
      VoteChange m s (s.updated m.balances addr)

/-- The elementary changes a message can make. -/
inductive Change (precompiles : Precompiles) (m : Message) (s : State) : State → Prop
  | owner (owner : Address) : Change precompiles m s { s with owner }
  | fee (fee : Fin (2 ^ 128)) : Change precompiles m s { s with fee }
  | addValidator {addr : Address} {isResigned : Bool} (call : m.call = .addValidator addr isResigned)
      (new : s.hasValidator addr = false) : Change precompiles m s { s with
        validatorsData := update s.validatorsData addr { isResigned }
        hasValidator := update s.hasValidator addr true
        validators := s.validators ++ [addr]
        resignedValidatorsCount := s.resignedValidatorsCount + if isResigned then 1 else 0 }
  | registerValidator {blsPublicKey proofOfPossession : Bytes}
      (call : m.call = .registerValidator blsPublicKey proofOfPossession) (paid : m.value = s.fee)
      (new : s.hasValidator m.sender = false)
      (free : s.blsPublicKeys (precompiles.keccak256 blsPublicKey) = false)
      (length : blsPublicKey.length = 48) :
      Change precompiles m s (s.registered precompiles m.sender m.value blsPublicKey)
  | updateValidator {blsPublicKey : Bytes} (registered : s.hasValidator m.sender = true)
      (free : s.blsPublicKeys (precompiles.keccak256 blsPublicKey) = false)
      (length : blsPublicKey.length = 48) : Change precompiles m s
        (if (s.validatorsData m.sender).isResigned = false ∧ s.isActiveValidator m.sender = false
          then (s.rekeyed precompiles m.sender blsPublicKey).addActiveValidator m.sender
          else s.rekeyed precompiles m.sender blsPublicKey)
  | resignValidator (registered : s.hasValidator m.sender = true)
      (current : (s.validatorsData m.sender).isResigned = false)
      (many : s.minValidators < s.activeValidators.length)
      (enough : (s.validatorsData m.sender).fee ≤ s.balance) : Change precompiles m s { s with
        validatorsData := update s.validatorsData m.sender
          { s.validatorsData m.sender with isResigned := true }
        resignedValidatorsCount := s.resignedValidatorsCount + 1
        activeValidators := (s.resign m.sender).activeValidators
        activeValidatorIndex := (s.resign m.sender).activeValidatorIndex
        balance := s.balance - (s.validatorsData m.sender).fee }
  | votes {s' : State} (change : VoteChange m s s') : Change precompiles m s s'
  | calculateRoundValidators {n : UInt8} (call : m.call = .calculateRoundValidators n)
      (positive : n.toNat ≠ 0) : Change precompiles m s (s.calculated m.random n.toNat)

/-- Sequences of changes. -/
abbrev Changes (precompiles : Precompiles) (m : Message) : State → State → Prop :=
  Relation.ReflTransGen (Change precompiles m)

theorem addVotes_changes {validators : List Address} {votes : List (Address × Address)}
    (call : m.call = .addVotes voters validators) (members : ∀ vote ∈ votes, vote.1 ∈ voters)
    (h : s.addVotes m.balances votes = .ok s') : Changes precompiles m s s' := by
  induction votes generalizing s with
  | nil =>
    obtain rfl := ok.inj h
    exact .refl
  | cons vote votes ih =>
    obtain ⟨head, tail⟩ := List.forall_mem_cons.mp members
    obtain ⟨middle, added, h⟩ := bind_eq_ok.mp h
    refine .head ?_ (ih tail h)
    change s.addVote m.balances vote.1 vote.2 = .ok middle at added
    unfold addVote at added
    split at added
    · cases added
    split at added
    · cases added
    split at added
    · cases added
    · next registered new =>
        obtain ⟨-, -, rfl⟩ := recordVote_eq_ok.mp added
        exact .votes (.recordVote (.inr ⟨voters, validators, call, head⟩) (not_not.mp new)
          (by simpa [isValidatorRegistered] using registered))

theorem updateVoters_changes
    (h : s.updateVoters m.balances voters = .ok s') : Changes precompiles m s s' := by
  induction voters generalizing s with
  | nil =>
    obtain rfl := ok.inj h
    exact .refl
  | cons addr voters ih =>
    obtain ⟨middle, updated, rest⟩ := bind_eq_ok.mp h
    obtain rfl | ⟨voter, rfl⟩ := updateVoter_cases updated
    · exact ih rest
    · exact .head (.votes (.updateVoter voter)) (ih rest)

theorem vote_changes {addr : Address}
    (h : s.vote m.sender (m.balances m.sender) addr = .ok s') : Changes precompiles m s s' := by
  unfold vote at h
  split at h
  · cases h
  next registered =>
  split at h
  · cases h
  split at h
  · cases h
  split at h
  · cases h
  have registered : s.hasValidator addr := by
    simpa [isValidatorRegistered] using registered
  dsimp only at h
  split at h
  · obtain ⟨middle, unvoted, recorded⟩ := bind_eq_ok.mp h
    obtain ⟨voter, -, -, -, rfl⟩ := unvote_eq_ok.mp unvoted
    obtain ⟨-, -, rfl⟩ := recordVote_eq_ok.mp recorded
    refine .head (.votes (.unvote voter)) (.single (.votes (.recordVote (.inl rfl) ?_ ?_)))
    · rw [unvoted_voters_self]
    · rwa [unvoted_hasValidator]
  · next new =>
      obtain ⟨-, -, rfl⟩ := recordVote_eq_ok.mp h
      exact .single (.votes (.recordVote (.inl rfl) (not_not.mp new) registered))

theorem dispatch_of_step (h : step precompiles s m = .ok s') :
    dispatch precompiles s m = .ok s' := by
  unfold step at h
  split at h
  · cases h
  · exact h

theorem step_of_unpaid (unpaid : m.value = 0) :
    step precompiles s m = dispatch precompiles s m := by
  simp [step, unpaid]

/-- A call that does not revert is a sequence of changes. -/
theorem step_changes (h : step precompiles s m = .ok s') : Changes precompiles m s s' := by
  have h := dispatch_of_step h
  unfold dispatch at h
  split at h
  case h_1 => cases h
  case h_2 =>
    obtain ⟨_, _, h⟩ := bind_eq_ok.mp h
    split at h
    · cases h
    · obtain rfl := ok.inj h
      exact .single (.owner _)
  case h_3 =>
    obtain ⟨_, _, h⟩ := bind_eq_ok.mp h
    obtain rfl := ok.inj h
    exact .single (.owner _)
  case h_4 =>
    obtain ⟨_, _, h⟩ := bind_eq_ok.mp h
    obtain rfl := ok.inj h
    exact .single (.fee _)
  case h_5 call =>
    obtain ⟨_, _, h⟩ := bind_eq_ok.mp h
    obtain ⟨-, new, rfl⟩ := addValidator_eq_ok.mp h
    exact .single (.addValidator call new)
  case h_6 call =>
    obtain ⟨_, _, h⟩ := bind_eq_ok.mp h
    split at h
    · cases h
    · exact addVotes_changes call (fun vote member => (List.of_mem_zip member).1) h
  case h_7 call =>
    obtain ⟨paid, new, free, length, rfl⟩ := registerValidator_eq_ok h
    exact .single (.registerValidator call paid new free length)
  case h_8 =>
    obtain ⟨registered, free, length, rfl⟩ := updateValidator_eq_ok h
    exact .single (.updateValidator registered free length)
  case h_9 =>
    obtain ⟨registered, current, many, enough, rfl⟩ := resignValidator_eq_ok.mp h
    exact .single (.resignValidator registered current many enough)
  case h_10 => exact vote_changes h
  case h_11 =>
    obtain ⟨voter, -, -, -, rfl⟩ := unvote_eq_ok.mp h
    exact .single (.votes (.unvote voter))
  case h_12 =>
    obtain ⟨_, _, h⟩ := bind_eq_ok.mp h
    exact updateVoters_changes h
  case h_13 call =>
    obtain ⟨_, _, h⟩ := bind_eq_ok.mp h
    obtain ⟨positive, -, rfl⟩ := calculateRoundValidators_eq_ok.mp h
    exact .single (.calculateRoundValidators call positive)

/-- What one change keeps, a call keeps. -/
theorem step_keeps {P : State → Prop} (keep : ∀ s s', Change precompiles m s s' → P s → P s')
    (h : step precompiles s m = .ok s') (start : P s) : P s' := by
  have changes := step_changes h
  clear h
  induction changes with
  | refl => exact start
  | tail _ change ih => exact keep _ _ change ih

/-! ## The two halves of the storage -/

/-- Only votes, and the sums that are kept of them, differ. -/
structure SameRegistry (s s' : State) : Prop where
  hasValidator : s'.hasValidator = s.hasValidator
  blsPublicKeys : s'.blsPublicKeys = s.blsPublicKeys
  activeValidators : s'.activeValidators = s.activeValidators
  activeValidatorIndex : s'.activeValidatorIndex = s.activeValidatorIndex
  minValidators : s'.minValidators = s.minValidators
  roundList : s'.roundList = s.roundList
  balance : s'.balance = s.balance
  data_fee : ∀ a, (s'.validatorsData a).fee = (s.validatorsData a).fee
  isResigned : ∀ a, (s'.validatorsData a).isResigned = (s.validatorsData a).isResigned
  blsPublicKey : ∀ a, (s'.validatorsData a).blsPublicKey = (s.validatorsData a).blsPublicKey

namespace SameRegistry

/-- A change of the votes, and of one validator's sums. -/
theorem of_eq {voters : Address → Vote} {head tail validator : Address}
    {count voteBalance votersCount : Nat}
    (h : s' = { s with
      voters, votersHead := head, votersTail := tail, votersCount := count
      validatorsData := update s.validatorsData validator
        { s.validatorsData validator with voteBalance, votersCount } }) :
    SameRegistry s s' := by
  subst h
  constructor
  case data_fee | isResigned | blsPublicKey =>
    intro a
    by_cases same : a = validator
    · subst same
      simp
    · simp [same]
  all_goals rfl

theorem of_votes (h : VoteChange m s s') : SameRegistry s s' := by
  cases h with
  | recordVote =>
    unfold voted
    rw [linkVoter_eq]
    exact of_eq rfl
  | unvote =>
    unfold State.unvoted
    rw [unlinkVoter_eq]
    exact of_eq rfl
  | updateVoter => exact of_eq rfl

end SameRegistry

/-- The votes are the same. The sums that are kept of them are, too, or begin with zero for a
validator that has just been registered. -/
structure SameVotes (s s' : State) : Prop where
  voters : s'.voters = s.voters
  votersHead : s'.votersHead = s.votersHead
  votersTail : s'.votersTail = s.votersTail
  votersCount : s'.votersCount = s.votersCount
  hasValidator : ∀ a, s.hasValidator a → s'.hasValidator a
  sums : ∀ a, (s'.validatorsData a).voteBalance = (s.validatorsData a).voteBalance ∧
      (s'.validatorsData a).votersCount = (s.validatorsData a).votersCount ∨
    s.hasValidator a = false ∧ s'.hasValidator a ∧
      (s'.validatorsData a).voteBalance = 0 ∧ (s'.validatorsData a).votersCount = 0

namespace SameVotes

/-- The data of the validators is as it was. -/
theorem of_data (h : s' = { s with
      owner := s'.owner, fee := s'.fee, minValidators := s'.minValidators
      roundList := s'.roundList, roundValidators := s'.roundValidators, rounds := s'.rounds }) :
    SameVotes s s' := by
  rw [h]
  exact ⟨rfl, rfl, rfl, rfl, fun _ => id, fun _ => .inl ⟨rfl, rfl⟩⟩

/-- A validator is registered. -/
theorem of_new {addr : Address} {isResigned : Bool} {fee : Fin (2 ^ 128)} {blsPublicKey : Bytes}
    (new : s.hasValidator addr = false) (h : s' = { s with
      validatorsData :=
        update s.validatorsData addr { isResigned, fee, blsPublicKey }
      hasValidator := update s.hasValidator addr true
      blsPublicKeys := s'.blsPublicKeys
      validators := s'.validators
      activeValidators := s'.activeValidators
      activeValidatorIndex := s'.activeValidatorIndex
      resignedValidatorsCount := s'.resignedValidatorsCount
      balance := s'.balance }) :
    SameVotes s s' := by
  rw [h]
  refine ⟨rfl, rfl, rfl, rfl, ?_, ?_⟩
  · intro a registered
    by_cases same : a = addr
    · simp [same]
    · simpa [same] using registered
  · intro a
    by_cases same : a = addr
    · subst same
      simp [new]
    · simp [same]

/-- The data of a validator changes, without its sums. -/
theorem of_update {addr : Address} {isResigned : Bool} {blsPublicKey : Bytes}
    (h : s' = { s with
      validatorsData := update s.validatorsData addr
        { s.validatorsData addr with isResigned, blsPublicKey }
      blsPublicKeys := s'.blsPublicKeys
      activeValidators := s'.activeValidators
      activeValidatorIndex := s'.activeValidatorIndex
      resignedValidatorsCount := s'.resignedValidatorsCount
      balance := s'.balance }) :
    SameVotes s s' := by
  rw [h]
  refine ⟨rfl, rfl, rfl, rfl, fun _ => id, ?_⟩
  intro a
  by_cases same : a = addr
  · subst same
    simp
  · simp [same]

end SameVotes

/-- A change concerns the votes, or leaves them. -/
theorem Change.sameVotes_or_votes (h : Change precompiles m s s') :
    SameVotes s s' ∨ VoteChange m s s' := by
  cases h with
  | owner | fee => exact .inl (.of_data rfl)
  | addValidator _ new | registerValidator _ _ new => exact .inl (.of_new new rfl)
  | updateValidator => split <;> exact .inl (.of_update rfl)
  | resignValidator => exact .inl (.of_update rfl)
  | votes change => exact .inr change
  | calculateRoundValidators => exact .inl (.of_data rfl)

end Mainsail.ConsensusV1
