import Mainsail.Serializer.ByteBuffer

/-!
# The consensus contract

`ConsensusV1.sol`. A mapping is a function, a dynamic array a list. A call either reverts, and
then changes nothing, or gives the next storage. The addition and subtraction of vote balances
and voter counts are checked; counters and array lengths, which the number of addresses bounds,
are natural numbers.

The ether of the contract is part of its state. Events are left out.
-/

namespace Mainsail

open Function

instance addresses : NeZero (2 ^ 160) := ⟨by decide⟩

instance fees : NeZero (2 ^ 128) := ⟨by decide⟩

abbrev Address := Fin (2 ^ 160)

namespace ConsensusV1

structure ValidatorData where
  voteBalance : Nat := 0
  fee : Fin (2 ^ 128) := 0
  votersCount : Nat := 0
  isResigned : Bool := false
  blsPublicKey : Bytes := []
  deriving DecidableEq, Repr, Inhabited

structure RoundValidator where
  addr : Address
  voteBalance : Nat
  deriving DecidableEq, Repr

structure Vote where
  validator : Address := 0
  balance : Nat := 0
  prev : Address := 0
  next : Address := 0
  deriving DecidableEq, Repr, Inhabited

/-- The singly linked list of `_roundValidatorsMap`, `_roundValidatorsHead` and
`_roundValidatorsCount`. -/
structure RoundList where
  map : Address → Address
  head : Address
  count : Nat

structure State where
  owner : Address
  validatorsData : Address → ValidatorData
  hasValidator : Address → Bool
  /-- The hashes of the registered keys. -/
  blsPublicKeys : Bytes → Bool
  validators : List Address
  activeValidators : List Address
  activeValidatorIndex : Address → Nat
  resignedValidatorsCount : Nat
  voters : Address → Vote
  votersHead : Address
  votersTail : Address
  votersCount : Nat
  roundList : RoundList
  roundValidators : List Address
  minValidators : Nat
  fee : Fin (2 ^ 128)
  rounds : List (List RoundValidator)
  /-- The ether the contract holds. -/
  balance : Nat

inductive Revert
  | ownableUnauthorizedAccount
  | ownableInvalidOwner
  | invalidInitialization
  | nonPayable
  | invalidFee
  | refundFailed
  | callerIsNotValidator
  | validatorNotRegistered
  | validatorAlreadyRegistered
  | validatorAlreadyResigned
  | bellowMinValidators
  | insufficientActiveValidators (available required : Nat)
  | blsKeyAlreadyRegistered
  | blsKeyIsInvalid
  | invalidProofOfPossession
  | voteResignedValidator
  | voteSameValidator
  | voteValidatorWithoutBlsPublicKey
  | alreadyVoted
  | missingVote
  | invalidParameters
  | importIsNotAllowed
  | inputLengthMismatch
  | invalidInputLength
  | precompileCallFailed
  /-- A checked addition. -/
  | overflow
  /-- A checked subtraction. -/
  | underflow
  deriving DecidableEq, Repr

/-- The hash, and the precompile that `BLSPoP.verify` calls. -/
structure Precompiles where
  keccak256 : Bytes → Bytes
  popVerify : Address → (publicKey proof : Bytes) → Option Bool

inductive Call
  | initializeContract (registrationFee : Fin (2 ^ 128))
  | transferOwnership (newOwner : Address)
  | renounceOwnership
  | setFee (registrationFee : Fin (2 ^ 128))
  | addValidator (addr : Address) (isResigned : Bool)
  | addVotes (voters validators : List Address)
  | registerValidator (blsPublicKey proofOfPossession : Bytes)
  | updateValidator (blsPublicKey proofOfPossession : Bytes)
  | resignValidator
  | vote (addr : Address)
  | unvote
  | updateVoters (voters : List Address)
  | calculateRoundValidators (n : UInt8)
  deriving DecidableEq, Repr

/-- A call with what the contract can read besides its storage: who sends it with how much
ether, the balances of accounts, and the hashes of `prevrandao` with an index. -/
structure Message where
  sender : Address
  sender_ne_zero : sender ≠ 0
  value : Nat := 0
  balances : Address → Nat
  random : Nat → Nat
  call : Call

/-! ## Words -/

def add256 (x y : Nat) : Except Revert Nat :=
  if x + y < 2 ^ 256 then .ok (x + y) else .error .overflow

def add64 (x y : Nat) : Except Revert Nat :=
  if x + y < 2 ^ 64 then .ok (x + y) else .error .overflow

def sub (x y : Nat) : Except Revert Nat :=
  if y ≤ x then .ok (x - y) else .error .underflow

/-! ## Storage -/

namespace State

variable (s : State)

def onlyOwner (sender : Address) : Except Revert Unit :=
  if sender = s.owner then .ok () else .error .ownableUnauthorizedAccount

def isValidatorRegistered (addr : Address) : Bool := s.hasValidator addr

def setData (addr : Address) (data : ValidatorData) : State :=
  { s with validatorsData := update s.validatorsData addr data }

def setVote (addr : Address) (vote : Vote) : State :=
  { s with voters := update s.voters addr vote }

def setNext (addr next : Address) : State :=
  s.setVote addr { s.voters addr with next }

def setPrev (addr prev : Address) : State :=
  s.setVote addr { s.voters addr with prev }

/-! ## Validators -/

def addActiveValidator (addr : Address) : State :=
  { s with
    activeValidators := s.activeValidators ++ [addr]
    activeValidatorIndex :=
      update s.activeValidatorIndex addr s.activeValidators.length }

def isActiveValidator (addr : Address) : Bool :=
  s.activeValidators[s.activeValidatorIndex addr]? = some addr

/-- The last address takes the place of the removed one. -/
def removeActiveValidator (addr : Address) : State :=
  if s.isActiveValidator addr then
    let index := s.activeValidatorIndex addr
    let lastIndex := s.activeValidators.length - 1
    let lastValidator := s.activeValidators.getD lastIndex 0
    let (validators, indices) :=
      if index ≠ lastIndex then
        (s.activeValidators.set index lastValidator,
          update s.activeValidatorIndex lastValidator index)
      else (s.activeValidators, s.activeValidatorIndex)
    { s with
      activeValidators := validators.dropLast
      activeValidatorIndex := update indices addr 0 }
  else s

def canBecomeActiveValidator (addr : Address) : Bool :=
  !(s.validatorsData addr).isResigned && (s.validatorsData addr).blsPublicKey.length != 0

def addValidator (addr : Address) (isResigned : Bool) : Except Revert State :=
  if s.rounds.length > 0 then .error .importIsNotAllowed
  else if s.hasValidator addr then .error .validatorAlreadyRegistered
  else .ok { s.setData addr { isResigned } with
    hasValidator := update s.hasValidator addr true
    validators := s.validators ++ [addr]
    resignedValidatorsCount := s.resignedValidatorsCount + if isResigned then 1 else 0 }

/-- `BLSPoP.verify`, where a proof that does not verify makes the callers revert. -/
def verifyProofOfPossession (precompiles : Precompiles) (sender : Address)
    (blsPublicKey proofOfPossession : Bytes) : Except Revert Unit :=
  if blsPublicKey.length ≠ 48 then .error .invalidInputLength
  else if proofOfPossession.length ≠ 96 then .error .invalidInputLength
  else match precompiles.popVerify sender blsPublicKey proofOfPossession with
    | none => .error .precompileCallFailed
    | some false => .error .invalidProofOfPossession
    | some true => .ok ()

def verifyAndRegisterBlsPublicKey (precompiles : Precompiles) (blsPublicKey : Bytes) :
    Except Revert State :=
  if s.blsPublicKeys (precompiles.keccak256 blsPublicKey) then .error .blsKeyAlreadyRegistered
  else if blsPublicKey.length ≠ 48 then .error .blsKeyIsInvalid
  else .ok { s with
    blsPublicKeys := update s.blsPublicKeys (precompiles.keccak256 blsPublicKey) true }

def registerValidator (precompiles : Precompiles) (sender : Address) (value : Nat)
    (blsPublicKey proofOfPossession : Bytes) : Except Revert State :=
  if value ≠ s.fee then .error .invalidFee
  else if s.hasValidator sender then .error .validatorAlreadyRegistered
  else do
    verifyProofOfPossession precompiles sender blsPublicKey proofOfPossession
    let s ← s.verifyAndRegisterBlsPublicKey precompiles blsPublicKey
    let s := { s.setData sender { fee := Fin.ofNat _ value, blsPublicKey } with
      hasValidator := update s.hasValidator sender true
      validators := s.validators ++ [sender]
      balance := s.balance + value }
    return s.addActiveValidator sender

def updateValidator (precompiles : Precompiles) (sender : Address)
    (blsPublicKey proofOfPossession : Bytes) : Except Revert State :=
  if s.isValidatorRegistered sender then do
    verifyProofOfPossession precompiles sender blsPublicKey proofOfPossession
    let s ← s.verifyAndRegisterBlsPublicKey precompiles blsPublicKey
    let s := s.setData sender { s.validatorsData sender with blsPublicKey }
    if s.canBecomeActiveValidator sender && !s.isActiveValidator sender then
      return s.addActiveValidator sender
    else return s
  else .error .validatorNotRegistered

/-- What a resignation changes before the refund. -/
def resign (sender : Address) : State :=
  { s.setData sender { s.validatorsData sender with isResigned := true } with
    resignedValidatorsCount := s.resignedValidatorsCount + 1 }.removeActiveValidator sender

/-- The transfer of the fee, which an account that has less ether cannot make. -/
def refund (fee : Nat) : Except Revert State :=
  if fee > 0 then
    if s.balance < fee then .error .refundFailed else .ok { s with balance := s.balance - fee }
  else .ok s

/-- The resignation up to the transfer. What the receiver of the ether does is not part of it. -/
def resignValidator (sender : Address) : Except Revert State :=
  if s.isValidatorRegistered sender then
    if (s.validatorsData sender).isResigned then .error .validatorAlreadyResigned
    else if s.activeValidators.length ≤ s.minValidators then .error .bellowMinValidators
    else (s.resign sender).refund (s.validatorsData sender).fee
  else .error .callerIsNotValidator

/-! ## Votes -/

/-- Put a voter at the end of the list. -/
def linkVoter (voter : Address) : State :=
  if s.votersHead = 0 then { s with votersHead := voter, votersTail := voter }
  else { (s.setNext s.votersTail voter).setPrev voter s.votersTail with votersTail := voter }

/-- What `_addVote` and `vote` have in common. -/
def recordVote (voter validator : Address) (balance : Nat) : Except Revert State := do
  let s := (s.setVote voter { validator, balance }).linkVoter voter
  let s := { s with votersCount := s.votersCount + 1 }
  let data := s.validatorsData validator
  let voteBalance ← add256 data.voteBalance balance
  let votersCount ← add64 data.votersCount 1
  return s.setData validator { data with voteBalance, votersCount }

def addVote (balances : Address → Nat) (voter validator : Address) : Except Revert State :=
  if s.rounds.length > 0 then .error .importIsNotAllowed
  else if !s.isValidatorRegistered validator then .error .validatorNotRegistered
  else if (s.voters voter).validator ≠ 0 then .error .alreadyVoted
  else s.recordVote voter validator (balances voter)

def addVotes (balances : Address → Nat) (votes : List (Address × Address)) :
    Except Revert State :=
  votes.foldlM (fun s vote => s.addVote balances vote.1 vote.2) s

/-- Take a voter out of the list. -/
def unlinkVoter (sender : Address) : State :=
  let voter := s.voters sender
  if s.votersHead = s.votersTail then { s with votersHead := 0, votersTail := 0 }
  else if s.votersTail = sender then { s.setNext voter.prev 0 with votersTail := voter.prev }
  else if s.votersHead = sender then { s.setPrev voter.next 0 with votersHead := voter.next }
  else
    let s := s.setNext voter.prev voter.next
    s.setPrev (s.voters sender).next (s.voters sender).prev

def unvote (sender : Address) : Except Revert State :=
  if (s.voters sender).validator = 0 then .error .missingVote
  else do
    let s := s.unlinkVoter sender
    let voter := s.voters sender
    let data := s.validatorsData voter.validator
    let voteBalance ← sub data.voteBalance voter.balance
    let count ← sub data.votersCount 1
    let s := s.setData voter.validator { data with voteBalance, votersCount := count }
    let votersCount ← sub s.votersCount 1
    return { s.setVote sender {} with votersCount }

def vote (sender : Address) (balance : Nat) (addr : Address) : Except Revert State :=
  if !s.isValidatorRegistered addr then .error .validatorNotRegistered
  else if (s.validatorsData addr).isResigned then .error .voteResignedValidator
  else if (s.validatorsData addr).blsPublicKey.length = 0 then
    .error .voteValidatorWithoutBlsPublicKey
  else if (s.voters sender).validator = addr then .error .voteSameValidator
  else do
    let s ← if (s.voters sender).validator ≠ 0 then s.unvote sender else .ok s
    s.recordVote sender addr balance

def updateVoter (balances : Address → Nat) (addr : Address) : Except Revert State :=
  let voter := s.voters addr
  if voter.validator = 0 then .ok s
  else do
    let data := s.validatorsData voter.validator
    let voteBalance ←
      if voter.balance < balances addr then
        add256 data.voteBalance (balances addr - voter.balance)
      else sub data.voteBalance (voter.balance - balances addr)
    return (s.setData voter.validator { data with voteBalance }).setVote addr
      { voter with balance := balances addr }

def updateVoters (balances : Address → Nat) (voters : List Address) : Except Revert State :=
  voters.foldlM (fun s addr => s.updateVoter balances addr) s

end State

/-! ## Rounds -/

section

variable (data : Address → ValidatorData)

/-- The higher vote balance, or the lower address. -/
def isGreater (a b : Address) : Bool :=
  if (data a).voteBalance = (data b).voteBalance then a < b
  else (data a).voteBalance > (data b).voteBalance

namespace RoundList

variable (list : RoundList)

/-- The loop of `_deleteRoundValidators`. -/
def deleteFrom : (fuel : Nat) → (next : Address) → (Address → Address) → Address → Address
  | 0, _, map => map
  | fuel + 1, next, map =>
    if next = 0 then map else deleteFrom fuel (map next) (update map next 0)

/-- Each step of a loop over the list is at another address, so their number bounds the steps. -/
def fuel : Nat := 2 ^ 160

def deleteRoundValidators : RoundList :=
  { list with map := deleteFrom fuel list.head list.map, count := 0 }

def insertHead (addr : Address) : RoundList where
  map := update list.map addr list.head
  head := addr
  count := list.count + 1

def insertAfter (prev addr : Address) : RoundList where
  map := update (update list.map addr (list.map prev)) prev addr
  head := list.head
  count := list.count + 1

/-- The loop of `_insertValidator`: the place after which the address belongs. -/
def findPrevious (addr : Address) : (fuel : Nat) → (previous current : Address) → Address
  | 0, previous, _ => previous
  | fuel + 1, previous, current =>
    if current = 0 then previous
    else if isGreater data current addr then previous
    else findPrevious addr fuel current (list.map current)

/-- Drop the head if there are too many. -/
def evict (top : Nat) : RoundList :=
  if list.count > top then
    { map := update list.map list.head 0
      head := list.map list.head
      count := list.count - 1 }
  else list

def insertValidator (top : Nat) (addr : Address) : RoundList :=
  let list :=
    if isGreater data list.head addr then list.insertHead addr
    else list.insertAfter (findPrevious data list addr fuel list.head (list.map list.head)) addr
  list.evict top

/-- The body of the loop over the active validators. -/
def consider (n : Nat) (addr : Address) : RoundList :=
  if (data addr).isResigned ∨ (data addr).blsPublicKey.length = 0 then list
  else if list.head = 0 then { list with head := addr, count := 1 }
  else if list.count < n then insertValidator data list n addr
  else if isGreater data addr list.head then insertValidator data list n addr
  else list

/-- The first addresses of the list. -/
def walk (map : Address → Address) : (n : Nat) → (next : Address) → List Address
  | 0, _ => []
  | n + 1, next => next :: walk map n (map next)

end RoundList

end

/-- Exchange two elements. -/
def swap (array : List Address) (i j : Nat) : List Address :=
  (array.set i (array.getD j 0)).set j (array.getD i 0)

/-- The loop of `_shuffleMem` from index `i` down. -/
def shuffleFrom (random : Nat → Nat) : (i : Nat) → List Address → List Address
  | 0, array => array
  | i + 1, array => shuffleFrom random i (swap array (i + 1) (random (i + 1) % (i + 2)))

def shuffleMem (random : Nat → Nat) (array : List Address) : List Address :=
  shuffleFrom random (array.length - 1) array

def State.calculateRoundValidators (s : State) (random : Nat → Nat) (n : Nat) :
    Except Revert State :=
  if n = 0 then .error .invalidParameters
  else
    let list := { s.roundList.deleteRoundValidators with head := 0 }
    let list :=
      s.activeValidators.foldl (fun list addr => list.consider s.validatorsData n addr) list
    if list.count < n then .error (.insufficientActiveValidators list.count n)
    else
      let shuffled := shuffleMem random (RoundList.walk list.map n list.head)
      .ok { s with
        minValidators := n
        roundList := list
        roundValidators := shuffled
        rounds := s.rounds ++
          [shuffled.map fun addr => ⟨addr, (s.validatorsData addr).voteBalance⟩] }

/-! ## Calls -/

def Call.isPayable : Call → Bool
  | registerValidator .. => true
  | _ => false

def dispatch (precompiles : Precompiles) (s : State) (m : Message) : Except Revert State :=
  match m.call with
  | .initializeContract _ => .error .invalidInitialization
  | .transferOwnership newOwner => do
      s.onlyOwner m.sender
      if newOwner = 0 then .error .ownableInvalidOwner else return { s with owner := newOwner }
  | .renounceOwnership => do
      s.onlyOwner m.sender
      return { s with owner := 0 }
  | .setFee registrationFee => do
      s.onlyOwner m.sender
      return { s with fee := registrationFee }
  | .addValidator addr isResigned => do
      s.onlyOwner m.sender
      s.addValidator addr isResigned
  | .addVotes voters validators => do
      s.onlyOwner m.sender
      if voters.length ≠ validators.length then .error .inputLengthMismatch
      else s.addVotes m.balances (voters.zip validators)
  | .registerValidator blsPublicKey proofOfPossession =>
    s.registerValidator precompiles m.sender m.value blsPublicKey proofOfPossession
  | .updateValidator blsPublicKey proofOfPossession =>
    s.updateValidator precompiles m.sender blsPublicKey proofOfPossession
  | .resignValidator => s.resignValidator m.sender
  | .vote addr => s.vote m.sender (m.balances m.sender) addr
  | .unvote => s.unvote m.sender
  | .updateVoters voters => do
      s.onlyOwner m.sender
      s.updateVoters m.balances voters
  | .calculateRoundValidators n => do
      s.onlyOwner m.sender
      s.calculateRoundValidators m.random n.toNat

/-- Ether can be sent with a registration only. -/
def step (precompiles : Precompiles) (s : State) (m : Message) : Except Revert State :=
  if !m.call.isPayable && m.value != 0 then .error .nonPayable else dispatch precompiles s m

/-- The state after `initialize`. -/
def initial (owner : Address) (registrationFee : Fin (2 ^ 128)) : State where
  owner := owner
  validatorsData _ := {}
  hasValidator _ := false
  blsPublicKeys _ := false
  validators := []
  activeValidators := []
  activeValidatorIndex _ := 0
  resignedValidatorsCount := 0
  voters _ := {}
  votersHead := 0
  votersTail := 0
  votersCount := 0
  roundList := ⟨fun _ => 0, 0, 0⟩
  roundValidators := []
  minValidators := 1
  fee := registrationFee
  rounds := []
  balance := 0

end ConsensusV1

end Mainsail
