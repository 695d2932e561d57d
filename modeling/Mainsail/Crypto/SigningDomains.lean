import Mainsail.Crypto.Messages
import Mainsail.Crypto.Proposals

/-!
# What the consensus key signs

A validator signs its votes, its proposals and the reveals of its randomness with one key, and
no tag common to the three tells them apart. Their lengths do: a vote has 74 or 106 bytes, a
reveal 147, and a proposal carries a block, whose header alone is longer.
-/

namespace Mainsail

open ProposalSerializer BlockSerializer MessageSerializer

/-- `RANDAO_TAG`. -/
def randaoTag : Bytes := "MAINSAIL_RANDAO".toList.map fun c => UInt8.ofNat c.toNat

/-- `randaoMessage` of `blockchain-utils`. -/
def randaoMessage (genesisBlockHash parentRandaoReveal : Bytes) (blockNumber : Nat) :
    Except BufferError Bytes :=
  if blockNumber < 2 ^ 32 then
    .ok (randaoTag ++ genesisBlockHash ++ parentRandaoReveal ++ Endian.big 4 blockNumber)
  else .error (.outOfRange ">= 0 and <= 4294967295" blockNumber)

/-- What the consensus key signs. -/
inductive Signable
  | vote (message : SignatureMessageData) (context : SignatureMessageContext)
  | proposal (round : Nat) (validRound : Option Nat) (validatorIndex : Nat)
      (header : BlockHeaderRaw) (transactions : List Bytes)
      (lockProof : Option AggregatedSignature)
  | randao (genesisBlockHash parentRandaoReveal : Bytes) (blockNumber : Nat)

namespace Signable

/-- The signed bytes. -/
def bytes : Signable → Except BufferError Bytes
  | vote message context => serializeMessageForSignature message context
  | proposal round validRound validatorIndex header transactions lockProof => do
      let block ← serializeWithTransactions header transactions
      let payload ← serializePayload block lockProof
      serializeProposalUnsigned ⟨round, validRound, validatorIndex, payload⟩
  | randao genesisBlockHash parentRandaoReveal blockNumber =>
    randaoMessage genesisBlockHash parentRandaoReveal blockNumber

/-- Hashes, addresses and signatures have their sizes. -/
def WellFormed : Signable → Prop
  | vote message context => message.WellFormed context
  | proposal _ _ _ header _ _ => header.Fits
  | randao genesisBlockHash parentRandaoReveal _ =>
    genesisBlockHash.length = hashSize ∧ parentRandaoReveal.length = signatureSize

/-- The same kind, and the same vote where both are votes. -/
def Agrees : Signable → Signable → Prop
  | vote message context, vote message' context' => message = message' ∧ context = context'
  | proposal .., proposal .. => True
  | randao .., randao .. => True
  | _, _ => False

variable {bs : Bytes}

theorem length_vote {message : SignatureMessageData} {context : SignatureMessageContext}
    (wf : (vote message context).WellFormed)
    (h : (vote message context).bytes = .ok bs) : bs.length < 147 := by
  have := length_serializeMessageForSignature wf h
  omega

theorem length_randao {genesis reveal : Bytes} {blockNumber : Nat}
    (wf : (randao genesis reveal blockNumber).WellFormed)
    (h : (randao genesis reveal blockNumber).bytes = .ok bs) : bs.length = 147 := by
  obtain ⟨hash, signature⟩ := wf
  simp only [bytes, randaoMessage] at h
  split at h
  · obtain rfl := Except.ok.inj h
    simp only [List.length_append, Endian.length_big, hash, signature]
    decide
  · contradiction

theorem length_proposal {round validatorIndex : Nat} {validRound : Option Nat}
    {header : BlockHeaderRaw} {transactions : List Bytes} {lockProof : Option AggregatedSignature}
    (wf : (proposal round validRound validatorIndex header transactions lockProof).WellFormed)
    (h : (proposal round validRound validatorIndex header transactions lockProof).bytes = .ok bs) :
    147 < bs.length := by
  obtain ⟨block, serialized, wrapping⟩ := Except.bind_eq_ok.mp h
  obtain ⟨payload, wrapped, signing⟩ := Except.bind_eq_ok.mp wrapping
  obtain rfl := serializeWithTransactions_eq_ok serialized
  have inBlock := length_encodeHeader wf
  have inPayload := lt_length_serializePayload wrapped
  have inProposal := le_length_serializeProposalUnsigned signing
  have large : 147 < headerSize := by decide
  rw [List.length_append] at inPayload
  simp only at inProposal
  omega

/-- The signed bytes tell what was signed: the kind, and the vote. -/
theorem agrees_of_bytes {x y : Signable} (wf : x.WellFormed) (wf' : y.WellFormed)
    (h : x.bytes = .ok bs) (h' : y.bytes = .ok bs) : x.Agrees y := by
  cases x with
  | vote message context =>
    have short := length_vote wf h
    cases y with
    | vote message' context' =>
      exact serializeMessageForSignature_inj wf wf' h h'
    | proposal => exact absurd short (Nat.lt_asymm (length_proposal wf' h'))
    | randao => exact absurd short (length_randao wf' h').not_lt
  | proposal =>
    have long := length_proposal wf h
    cases y with
    | vote => exact absurd long (Nat.lt_asymm (length_vote wf' h'))
    | proposal => trivial
    | randao => exact absurd long (length_randao wf' h').not_gt
  | randao =>
    have exact_ := length_randao wf h
    cases y with
    | vote => exact absurd exact_ (length_vote wf' h').ne
    | proposal => exact absurd exact_ (length_proposal wf' h').ne'
    | randao => trivial

/-- No signature is good for two different ones of these byte strings under a key. This is assumed of
BLS signatures. -/
def Binding (verify : Bytes → Bytes → Bytes → Bool) (data data' : Bytes) : Prop :=
  ∀ signature publicKey, verify signature data publicKey = true →
    verify signature data' publicKey = true → data = data'

/-- No byte string is two of a vote, a proposal and a reveal, or two votes, and no signature
verifies for both. -/
theorem signatures_separate {x y : Signable} {bs bs' : Bytes} (wf : x.WellFormed)
    (wf' : y.WellFormed) (h : x.bytes = .ok bs) (h' : y.bytes = .ok bs') :
    (bs = bs' → x.Agrees y) ∧
      ∀ verify, Binding verify bs bs' → ∀ signature publicKey, verify signature bs publicKey = true →
        verify signature bs' publicKey = true → x.Agrees y := by
  have separate : bs = bs' → x.Agrees y := by
    rintro rfl
    exact agrees_of_bytes wf wf' h h'
  refine ⟨separate, fun verify binding signature publicKey verified verified' => ?_⟩
  exact separate (binding signature publicKey verified verified')

def sampleVote : Signable :=
  vote ⟨.prevote, 1, 0, none⟩ ⟨List.replicate 32 0, List.replicate 32 0⟩

def sampleHeader : BlockHeaderRaw where
  version := 1
  timestamp := 0
  number := 1
  round := 0
  parentHash := List.replicate 32 0
  stateRoot := List.replicate 32 0
  logsBloom := List.replicate 256 0
  transactionsCount := 0
  gasUsed := 0
  fee := 0
  reward := 0
  payloadSize := 0
  transactionsRoot := List.replicate 32 0
  proposer := List.replicate 20 0
  randaoReveal := List.replicate 96 0

def sampleProposal : Signable := proposal 0 none 0 sampleHeader [] none

/-- A scheme with signatures of one size: the key and a byte that depends on the data. -/
def tagged (signature data publicKey : Bytes) : Bool := signature == UInt8.ofNat data.length :: publicKey

theorem signatures_separate_sampleVote_sampleProposal :
    ∃ bs bs', sampleVote.bytes = .ok bs ∧ sampleProposal.bytes = .ok bs' ∧ bs ≠ bs' ∧
      ∀ signature publicKey, tagged signature bs publicKey = true →
        ¬tagged signature bs' publicKey = true := by
  have voted : ∃ bs, sampleVote.bytes = .ok bs ∧ bs.length = 74 := by
    refine ⟨(sampleVote.bytes.toOption).getD [], ?_⟩
    decide +kernel
  have proposed : ∃ bs, sampleProposal.bytes = .ok bs ∧ bs.length = 568 := by
    refine ⟨(sampleProposal.bytes.toOption).getD [], ?_⟩
    decide +kernel
  obtain ⟨bs, h, length⟩ := voted
  obtain ⟨bs', h', length'⟩ := proposed
  have wf : sampleVote.WellFormed := ⟨by decide, by decide, by simp⟩
  have wf' : sampleProposal.WellFormed := show sampleHeader.Fits by decide +kernel
  obtain ⟨bytes, signatures⟩ := signatures_separate wf wf' h h'
  refine ⟨bs, bs', h, h', bytes, signatures tagged fun signature publicKey verified verified' => ?_⟩
  simp only [tagged, length, length', beq_iff_eq] at verified verified'
  exact absurd (verified.symm.trans verified') (by simp)

end Signable

end Mainsail
