import Mainsail.Forger.TransactionForger

/-!
# Forging a block

`BlockForger` has a block filled on top of the last block and makes it. Its payload size counts the
serialized transactions and four bytes for the length of each.
-/

namespace Mainsail

open BlockFactory BlockSerializer TransactionForger List Except

/-- The arguments of `forgeBlock`. -/
structure ForgeRequest where
  generatorAddress : Bytes
  round : Nat
  timestamp : Nat
  randaoReveal : Bytes
  deriving DecidableEq, Repr

namespace BlockForger

variable {π : Type} (rules : ChainRules) (configuration : TransactionConfiguration)
variable (previousBlock : Block) (request : ForgeRequest)

def payloadSize (transactions : List Transaction) : Nat :=
  transactions.foldl (fun size transaction => size + transaction.serialized.length)
    (transactions.length * 4)

def header (collated : Collated) : BlockHeaderRaw where
  version := 1
  timestamp := request.timestamp
  number := previousBlock.header.number + 1
  round := request.round
  parentHash := previousBlock.hash
  stateRoot := collated.stateRoot
  logsBloom := collated.logsBloom
  transactionsCount := collated.transactions.length
  gasUsed := collated.gasUsed
  fee := collated.fee
  reward := (rules.milestone (previousBlock.header.number + 1)).reward
  payloadSize := payloadSize collated.transactions
  transactionsRoot := rules.sha256 (collated.transactions.flatMap (·.data.hash))
  proposer := request.generatorAddress
  randaoReveal := request.randaoReveal

def makeBlock (collated : Collated) : Except BlockError Block :=
  make rules.sha256 configuration (header rules previousBlock request collated)
    collated.transactions

/-- The forger of the transactions. The height of the configuration is the one after the last
block. -/
def transactionForger : TransactionForger where
  generatorAddress := request.generatorAddress
  timestamp := request.timestamp
  commitKey := { blockNumber := previousBlock.header.number + 1, round := request.round }
  milestone := rules.milestone (previousBlock.header.number + 1)
  previousBlock := previousBlock

def forgeBlock (m : Machine π) (turn : Nat → Turn) (deliveries : List (Option Transaction)) :
    Except ForgerError Block := do
  let collated ← (transactionForger rules previousBlock request).getTransactions rules m turn
    deliveries
  (makeBlock rules configuration previousBlock request collated).mapError .block

/-- The payload size in the form of a sum. -/
theorem payloadSize_eq (transactions : List Transaction) : payloadSize transactions =
      (transactions.map fun transaction => 4 + transaction.serialized.length).sum := by
  have step : ∀ size, transactions.foldl (fun size transaction =>
      size + transaction.serialized.length) (transactions.length * 4 + size) =
        (transactions.map fun transaction => 4 + transaction.serialized.length).sum + size := by
    induction transactions with
    | nil => simp
    | cons transaction transactions ih =>
      intro size
      rw [foldl_cons, length_cons, map_cons, sum_cons]
      rw [show (transactions.length + 1) * 4 + size + transaction.serialized.length =
        transactions.length * 4 + (4 + size + transaction.serialized.length) by ring, ih]
      ring
  exact step 0

/-- The payload size is the size of what is serialized. -/
theorem length_encodeTransactions (transactions : List Transaction) :
    (encodeTransactions (transactions.map (·.serialized))).length = payloadSize transactions := by
  rw [payloadSize_eq, encodeTransactions, length_flatMap, map_map]
  refine congrArg sum (map_congr_left ?_)
  intro transaction _
  exact FieldType.length_encode_sized _

variable {rules configuration previousBlock request}

/-- A forged block is made of what was collated. -/
theorem forgeBlock_eq_ok {m : Machine π} {turn : Nat → Turn}
    {deliveries : List (Option Transaction)} {block : Block} :
    forgeBlock rules configuration previousBlock request m turn deliveries = .ok block ↔
      ∃ collated, (transactionForger rules previousBlock request).getTransactions rules m turn
          deliveries = .ok collated ∧
        makeBlock rules configuration previousBlock request collated = .ok block := by
  simp only [forgeBlock, bind_eq_ok, mapError_eq_ok]

/-- What is known of a block that was made. -/
theorem makeBlock_eq_ok {collated : Collated} {block : Block}
    (made : makeBlock rules configuration previousBlock request collated = .ok block) :
    block.header = header rules previousBlock request collated ∧
      block.transactions = collated.transactions ∧ block.header.Fits ∧
      blockSchema configuration block.header block.hash block.transactions ∧
      block.serialized.length = headerSize + payloadSize block.transactions := by
  obtain ⟨fits, schema, -, -, rfl⟩ := make_eq_ok.mp made
  refine ⟨rfl, rfl, fits, schema, ?_⟩
  rw [length_append, length_encodeHeader fits, length_encodeTransactions]

end BlockForger

/-- A network with the default gas limit and the given payload. -/
def sampleRules (maxPayload : Nat) : ChainRules where
  sha256 _ := replicate 32 0
  keccak256 _ := replicate 32 0
  genesisHeight := 0
  milestone _ :=
    { maxGasLimit := 10000000, maxPayload, roundValidators := 53, reward := 0
      validatorRegistrationFee := 0, evmSpec := "Osaka" }
  isNewRound _ := false

def sampleBlock : Block where
  header := headerOver []
  hash := replicate 32 0
  transactions := []
  serialized := blockOver []

def sampleTransaction : Transaction where
  data :=
    { network := .finite 10000
      recipient := some (replicate 20 0x11)
      value := 1
      gasPrice := .finite 5000000000
      gasLimit := .finite 21000
      nonce := 1
      data := []
      v := .finite 0
      r := replicate 31 0 ++ [1]
      s := replicate 31 0 ++ [1]
      legacySecondSignature := none
      hash := replicate 32 0
      sender := replicate 20 1
      senderPublicKey := replicate 33 2
      senderLegacyAddress := replicate 21 1 }
  serialized := Rlp.list TransactionFactory.sampleFields

namespace TransactionForger

variable {π : Type} {f : TransactionForger} {rules : ChainRules} {m : Machine π}

/-- What was collated is what the loop included, with the end of the block on top. -/
theorem getTransactions_eq_ok {turn : Nat → Turn} {deliveries : List (Option Transaction)}
    {collated : Collated} :
    f.getTransactions rules m turn deliveries = .ok collated ↔
      ∃ s, f.processTransactions m turn (f.start rules m) 0 deliveries = (s, .ok ()) ∧
        f.finish rules m s.evm = .ok (collated.logsBloom, collated.stateRoot) ∧
        collated.transactions = s.result.transactions ∧ collated.gasUsed = s.result.gasUsed ∧
        collated.fee = s.result.fee := by
  unfold getTransactions
  split
  · next threw => simp [threw]
  · next s done =>
      rw [bind_eq_ok]
      constructor
      · rintro ⟨⟨logsBloom, stateRoot⟩, finished, h⟩
        obtain rfl := ok.inj h
        exact ⟨s, done, mapError_eq_ok.mp finished, rfl, rfl, rfl⟩
      · rintro ⟨s', done', finished, transactions, gasUsed, fee⟩
        obtain rfl : s = s' := congrArg Prod.fst (done.symm.trans done')
        refine ⟨_, mapError_eq_ok.mpr finished, ?_⟩
        cases collated
        subst transactions gasUsed fee
        rfl

end TransactionForger

end Mainsail
