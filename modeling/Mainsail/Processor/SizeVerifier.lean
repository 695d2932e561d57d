import Mainsail.Crypto.Storage
import Mainsail.Forger.BlockForger
import Mainsail.TransactionPool.Selector
import Mathlib.Algebra.Order.BigOperators.Group.List

/-!
# The size of a forged block

`SizeVerifier` refuses a block whose header and payload exceed `maxPayload`. The forger does not look at
that limit: it takes what the pool hands out, and the pool limits the bytes of a batch only. So a forged
block passes in every run exactly if everything that the gas limit of the block lets it take from the
pool would pass.

How much gas a transaction uses is up to the EVM, from its intrinsic gas to its gas limit.
-/

namespace Mainsail

open BlockForger TransactionFactory TransactionForger BlockFactory List TransactionIterable

/-- The limit that the verifier reads from the milestones. -/
def ChainRules.maxPayload (rules : ChainRules) (number : Nat) : Nat :=
  (rules.milestone number).maxPayload

/-! ## What can be taken from the pool -/

/-- What the pool holds: different transactions that the factory has accepted. -/
structure PoolContent (wallets : Wallets) where
  transactions : List Transaction
  distinct : (transactions.map (·.data)).Nodup
  accepted : ∀ transaction ∈ transactions, ∃ configuration,
    fromBytes wallets configuration transaction.serialized = .ok transaction

/-- The gas of a block suffices for the transactions, if each uses its intrinsic gas only. -/
def Affordable (intrinsicGas : TransactionData → Nat) : (gasLeft : Int) → List Transaction → Prop
  | _, [] => True
  | gasLeft, transaction :: transactions =>
    21000 ≤ gasLeft ∧ intrinsicGas transaction.data ≤ gasLeft ∧
      Affordable intrinsicGas (gasLeft - intrinsicGas transaction.data) transactions

/-- The transactions of one sender. -/
def sentBy (sender : Bytes) (transactions : List Transaction) : List Transaction :=
  transactions.filter (·.data.senderPublicKey = sender)

/-- Of each sender, the first ones are taken, and none of a sender that failed. -/
def TakesFirst (failedSenders : List Bytes) (offered taken : List Transaction) : Prop :=
  ∀ sender, sentBy sender taken <+: if sender ∈ failedSenders then [] else sentBy sender offered

/-- A part of what is offered that a block can be filled with. -/
structure Selection (intrinsicGas : TransactionData → Nat) (maxGasLimit : Nat)
    (offered taken : List Transaction) : Prop where
  sublist : taken.Sublist offered
  senders : TakesFirst [] offered taken
  affordable : Affordable intrinsicGas maxGasLimit taken
  limited : ∀ transaction ∈ taken, ∀ gasLimit,
    transaction.data.gasLimit.toBigInt = some gasLimit → intrinsicGas transaction.data ≤ gasLimit

/-- The fee of a transaction that uses its intrinsic gas only. -/
def intrinsicFee (intrinsicGas : TransactionData → Nat) (transaction : Transaction) : Nat :=
  (calculateConsumed transaction.data.gasPrice (intrinsicGas transaction.data)).getD 0

/-- A block of these transactions can be made on top of the previous one: its header has room for all
numbers, and the transactions pass the schema. -/
structure Makeable (rules : ChainRules) (configuration : TransactionConfiguration)
    (previousBlock : Block) (round : Nat) (intrinsicGas : TransactionData → Nat)
    (taken : List Transaction) : Prop where
  number : previousBlock.header.number + 1 < 256 ^ 4
  round : round < 256 ^ 4
  parentHash : previousBlock.hash.length = hashSize
  reward : (rules.milestone (previousBlock.header.number + 1)).reward < 256 ^ 32
  count : taken.length < 256 ^ 2
  gasUsed : (taken.map fun transaction => intrinsicGas transaction.data).sum < 256 ^ 4
  fee : (taken.map (intrinsicFee intrinsicGas)).sum < 256 ^ 32
  payloadSize : payloadSize taken < 256 ^ 4
  strict : ∀ transaction ∈ taken, configuration.transactionStrict transaction.data

section

variable {intrinsicGas : TransactionData → Nat} {offered taken : List Transaction}
variable {transaction : Transaction} {failedSenders : List Bytes} {gasLeft : Int}

section

variable (affordable : Affordable intrinsicGas gasLeft taken)
include affordable

theorem Affordable.mono {gasLeft' : Int}
    (more : gasLeft ≤ gasLeft') : Affordable intrinsicGas gasLeft' taken := by
  induction taken generalizing gasLeft gasLeft' with
  | nil => trivial
  | cons transaction taken ih =>
    obtain ⟨enough, suffices', rest⟩ := affordable
    exact ⟨enough.trans more, suffices'.trans more, ih rest (by omega)⟩

/-- Below the gas of a transfer, nothing is taken. -/
theorem Affordable.eq_nil (low : gasLeft < 21000) : taken = [] := by
  cases taken with
  | nil => rfl
  | cons transaction taken => exact absurd affordable.1 (not_le.mpr low)

end

theorem sentBy_cons (sender : Bytes) (transaction : Transaction) (transactions : List Transaction) :
    sentBy sender (transaction :: transactions) =
      if transaction.data.senderPublicKey = sender then transaction :: sentBy sender transactions
      else sentBy sender transactions := by
  simp [sentBy, filter_cons]

namespace TakesFirst

theorem nil : TakesFirst failedSenders offered [] := fun _ => nil_prefix

theorem skip (failed : transaction.data.senderPublicKey ∈ failedSenders) :
    TakesFirst failedSenders (transaction :: offered) taken ↔
      TakesFirst failedSenders offered taken := by
  refine forall_congr' fun sender => ?_
  split_ifs with here
  · rfl
  · have other : transaction.data.senderPublicKey ≠ sender := by
      rintro rfl
      exact here failed
    rw [sentBy_cons, if_neg other]

theorem take (sound : transaction.data.senderPublicKey ∉ failedSenders) :
    TakesFirst failedSenders (transaction :: offered) (transaction :: taken) ↔
      TakesFirst failedSenders offered taken := by
  refine forall_congr' fun sender => ?_
  rw [sentBy_cons, sentBy_cons]
  by_cases own : transaction.data.senderPublicKey = sender
  · subst own
    rw [if_pos rfl, if_pos rfl, if_neg sound, if_neg sound, cons_prefix_cons, eq_self_iff_true,
      true_and]
  · rw [if_neg own, if_neg own]

theorem fail (takes : TakesFirst (transaction.data.senderPublicKey :: failedSenders) offered taken) :
    TakesFirst failedSenders (transaction :: offered) taken := by
  intro sender
  have this := takes sender
  by_cases own : transaction.data.senderPublicKey = sender
  · rw [if_pos (mem_cons.mpr (.inl own.symm)), prefix_nil] at this
    rw [this]
    exact nil_prefix
  · simpa only [mem_cons, Ne.symm own, false_or, sentBy_cons, if_neg own] using this

/-- If the next transaction is not taken, no later one of its sender is. -/
theorem drop (takes : TakesFirst failedSenders (transaction :: offered) taken)
    (left : transaction ∉ taken) :
    TakesFirst (transaction.data.senderPublicKey :: failedSenders) offered taken := by
  intro sender
  have this := takes sender
  by_cases own : transaction.data.senderPublicKey = sender
  · rw [if_pos (mem_cons.mpr (.inl own.symm)), prefix_nil]
    rw [sentBy_cons, if_pos own] at this
    split_ifs at this with failed
    · exact prefix_nil.mp this
    · cases first : sentBy sender taken with
      | nil => rfl
      | cons t rest =>
        rw [first, cons_prefix_cons] at this
        have member : t ∈ sentBy sender taken := by
          rw [first]
          exact mem_cons_self
        exact absurd (this.1 ▸ mem_of_mem_filter member) left
  · simpa only [mem_cons, Ne.symm own, false_or, sentBy_cons, if_neg own] using this

end TakesFirst

/-! ## What a run takes -/

variable {π : Type} {f : TransactionForger} {rules : ChainRules} {m : Machine π}

variable (metered : m.Metered intrinsicGas)
include metered

/-- The loop takes a part of what is offered, of each sender the first ones, as far as the gas goes. -/
theorem TransactionForger.Loop.takes {s s' : ForgerState π} {deliveries : List (Option Transaction)}
    (loop : f.Loop m s deliveries s') :
    ∃ taken, s'.result.transactions = s.result.transactions ++ taken ∧
      taken.Sublist deliveries.reduceOption ∧
      TakesFirst s.failedSenders deliveries.reduceOption taken ∧
      Affordable intrinsicGas s.result.gasLeft taken ∧
      ∀ transaction ∈ taken, ∀ gasLimit, transaction.data.gasLimit.toBigInt = some gasLimit →
        intrinsicGas transaction.data ≤ gasLimit := by
  induction loop with
  | stop => exact ⟨[], by simp, nil_sublist _, .nil, trivial, by simp⟩
  | skip failed rest ih =>
    obtain ⟨taken, transactions, sublist, senders, affordable, limited⟩ := ih
    exact ⟨taken, transactions, sublist.cons _, (TakesFirst.skip failed).mpr senders, affordable,
      limited⟩
  | turn sound enough pending outcome rest ih =>
    obtain ⟨taken, transactions, sublist, senders, affordable, limited⟩ := ih
    cases outcome with
    | @included receipt fee state evm executes fits pending' =>
      obtain ⟨intrinsic, limit⟩ := metered _ _ _ _ _ _ executes.process
      refine ⟨_ :: taken, ?_, sublist.cons_cons _, (TakesFirst.take sound).mpr senders,
        ⟨enough, ?_, affordable.mono ?_⟩, forall_mem_cons.mpr ⟨?_, limited⟩⟩
      · rw [transactions, append_assoc, singleton_append]
      · omega
      · dsimp only
        omega
      · intro gasLimit limited
        exact intrinsic.trans (limit gasLimit limited)
    | rolledBack executes exceeds pending' =>
      -- The gas is exceeded, so nothing is taken any more.
      obtain rfl := affordable.eq_nil (by dsimp only; omega)
      exact ⟨[], transactions, nil_sublist _, .nil, trivial, by simp⟩
    | failed threw pending' =>
      exact ⟨taken, transactions, sublist.cons _, senders.fail, affordable, limited⟩

/-- A run uses no less than the intrinsic gas, and pays for it. -/
theorem Machine.Runs.intrinsic_le {env : BlockEnv} {specId : String} {gas fees : Nat} {state : π}
    {results : Bytes → Option TransactionReceipt}
    (runs : m.Runs env specId taken gas fees state results) :
    (taken.map fun transaction => intrinsicGas transaction.data).sum ≤ gas ∧
      (taken.map (intrinsicFee intrinsicGas)).sum ≤ fees := by
  induction runs with
  | nil => exact ⟨le_rfl, le_rfl⟩
  | @snoc taken transaction gas fees fee state state' results receipt runs executes ih =>
    have intrinsic := (metered _ _ _ _ _ _ executes.process).1
    have paid : intrinsicFee intrinsicGas transaction ≤ fee := by
      obtain ⟨price, priced, rfl⟩ := Option.map_eq_some_iff.mp executes.fee
      rw [intrinsicFee, calculateConsumed, priced]
      exact Nat.mul_le_mul_left price intrinsic
    simp only [map_append, sum_append, map_singleton, sum_singleton]
    omega

end

/-! ## What the pool offers -/

/-- A transaction as the factory writes it again from its data. -/
def Wallets.rewritten (wallets : Wallets) (transaction : Transaction) : Transaction :=
  (fromPoolData wallets transaction.data).toOption.getD transaction

/-- An accepted transaction can be written again, with the same data. -/
theorem TransactionFactory.fromPoolData_of_fromBytes {wallets : Wallets}
    {configuration : TransactionConfiguration} {serialized : Bytes} {transaction : Transaction}
    (accepted : fromBytes wallets configuration serialized = .ok transaction) :
    (fromPoolData wallets transaction.data).toOption = some (wallets.rewritten transaction) ∧
      (wallets.rewritten transaction).data = transaction.data := by
  obtain ⟨nine, -, -, -, -, written, -⟩ := fields_of_fromBytes accepted
  have read : (fromPoolData wallets transaction.data).toOption = some ⟨transaction.data, Rlp.list (nine ++
      TransactionSerializer.secondSignature transaction.data.toTransactionSerializable)⟩ := by
    rw [fromPoolData, serialize_of_fieldsOf written]
    rfl
  rw [Wallets.rewritten, read]
  exact ⟨rfl, rfl⟩

namespace TransactionIterable

variable {wallets : Wallets}

/-- The pool delivers different transactions, and throws nothing. -/
theorem deliveries_eq (pool : PoolContent wallets) {earlier : PoolContent wallets}
    (blockRound : Nat × Nat) {s : Selector} (held : s.transactions = earlier.transactions) :
    deliveries wallets pool.transactions blockRound s =
        ((waiting pool.transactions blockRound s).map wallets.rewritten).map some ∧
      (((waiting pool.transactions blockRound s).map wallets.rewritten).map (·.data)).Nodup := by
  obtain ⟨content, sublist⟩ : ∃ content : PoolContent wallets,
      (waiting pool.transactions blockRound s).Sublist content.transactions := by
    unfold waiting Selector.prepare
    split_ifs
    · exact ⟨earlier, held ▸ (takeWhile_sublist _).trans (drop_sublist _ _)⟩
    · exact ⟨pool, (takeWhile_sublist _).trans (drop_sublist _ _)⟩
  have readable : ∀ transaction ∈ waiting pool.transactions blockRound s,
      (fromPoolData wallets transaction.data).toOption = some (wallets.rewritten transaction) ∧
        (wallets.rewritten transaction).data = transaction.data := by
    intro transaction member
    obtain ⟨configuration, accepted⟩ := content.accepted transaction (sublist.subset member)
    exact fromPoolData_of_fromBytes accepted
  have data : ((waiting pool.transactions blockRound s).map wallets.rewritten).map (·.data) =
      (waiting pool.transactions blockRound s).map (·.data) := by
    rw [map_map]
    exact map_congr_left fun transaction member => (readable transaction member).2
  rw [data, deliveries, batches_eq, map_map, map_map]
  refine ⟨map_congr_left fun transaction member => (readable transaction member).1, ?_⟩
  exact content.distinct.sublist (sublist.map _)

end TransactionIterable

/-! ## A run that takes a selection -/

/-- An EVM that executes the chosen transactions, with their intrinsic gas, and no others. -/
def selecting (intrinsicGas : TransactionData → Nat) (chosen : List TransactionData) :
    Machine Unit where
  fresh := ()
  process _ _ transaction _ :=
    if transaction ∈ chosen then some (⟨intrinsicGas transaction, []⟩, ()) else none
  systemCall _ _ _ _ := some ()
  stateRoot _ _ _ := some (replicate 32 0)
  logsBloom _ := replicate 256 0

section

variable {intrinsicGas : TransactionData → Nat} {chosen : List TransactionData}
variable {f : TransactionForger} {rules : ChainRules}

theorem selecting_process {env : BlockEnv} {specId : String} {transaction : TransactionData}
    {receipt : TransactionReceipt} {state state' : Unit}
    (executed : (selecting intrinsicGas chosen).process env specId transaction state =
      some (receipt, state')) :
    transaction ∈ chosen ∧ receipt.gasUsed = intrinsicGas transaction := by
  obtain ⟨member, same⟩ := Option.ite_none_right_eq_some.mp executed
  obtain ⟨rfl, -⟩ := Prod.mk.inj (Option.some.inj same)
  exact ⟨member, rfl⟩

/-- The chosen transactions use their intrinsic gas. -/
theorem selecting_runs {env : BlockEnv} {specId : String} {taken : List Transaction}
    {gas fees : Nat} {state : Unit} {results : Bytes → Option TransactionReceipt}
    (runs : (selecting intrinsicGas chosen).Runs env specId taken gas fees state results) :
    gas = (taken.map fun transaction => intrinsicGas transaction.data).sum ∧
      fees = (taken.map (intrinsicFee intrinsicGas)).sum := by
  induction runs with
  | nil => exact ⟨rfl, rfl⟩
  | @snoc taken transaction gas fees fee state state' results receipt runs executes ih =>
    have used := (selecting_process executes.process).2
    have paid : intrinsicFee intrinsicGas transaction = fee := by
      rw [intrinsicFee, ← used, executes.fee]
      rfl
    simp only [map_append, sum_append, map_singleton, sum_singleton]
    omega

/-- The numbers of a transaction that passes the schema are integers. -/
theorem TransactionConfiguration.toBigInt_of_transactionStrict
    {configuration : TransactionConfiguration} {transaction : TransactionData}
    (strict : configuration.transactionStrict transaction) :
    transaction.gasLimit.toBigInt.isSome ∧ transaction.gasPrice.toBigInt.isSome := by
  have nonneg : ∀ {value : Int}, 0 ≤ value → (Double.finite value).toBigInt.isSome := by
    intro value nonneg
    obtain ⟨n, rfl⟩ := Int.eq_ofNat_of_zero_le nonneg
    rfl
  simp only [transactionStrict, decide_eq_true_eq] at strict
  obtain ⟨-, -, -, -, limit, price, -⟩ := strict
  constructor
  · cases limited : transaction.gasLimit with
    | infinite => simp [limited, transactionGasLimit] at limit
    | finite value =>
      simp only [limited, transactionGasLimit, decide_eq_true_eq] at limit
      exact nonneg (by omega)
  · cases priced : transaction.gasPrice with
    | infinite => simp [priced, transactionGasPrice] at price
    | finite value =>
      simp only [priced, transactionGasPrice] at price
      split_ifs at price with low
      · simp only [decide_eq_true_eq] at price
        exact nonneg (by omega)
      · exact nonneg (by omega)

variable {offered taken : List Transaction}

theorem sublist_of_notMem {transaction : Transaction}
    (sublist : taken.Sublist (transaction :: offered)) (left : transaction ∉ taken) :
    taken.Sublist offered := by
  obtain rest | ⟨taken, rfl, -⟩ := sublist_cons_iff.mp sublist
  · exact rest
  · exact absurd mem_cons_self left

theorem exists_cons_of_mem {transaction : Transaction}
    (sublist : taken.Sublist (transaction :: offered)) (member : transaction ∈ taken)
    (new : transaction.data ∉ offered.map (·.data)) :
    ∃ taken', taken = transaction :: taken' ∧ taken'.Sublist offered := by
  obtain rest | first := sublist_cons_iff.mp sublist
  · exact absurd (mem_map_of_mem (rest.subset member)) new
  · exact first

/-- With this EVM, and if no time limit is reached, exactly the chosen transactions are taken. -/
theorem processTransactions_selecting {s : ForgerState Unit}
    {index : Nat} {turn : Nat → Turn} (quiet : ∀ index, turn index = ⟨false, false⟩)
    (metered : (selecting intrinsicGas chosen).Metered intrinsicGas)
    (sound : f.Sound rules (selecting intrinsicGas chosen) s)
    (distinct : (offered.map (·.data)).Nodup) (sublist : taken.Sublist offered)
    (chooses : ∀ transaction ∈ offered, transaction.data ∈ chosen ↔ transaction ∈ taken)
    (senders : TakesFirst s.failedSenders offered taken)
    (affordable : Affordable intrinsicGas s.result.gasLeft taken)
    (numbers : ∀ transaction ∈ taken,
      transaction.data.gasLimit.toBigInt.isSome ∧ transaction.data.gasPrice.toBigInt.isSome) :
    ∃ s', f.processTransactions (selecting intrinsicGas chosen) turn s index (offered.map some) =
        (s', .ok ()) ∧ s'.result.transactions = s.result.transactions ++ taken := by
  induction offered generalizing s taken index with
  | nil =>
    obtain rfl := sublist_nil.mp sublist
    exact ⟨s, rfl, (append_nil _).symm⟩
  | cons transaction offered ih =>
    obtain ⟨new, distinct⟩ := nodup_cons.mp distinct
    obtain ⟨here, chooses⟩ := forall_mem_cons.mp chooses
    rw [map_cons, processTransactions, quiet]
    simp only [Bool.false_eq_true, if_false]
    split_ifs with failed low
    · have left : transaction ∉ taken := by
        intro member
        have none := senders transaction.data.senderPublicKey
        rw [if_pos failed, prefix_nil, sentBy, filter_eq_nil_iff] at none
        exact none transaction member (decide_eq_true rfl)
      exact ih sound distinct (sublist_of_notMem sublist left) chooses
        ((TakesFirst.skip failed).mp senders) affordable numbers
    · obtain rfl := affordable.eq_nil low
      exact ⟨s, rfl, (append_nil _).symm⟩
    · obtain ⟨p, pending, context, -⟩ := sound.pending
      have keyed : p.context.commitKey = f.commitKey := congrArg BlockContext.commitKey context
      obtain ⟨s₁, processed, outcome⟩ | ⟨fails, -⟩ :=
        processTransaction_spec metered pending keyed transaction false
      · rw [processed]
        dsimp only
        have sound' := sound.outcome pending outcome
        by_cases member : transaction ∈ taken
        · obtain ⟨taken, rfl, rest⟩ := exists_cons_of_mem sublist member new
          obtain ⟨own, numbers⟩ := forall_mem_cons.mp numbers
          have chooses : ∀ t ∈ offered, t.data ∈ chosen ↔ t ∈ taken := by
            intro t offers
            rw [chooses t offers, mem_cons, or_iff_right]
            rintro rfl
            exact new (mem_map_of_mem offers)
          cases outcome with
          | included executes fits _ =>
            have used := (selecting_process executes.process).2
            obtain ⟨s', done, transactions⟩ := ih sound' distinct rest chooses
              ((TakesFirst.take failed).mp senders)
              (affordable.2.2.mono (by dsimp only; omega)) numbers
            refine ⟨s', done, ?_⟩
            rw [transactions, append_assoc, singleton_append]
          | rolledBack executes exceeds _ =>
            have used := (selecting_process executes.process).2
            have enough := affordable.2.1
            omega
          | failed threw _ =>
            obtain ⟨price, priced⟩ := Option.isSome_iff_exists.mp own.2
            refine absurd ⟨own.1, ?_, ?_⟩ (threw ⟨intrinsicGas transaction.data, []⟩
              (price * intrinsicGas transaction.data) ())
            · rw [calculateConsumed, priced]
              rfl
            · exact if_pos (here.mpr mem_cons_self)
        · cases outcome with
          | included executes _ _ | rolledBack executes _ _ =>
            exact absurd (here.mp (selecting_process executes.process).1) member
          | failed threw _ =>
            exact ih sound' distinct (sublist_of_notMem sublist member) chooses
              (senders.drop member) affordable numbers
      · cases fails

variable {configuration : TransactionConfiguration} {previousBlock : Block} {round : Nat}
variable {wallets : Wallets} {earlier : PoolContent wallets} {s : Selector}

/-- What is collated from a selection. -/
def collatedFrom (intrinsicGas : TransactionData → Nat) (taken : List Transaction) :
    Collated where
  logsBloom := replicate 256 0
  stateRoot := replicate 32 0
  transactions := taken
  gasUsed := (taken.map fun transaction => intrinsicGas transaction.data).sum
  fee := (taken.map (intrinsicFee intrinsicGas)).sum

theorem selecting_endBlock (env : BlockEnv) (milestone : BlockMilestone) (state : Unit) :
    (selecting intrinsicGas chosen).endBlock rules env milestone state = some () := by
  simp [Machine.endBlock, selecting]

theorem getTransactions_selecting (later : f.commitKey.blockNumber ≠ rules.genesisHeight)
    (next : f.commitKey.blockNumber = f.previousBlock.header.number + 1)
    (distinct : (offered.map (·.data)).Nodup)
    (selection : Selection intrinsicGas f.milestone.maxGasLimit offered taken)
    (metered : (selecting intrinsicGas (taken.map (·.data))).Metered intrinsicGas)
    (numbers : ∀ transaction ∈ taken,
      transaction.data.gasLimit.toBigInt.isSome ∧ transaction.data.gasPrice.toBigInt.isSome) :
    f.getTransactions rules (selecting intrinsicGas (taken.map (·.data))) (fun _ => ⟨false, false⟩)
      (offered.map some) = .ok (collatedFrom intrinsicGas taken) := by
  have sound := sound_start (m := selecting intrinsicGas (taken.map (·.data))) later
  have chooses : ∀ transaction ∈ offered,
      transaction.data ∈ taken.map (·.data) ↔ transaction ∈ taken := by
    intro transaction offers
    refine ⟨fun chosen => ?_, mem_map_of_mem⟩
    obtain ⟨transaction', member, same⟩ := mem_map.mp chosen
    rwa [← inj_on_of_nodup_map distinct (selection.sublist.subset member) offers same]
  obtain ⟨s, done, transactions⟩ := processTransactions_selecting (fun _ => rfl)
    metered sound distinct selection.sublist chooses selection.senders selection.affordable numbers
  have sound' := sound.loop (loop_of_processTransactions metered sound done)
  obtain ⟨p, pending, context, unbuilt, runs⟩ := sound'.pending
  rw [transactions] at runs
  obtain ⟨gasUsed, fee⟩ := selecting_runs runs
  refine getTransactions_eq_ok.mpr ⟨s, done, ?_, transactions.symm, gasUsed.symm, fee.symm⟩
  exact (finish_eq_ok pending context unbuilt next).mpr ⟨(), selecting_endBlock _ _ _, rfl, rfl⟩

theorem makeBlock_of_makeable (hashes : ∀ bytes, (rules.sha256 bytes).length = hashSize)
    {taken : List Transaction} {request : ForgeRequest} (timestamp : request.timestamp = 0)
    (generator : request.generatorAddress.length = addressSize)
    (reveal : request.randaoReveal.length = 96)
    (makeable : Makeable rules configuration previousBlock request.round intrinsicGas taken) :
    ∃ block, makeBlock rules configuration previousBlock request
        (collatedFrom intrinsicGas taken) = .ok block ∧ block.transactions = taken := by
  have fits : (header rules previousBlock request (collatedFrom intrinsicGas taken)).Fits := by
    refine BlockHeaderRaw.fits_iff.mpr ⟨?_, ?_, makeable.number, makeable.round,
      makeable.parentHash, length_replicate, length_replicate, makeable.count,
      makeable.gasUsed, makeable.fee, makeable.reward, makeable.payloadSize, hashes _, generator,
      reveal, trivial⟩
    · exact (by decide : 1 < 256 ^ 1)
    · rw [header, timestamp]
      exact (by decide : 0 < 256 ^ 6)
  have small : ∀ transaction ∈ taken, transaction.serialized.length < 256 ^ 4 := by
    intro transaction member
    have total := makeable.payloadSize
    obtain ⟨before, after, rfl⟩ := append_of_mem member
    rw [payloadSize_eq, map_append, map_cons, sum_append, sum_cons] at total
    omega
  refine ⟨_, make_eq_ok.mpr ⟨fits, ?_, small, ?_, rfl⟩, rfl⟩
  · simp only [blockSchema, decide_eq_true_eq]
    refine ⟨?_, rfl, all_eq_true.mpr makeable.strict⟩
    have width : 256 ^ 32 = 2 ^ 256 := by norm_num
    simp only [headerSchema, decide_eq_true_eq]
    refine ⟨hashes _, rfl, ?_, makeable.parentHash, length_replicate, length_replicate,
      width ▸ makeable.fee, width ▸ makeable.reward, hashes _, generator, reveal⟩
    rw [header, timestamp]
    exact Nat.zero_le _
  · exact (length_encodeTransactions taken).le

/-- Everything that the gas allows to take is taken in some run. -/
theorem exists_forged_of_selection (pool : PoolContent wallets)
    (hashes : ∀ bytes, (rules.sha256 bytes).length = hashSize)
    (later : rules.genesisHeight ≤ previousBlock.header.number)
    (held : s.transactions = earlier.transactions) {taken : List Transaction}
    (selection : Selection intrinsicGas
      (rules.milestone (previousBlock.header.number + 1)).maxGasLimit
      ((waiting pool.transactions
        (previousBlock.header.number + 1, round) s).map wallets.rewritten) taken)
    (makeable : Makeable rules configuration previousBlock round intrinsicGas taken) :
    ∃ m : Machine Unit, m.Metered intrinsicGas ∧ ∃ turn request block, request.round = round ∧
      forgeBlock rules configuration previousBlock request m turn
        (deliveries wallets pool.transactions
          (previousBlock.header.number + 1, round) s) = .ok block ∧
      block.transactions = taken := by
  have metered : (selecting intrinsicGas (taken.map (·.data))).Metered intrinsicGas := by
    intro env specId transaction state receipt state' executed
    obtain ⟨chosen, used⟩ := selecting_process executed
    obtain ⟨transaction, member, rfl⟩ := mem_map.mp chosen
    refine ⟨used.ge, fun gasLimit limited => ?_⟩
    rw [used]
    exact selection.limited transaction member gasLimit limited
  obtain ⟨delivers, distinct⟩ := deliveries_eq pool
    (previousBlock.header.number + 1, round) held
  let request : ForgeRequest :=
    { generatorAddress := replicate 20 1, round, timestamp := 0
      randaoReveal := replicate 96 0 }
  obtain ⟨block, made, transactions⟩ : ∃ block, makeBlock rules configuration
      previousBlock request (collatedFrom intrinsicGas taken) = .ok block ∧
      block.transactions = taken :=
    makeBlock_of_makeable hashes rfl rfl rfl makeable
  refine ⟨_, metered, fun _ => ⟨false, false⟩, request, block, rfl, ?_, transactions⟩
  rw [delivers]
  refine forgeBlock_eq_ok.mpr ⟨collatedFrom intrinsicGas taken, ?_, made⟩
  refine getTransactions_selecting ?_ rfl distinct selection metered ?_
  · have := Nat.lt_succ_of_le later
    exact this.ne'
  · intro transaction member
    exact TransactionConfiguration.toBigInt_of_transactionStrict (makeable.strict transaction member)

/-- What is taken in a run is a selection that a block can be made of. -/
theorem selection_of_forgeBlock {π : Type} {m : Machine π} (metered : m.Metered intrinsicGas)
    (later : rules.genesisHeight ≤ previousBlock.header.number) {request : ForgeRequest}
    {turn : Nat → Turn} {deliveries : List (Option Transaction)} {block : Block}
    (forged : forgeBlock rules configuration previousBlock request m turn deliveries = .ok block) :
    Selection intrinsicGas (rules.milestone (previousBlock.header.number + 1)).maxGasLimit
        deliveries.reduceOption block.transactions ∧
      Makeable rules configuration previousBlock request.round intrinsicGas block.transactions := by
  obtain ⟨collated, collates, made⟩ := forgeBlock_eq_ok.mp forged
  obtain ⟨s, done, -, included, gas, fees⟩ := getTransactions_eq_ok.mp collates
  obtain ⟨header, transactions, fits, schema, -⟩ := makeBlock_eq_ok made
  have sound := @sound_start π (transactionForger rules previousBlock request) rules m
    (Nat.lt_succ_of_le later).ne'
  have loop := loop_of_processTransactions metered sound done
  obtain ⟨taken, takes, sublist, senders, affordable, limited⟩ := loop.takes metered
  obtain rfl : block.transactions = taken := by rw [transactions, included, takes]; rfl
  obtain ⟨p, -, -, -, runs⟩ := (sound.loop loop).pending
  rw [← included, ← transactions, ← gas, ← fees] at runs
  obtain ⟨gasUsed, fee⟩ := runs.intrinsic_le metered
  obtain ⟨-, -, number, round, parentHash, -, -, count, gasFits, feeFits, reward, payloadSize, -⟩ :=
    BlockHeaderRaw.fits_iff.mp fits
  rw [header] at number round parentHash count gasFits feeFits reward payloadSize
  simp only [blockSchema, decide_eq_true_eq] at schema
  refine ⟨⟨sublist, senders, affordable, limited⟩, ?_⟩
  exact {
    number, round, parentHash, reward
    count := transactions ▸ count
    gasUsed := gasUsed.trans_lt gasFits
    fee := fee.trans_lt feeFits
    payloadSize := transactions ▸ payloadSize
    strict := all_eq_true.mp schema.2.2 }

end

namespace SizeVerifier

variable {rules : ChainRules} {configuration : TransactionConfiguration} {previousBlock : Block}

/-- The sizes of a forged block agree, so that only the limit is left to check. -/
theorem execute_eq_ok_iff {request : ForgeRequest} {collated : Collated} {block : Block}
    (made : makeBlock rules configuration previousBlock request collated = .ok block) :
    block.header.payloadSize = payloadSize block.transactions ∧
      (execute rules.maxPayload block = .ok () ↔
        BlockSerializer.headerSize + payloadSize block.transactions ≤
          (rules.milestone (previousBlock.header.number + 1)).maxPayload) := by
  obtain ⟨header, transactions, -, -, serialized⟩ := makeBlock_eq_ok made
  have payload : block.header.payloadSize = payloadSize block.transactions := by
    rw [header, transactions]
    rfl
  have number : block.header.number = previousBlock.header.number + 1 := by
    rw [header]
    rfl
  have total : block.transactions.foldl
      (fun size transaction => size + transaction.serialized.length)
      (block.transactions.length * 4) = payloadSize block.transactions := rfl
  refine ⟨payload, ?_⟩
  simp only [execute, ChainRules.maxPayload, serialized, payload, number, total, ne_eq,
    not_true_eq_false, if_false]
  split_ifs with exceeds
  · simp [not_le.mpr exceeds]
  · simp [not_lt.mp exceeds]

/-- Every block that can be forged for a round passes the verifier, and its payload size is that of its
transactions. -/
def AlwaysPasses (rules : ChainRules) (configuration : TransactionConfiguration)
    (previousBlock : Block) (round : Nat) (intrinsicGas : TransactionData → Nat)
    {wallets : Wallets} (pool : PoolContent wallets) (s : Selector) : Prop :=
  ∀ (π : Type) (m : Machine π), m.Metered intrinsicGas → ∀ turn request block,
    request.round = round →
    forgeBlock rules configuration previousBlock request m turn
      (deliveries wallets pool.transactions
        (previousBlock.header.number + 1, round) s) = .ok block →
    execute rules.maxPayload block = .ok () ∧
      block.header.payloadSize ≤ (rules.milestone block.header.number).maxPayload ∧
      block.header.payloadSize =
        (block.transactions.map fun transaction => 4 + transaction.serialized.length).sum

/-- Every selection of the transactions that wait in the pool, each as it is written again, that a block
can be made of is within `maxPayload`. -/
def SelectionsFit (rules : ChainRules) (configuration : TransactionConfiguration)
    (previousBlock : Block) (round : Nat) (intrinsicGas : TransactionData → Nat)
    {wallets : Wallets} (pool : PoolContent wallets) (s : Selector) : Prop :=
  ∀ taken, Selection intrinsicGas (rules.milestone (previousBlock.header.number + 1)).maxGasLimit
      ((waiting pool.transactions (previousBlock.header.number + 1, round)
        s).map wallets.rewritten) taken →
    Makeable rules configuration previousBlock round intrinsicGas taken →
    BlockSerializer.headerSize + payloadSize taken ≤
      (rules.milestone (previousBlock.header.number + 1)).maxPayload

/-- A forged block is within the limit exactly if everything that waits in the pool and that the gas
allows is. -/
theorem alwaysPasses_iff_selectionsFit {wallets : Wallets} (pool : PoolContent wallets)
    {earlier : PoolContent wallets} {s : Selector} {intrinsicGas : TransactionData → Nat}
    {round : Nat}
    (hashes : ∀ bytes, (rules.sha256 bytes).length = hashSize)
    (later : rules.genesisHeight ≤ previousBlock.header.number)
    (held : s.transactions = earlier.transactions) :
    AlwaysPasses rules configuration previousBlock round intrinsicGas pool s ↔
      SelectionsFit rules configuration previousBlock round intrinsicGas pool s := by
  constructor
  · intro passes taken selection makeable
    obtain ⟨m, metered, turn, request, block, rfl, forged, rfl⟩ :=
      exists_forged_of_selection pool hashes later held selection makeable
    obtain ⟨collated, -, made⟩ := forgeBlock_eq_ok.mp forged
    exact (execute_eq_ok_iff made).2.mp (passes Unit m metered turn request block rfl forged).1
  · intro fit π m metered turn request block sameRound forged
    subst sameRound
    obtain ⟨selection, makeable⟩ := selection_of_forgeBlock metered later forged
    obtain ⟨collated, -, made⟩ := forgeBlock_eq_ok.mp forged
    obtain ⟨payload, passes⟩ := execute_eq_ok_iff made
    rw [(deliveries_eq pool _ held).1] at selection
    change Selection _ _ (filterMap id _) _ at selection
    rw [filterMap_map, Function.id_comp, filterMap_some] at selection
    have within := fit block.transactions selection makeable
    have number : block.header.number = previousBlock.header.number + 1 := by
      rw [(makeBlock_eq_ok made).1]
      rfl
    refine ⟨passes.mpr within, ?_, by rw [payload, payloadSize_eq]⟩
    rw [payload, number]
    omega

/-! ## A pool of three transfers -/

/-- The first byte of a key is the last of `r`. -/
def poolWallets : Wallets :=
  { sampleWallets with recoverPublicKey := fun _ r _ _ => some (r.drop 31 ++ replicate 32 2) }

def transfer (nonce key : UInt8) : Transaction where
  data := { sampleTransaction.data with
    nonce := nonce.toNat, r := replicate 31 0 ++ [key], senderPublicKey := key :: replicate 32 2 }
  serialized := Rlp.list ((sampleFields.set 0 [nonce]).set 7 [key])

/-- Two transfers of one sender, and one of another. -/
def samplePool : PoolContent poolWallets where
  transactions := [transfer 1 1, transfer 2 1, transfer 1 2]
  distinct := by decide +kernel
  accepted := by
    have accepted : ∀ transaction ∈ [transfer 1 1, transfer 2 1, transfer 1 2],
        fromBytes poolWallets devnet transaction.serialized = .ok transaction := by
      decide +kernel
    exact fun transaction member => ⟨devnet, accepted transaction member⟩

/-- All of them were handed out for the last block. -/
def sampleSelector : Selector := ⟨samplePool.transactions, some (2, 0), 3⟩

theorem waiting_sample : (waiting samplePool.transactions (3, 0)
    sampleSelector).map poolWallets.rewritten = samplePool.transactions := by
  decide +kernel

theorem makeable_sample (maxPayload : Nat) : Makeable (sampleRules maxPayload)
    devnet sampleBlock 0 (fun _ => 21000) samplePool.transactions where
  number := by decide
  round := by decide
  parentHash := rfl
  reward := (by decide : 0 < 256 ^ 32)
  count := by decide
  gasUsed := by decide
  fee := by decide +kernel
  payloadSize := by decide +kernel
  strict := by decide +kernel

/-- All of them can be taken. -/
theorem selection_sample :
    Selection (fun _ => 21000) 10000000 samplePool.transactions samplePool.transactions where
  sublist := .refl _
  senders _ := by simp
  affordable := by simp [Affordable, samplePool]
  limited := by
    intro transaction member gasLimit limited
    have same : ∀ transaction ∈ samplePool.transactions,
        transaction.data.gasLimit.toBigInt = some 21000 := by
      decide +kernel
    rw [same transaction member] at limited
    cases limited
    exact le_rfl

/-- With room for the three transfers every block passes. -/
theorem alwaysPasses_iff_selectionsFit_sample :
    AlwaysPasses (sampleRules 686) devnet sampleBlock 0 (fun _ => 21000)
      samplePool sampleSelector := by
  have held : sampleSelector.transactions = samplePool.transactions := rfl
  refine (alwaysPasses_iff_selectionsFit samplePool (fun _ => length_replicate) (by decide)
    held).mpr ?_
  intro taken selection _
  have sublist : taken.Sublist samplePool.transactions := waiting_sample ▸ selection.sublist
  have size : payloadSize taken ≤ payloadSize samplePool.transactions := by
    rw [payloadSize_eq, payloadSize_eq]
    exact (sublist.map _).sum_le_sum (by simp)
  have whole : payloadSize samplePool.transactions = 129 := by decide +kernel
  exact Nat.add_le_add_left (whole ▸ size) _

/-- With one byte less, a block of all three is too large. -/
theorem exists_forged_too_large :
    ∃ m : Machine Unit, m.Metered (fun _ => 21000) ∧ ∃ turn request block,
      forgeBlock (sampleRules 685) devnet sampleBlock request m turn
        (deliveries poolWallets samplePool.transactions (3, request.round)
          sampleSelector) = .ok block ∧
      execute (sampleRules 685).maxPayload block = .error (.maxPayloadExceeded 686 685) := by
  have held : sampleSelector.transactions = samplePool.transactions := rfl
  obtain ⟨m, metered, turn, request, block, round, forged, transactions⟩ :=
    exists_forged_of_selection samplePool (fun _ => length_replicate) (by decide) held
      (waiting_sample ▸ selection_sample) (makeable_sample 685)
  obtain ⟨collated, -, made⟩ := forgeBlock_eq_ok.mp forged
  refine ⟨m, metered, turn, request, block, round ▸ forged, ?_⟩
  have payload := (execute_eq_ok_iff made).1
  have size : BlockSerializer.headerSize + block.header.payloadSize = 686 := by
    rw [payload, transactions]
    decide +kernel
  rw [execute, size]
  rfl

end SizeVerifier

end Mainsail
