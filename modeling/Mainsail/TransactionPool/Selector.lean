import Mainsail.Crypto.Transactions

/-!
# What the pool hands to the forger

`Selector` takes the transactions of the pool by priority, once for each block and round, and hands
them out in batches. `TransactionIterable` asks for batches until one is empty. The limits are those of
one batch: together, the batches are all transactions up to the first one that is too large for a batch
of its own.
-/

namespace Mainsail

open List

/-- The block and the round are one text in the source; there is none at first. -/
structure Selector where
  transactions : List Transaction := []
  currentBlockRound : Option (Nat × Nat) := none
  index : Nat := 0
  deriving DecidableEq, Repr

structure GetBatchOptions where
  blockRound : Nat × Nat
  maxBytes : Nat
  maxSize : Nat
  deriving DecidableEq, Repr

namespace Selector

/-- The transactions of the pool are given from the highest priority. -/
def prepare (pool : List Transaction) (blockRound : Nat × Nat) (s : Selector) : Selector :=
  if s.currentBlockRound = some blockRound then s
  else { transactions := pool, currentBlockRound := some blockRound, index := 0 }

/-- The loop of `getBatch`, over what is left. -/
def fill (maxSize : Nat) : (bytesLeft size : Nat) → List Transaction → List Transaction
  | _, _, [] => []
  | bytesLeft, size, transaction :: rest =>
    if bytesLeft < 4 + transaction.serialized.length then []
    else if size + 1 ≥ maxSize then [transaction]
    else
      transaction :: fill maxSize (bytesLeft - 4 - transaction.serialized.length) (size + 1) rest

/-- What is left to hand out. -/
def left (s : Selector) : List Transaction := s.transactions.drop s.index

def getBatch (pool : List Transaction) (options : GetBatchOptions) (s : Selector) :
    List TransactionData × Selector :=
  let s := s.prepare pool options.blockRound
  let batch := fill options.maxSize options.maxBytes 0 s.left
  (batch.map (·.data), { s with index := s.index + batch.length })

/-! ## A batch -/

theorem prepare_prepare (pool : List Transaction) (blockRound : Nat × Nat) (s : Selector) :
    (s.prepare pool blockRound).currentBlockRound = some blockRound := by
  unfold prepare
  split_ifs with current
  · exact current
  · rfl

theorem prepare_of_current {pool : List Transaction} {blockRound : Nat × Nat} {s : Selector}
    (current : s.currentBlockRound = some blockRound) : s.prepare pool blockRound = s :=
  if_pos current

/-- The next batch continues after this one. -/
theorem left_getBatch (pool : List Transaction) (options : GetBatchOptions) (s : Selector) :
    ((s.getBatch pool options).2.prepare pool options.blockRound).left =
      (s.prepare pool options.blockRound).left.drop (s.getBatch pool options).1.length := by
  have current := prepare_prepare pool options.blockRound s
  have same : (s.getBatch pool options).2.prepare pool options.blockRound =
      (s.getBatch pool options).2 := prepare_of_current current
  rw [same]
  simp only [getBatch, left, drop_drop, length_map]

/-- A transaction that fits into a batch of its own. -/
def Fits (maxBytes : Nat) (transaction : Transaction) : Bool :=
  4 + transaction.serialized.length ≤ maxBytes

/-- A batch is a part of what is left, and everything in it fits. -/
theorem fill_append (maxSize : Nat) {maxBytes bytesLeft : Nat} (size : Nat)
    (within : bytesLeft ≤ maxBytes) (rest : List Transaction) :
    (∀ transaction ∈ fill maxSize bytesLeft size rest, Fits maxBytes transaction) ∧
      fill maxSize bytesLeft size rest ++ rest.drop (fill maxSize bytesLeft size rest).length =
        rest := by
  induction rest generalizing bytesLeft size with
  | nil => simp [fill]
  | cons transaction rest ih =>
    rw [fill]
    split_ifs with large last
    · simp
    · refine ⟨?_, rfl⟩
      intro t member
      obtain rfl := mem_singleton.mp member
      exact decide_eq_true (by omega)
    · obtain ⟨each, whole⟩ := ih (size + 1)
        (show bytesLeft - 4 - transaction.serialized.length ≤ maxBytes by omega)
      refine ⟨forall_mem_cons.mpr ⟨decide_eq_true (by omega), each⟩, ?_⟩
      rw [cons_append, length_cons, drop_succ_cons, whole]

/-- A batch is empty only if nothing is left or the next transaction is too large. -/
theorem takeWhile_of_fill_eq_nil {maxSize maxBytes : Nat} {rest : List Transaction}
    (empty : fill maxSize maxBytes 0 rest = []) : rest.takeWhile (Fits maxBytes) = [] := by
  cases rest with
  | nil => rfl
  | cons transaction rest =>
    rw [fill] at empty
    split_ifs at empty with large
    rw [takeWhile_cons_of_neg]
    simpa [Fits] using large

end Selector

/-! ## The iteration -/

namespace TransactionIterable

/-- The options that a batch is asked with. -/
def options (blockRound : Nat × Nat) : GetBatchOptions where
  blockRound := blockRound
  maxBytes := 10000000
  maxSize := 100

open Selector

/-- The data of the transactions that the iteration reads, batch after batch. -/
def batches (pool : List Transaction) (blockRound : Nat × Nat) (s : Selector) :
    List TransactionData :=
  let batch := s.getBatch pool (options blockRound)
  if batch.1 = [] then [] else batch.1 ++ batches pool blockRound batch.2
termination_by (s.prepare pool blockRound).left.length
decreasing_by next nonempty =>
    have positive : 0 < (s.getBatch pool (options blockRound)).1.length :=
      length_pos_of_ne_nil nonempty
    have size := congrArg length (fill_append 100 0 (le_refl 10000000)
      (s.prepare pool blockRound).left).2
    have same : (s.getBatch pool (options blockRound)).1.length =
        (fill 100 10000000 0 (s.prepare pool blockRound).left).length :=
      length_map _
    have next := congrArg length (left_getBatch pool (options blockRound) s)
    rw [length_append, length_drop] at size
    rw [length_drop] at next
    change (prepare pool blockRound (s.getBatch pool (options blockRound)).2).left.length =
      (s.prepare pool blockRound).left.length - _ at next
    omega

/-- What is yielded. The factory may throw. -/
def deliveries (wallets : Wallets) (pool : List Transaction) (blockRound : Nat × Nat)
    (s : Selector) : List (Option Transaction) :=
  (batches pool blockRound s).map fun data =>
    (TransactionFactory.fromPoolData wallets data).toOption

/-- The transactions of the pool that wait for a block and round: those that have not been handed out,
up to the first one that is too large for a batch. -/
def waiting (pool : List Transaction) (blockRound : Nat × Nat) (s : Selector) : List Transaction :=
  (s.prepare pool blockRound).left.takeWhile (Fits 10000000)

/-- The limits of a batch do not limit the batches. -/
theorem batches_eq (pool : List Transaction) (blockRound : Nat × Nat) (s : Selector) :
    batches pool blockRound s = (waiting pool blockRound s).map (·.data) := by
  fun_induction batches pool blockRound s with
  | case1 s batch empty =>
    have nothing := takeWhile_of_fill_eq_nil (map_eq_nil_iff.mp empty)
    rw [waiting]
    exact (congrArg (map _) nothing).symm
  | case2 s batch nonempty ih =>
    obtain ⟨each, whole⟩ := fill_append 100 0 (le_refl 10000000) (s.prepare pool blockRound).left
    have next := left_getBatch pool (options blockRound) s
    rw [show (s.getBatch pool (options blockRound)).1.length = _ from length_map _] at next
    rw [ih, waiting, waiting]
    conv_rhs => rw [← whole, takeWhile_append_of_pos each, map_append]
    rw [show (batch.2.prepare pool blockRound).left = _ from next]
    rfl

end TransactionIterable

end Mainsail
