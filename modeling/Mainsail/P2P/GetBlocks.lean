import Mainsail.Crypto.Storage
import Mathlib.Algebra.Group.Action.Defs
import Mathlib.Algebra.Order.BigOperators.Group.List

/-!
# Requests for blocks

`GetBlocksController` answers a request for a range of blocks with as many of them as fit into a
budget, for which each block counts with its payload and a fixed cost. `BlockDownloader` takes a reply
in which blocks are missing as a fault of the peer unless the bytes that it got leave no room for
another block. The two do not count in the same way.
-/

namespace Mainsail.P2P

open BlockSerializer CommitSerializer SizeVerifier List Nat

def maxDownloadBlocks : Nat := 400

/-- `MAX_PAYLOAD_CLIENT`. -/
def maxPayloadClient : Nat := 5 * 1024 ^ 2

def protoBlockOverhead : Nat := 5

def responseEnvelopeReserve : Nat := 512

structure GetBlocksRequest where
  fromBlockNumber : Nat
  limit : Nat
  deriving DecidableEq, Repr

/-- The schema of a request. -/
def GetBlocksRequest.Valid (request : GetBlocksRequest) : Prop :=
  1 ≤ request.limit ∧ request.limit ≤ maxDownloadBlocks

/-! ## The serving node -/

def perCommitOverheadBytes : Nat := 1024

/-- The loop of `get_commits_by_block_range`, over the commits of the range. -/
def withinBudget (maxBytes : Nat) : (accumulated : Nat) → List SerializedCommit → List SerializedCommit
  | _, [] => []
  | accumulated, commit :: commits =>
    let accumulated := accumulated + (commit.block.header.payloadSize + perCommitOverheadBytes)
    if accumulated > maxBytes then [] else commit :: withinBudget maxBytes accumulated commits

inductive RangeError
  | fromAboveTo
  | maxBytesZero
  deriving DecidableEq, Repr

/-- The commits of the database are given in the order of their numbers. -/
def getCommitsByBlockRange (commits : List SerializedCommit) (first last maxBytes : Nat) :
    Except RangeError (List SerializedCommit) :=
  if first > last then .error .fromAboveTo
  else if maxBytes = 0 then .error .maxBytesZero
  else .ok (withinBudget maxBytes 0 (commits.filter fun commit =>
    first ≤ commit.block.header.number ∧ commit.block.header.number ≤ last))

/-- The budget for a request. -/
def maxBytes (limit : Nat) : Nat :=
  maxPayloadClient - responseEnvelopeReserve - limit * protoBlockOverhead

/-- `GetBlocksController.handle`. -/
def getBlocks (commits : List SerializedCommit) (lastBlockNumber : Nat) (request : GetBlocksRequest) :
    Except RangeError (List Bytes) :=
  if request.fromBlockNumber > lastBlockNumber then .ok []
  else
    (getCommitsByBlockRange commits request.fromBlockNumber
      (request.fromBlockNumber + request.limit - 1) (maxBytes request.limit)).map
        (map (·.serialized))

/-! ## The requesting node -/

/-- Whether `#handleMissingBlocks` bans the peer. -/
def bansForMissing (maxPayload : Nat) (blocks : List Bytes) : Bool :=
  blocks.foldl (fun size block => size + block.length) 0 + maxPayload < maxPayloadClient

/-! ## Chains -/

/-- A commit as it is stored: its bytes are those of the proof and the block, and the block has passed
the size check. -/
structure Stored (maxPayload : Nat → Nat) (commit : SerializedCommit) : Prop where
  fits : commit.proof.Fits
  bytes : commit.serialized = encodeProof commit.proof ++ commit.block.serialized
  size : execute maxPayload commit.block = .ok ()

/-- A chain of stored commits, numbered from `firstNumber` on. -/
structure StoredChain (maxPayload : Nat → Nat) where
  firstNumber : Nat
  commits : List SerializedCommit
  numbered : commits.map (·.block.header.number) = range' firstNumber commits.length
  stored : ∀ commit ∈ commits, Stored maxPayload commit

/-- The bytes of a commit besides the payload. -/
def commitOverhead : Nat := proofSize + headerSize

/-- What the server counts for blocks. -/
def estimated (commits : List SerializedCommit) : Nat :=
  (commits.map fun commit => commit.block.header.payloadSize + perCommitOverheadBytes).sum

/-- What blocks really take. -/
def served (commits : List SerializedCommit) : Nat :=
  (commits.map fun commit => commit.block.header.payloadSize + commitOverhead).sum

section Sizes

variable {maxPayload : Nat → Nat} {commit : SerializedCommit} {commits : List SerializedCommit}

theorem Stored.length_serialized (h : Stored maxPayload commit) :
    commit.serialized.length = commit.block.header.payloadSize + commitOverhead := by
  have size := h.size
  simp only [execute] at size
  split_ifs at size with large differs
  rw [h.bytes, length_append, length_encodeProof h.fits]
  have := not_not.mp differs
  unfold commitOverhead
  omega

theorem foldl_length (stored : ∀ commit ∈ commits, Stored maxPayload commit) :
    (commits.map (·.serialized)).foldl (fun size block => size + block.length) 0 = served commits := by
  have sum : ∀ blocks : List Bytes, ∀ size,
      blocks.foldl (fun size block => size + block.length) size =
        size + (blocks.map (·.length)).sum := by
    intro blocks
    induction blocks with
    | nil => simp
    | cons block blocks ih =>
      intro size
      rw [foldl_cons, ih, map_cons, sum_cons, add_assoc]
  rw [sum, zero_add, map_map]
  unfold served
  congr 1
  exact map_congr_left fun commit member => (stored commit member).length_serialized

/-- The commits within the budget are the longest part that fits. -/
theorem withinBudget_spec (maxBytes accumulated : Nat) (commits : List SerializedCommit) :
    ∃ rest, commits = withinBudget maxBytes accumulated commits ++ rest ∧
      (withinBudget maxBytes accumulated commits ≠ [] →
        accumulated + estimated (withinBudget maxBytes accumulated commits) ≤ maxBytes) ∧
      ∀ next rest', rest = next :: rest' →
        maxBytes < accumulated + estimated (withinBudget maxBytes accumulated commits ++ [next]) := by
  induction commits generalizing accumulated with
  | nil => exact ⟨[], rfl, by simp [withinBudget], by simp⟩
  | cons commit commits ih =>
    simp only [withinBudget]
    split_ifs with exceeds
    · refine ⟨commit :: commits, rfl, by simp, ?_⟩
      rintro next rest' ⟨⟩
      simpa [estimated] using exceeds
    · obtain ⟨rest, eq, fits, ends⟩ :=
        ih (accumulated + (commit.block.header.payloadSize + perCommitOverheadBytes))
      refine ⟨rest, by rw [cons_append, ← eq], fun _ => ?_, ?_⟩
      · by_cases none : withinBudget maxBytes
            (accumulated + (commit.block.header.payloadSize + perCommitOverheadBytes)) commits = []
        · rw [none]
          simpa [estimated] using exceeds
        · have := fits none
          simp only [estimated, map_cons, sum_cons] at this ⊢
          omega
      · intro next rest' is
        have := ends next rest' is
        simp only [estimated, cons_append, map_cons, sum_cons] at this ⊢
        omega

/-- A range of a numbered list. -/
theorem filter_numbered {α : Type} (number : α → Nat) (l : List α) (start first past : Nat)
    (numbered : l.map number = range' start l.length) :
    (l.filter fun x => first ≤ number x ∧ number x < past) =
      (l.take (past - start)).drop (first - start) := by
  induction l generalizing start with
  | nil => simp
  | cons x l ih =>
    rw [map_cons, length_cons, range'_succ, cons.injEq] at numbered
    obtain ⟨here, numbered⟩ := numbered
    have rest := ih (start + 1) numbered
    rw [filter_cons, rest, here]
    by_cases before : start < past
    · obtain ⟨n, eq⟩ : ∃ n, past - start = n + 1 := ⟨past - (start + 1), by omega⟩
      have eq' : past - (start + 1) = n := by omega
      rw [eq, eq', take_succ_cons]
      by_cases reached : first ≤ start
      · rw [show first - start = 0 by omega, show first - (start + 1) = 0 by omega]
        simp [reached, before]
      · obtain ⟨m, eq⟩ : ∃ m, first - start = m + 1 := ⟨first - (start + 1), by omega⟩
        rw [eq, show first - (start + 1) = m by omega]
        simp [reached]
    · rw [show past - start = 0 by omega, show past - (start + 1) = 0 by omega]
      simp [before]

end Sizes

/-! ## Whether the two agree -/

namespace StoredChain

variable {maxPayload : Nat → Nat} (chain : StoredChain maxPayload) (request : GetBlocksRequest)

/-- The number of the last block. -/
def lastNumber : Nat := chain.firstNumber + chain.commits.length - 1

/-- The requested blocks. -/
def requested : List SerializedCommit :=
  (chain.commits.take (request.fromBlockNumber + request.limit - chain.firstNumber)).drop
    (request.fromBlockNumber - chain.firstNumber)

/-- The node has all blocks of the range. -/
def Has : Prop :=
  chain.firstNumber ≤ request.fromBlockNumber ∧
    request.fromBlockNumber + request.limit ≤ chain.firstNumber + chain.commits.length

variable {chain request}

theorem filter_eq (valid : request.Valid) :
    (chain.commits.filter fun commit => request.fromBlockNumber ≤ commit.block.header.number ∧
      commit.block.header.number ≤ request.fromBlockNumber + request.limit - 1) =
        chain.requested request := by
  have range := filter_numbered (·.block.header.number) chain.commits chain.firstNumber
    request.fromBlockNumber (request.fromBlockNumber + request.limit) chain.numbered
  refine Eq.trans (filter_congr fun commit _ => ?_) range
  have := valid.1
  rw [decide_eq_decide]
  omega

/-- What the controller replies, for a range that the node has. -/
theorem getBlocks_eq (valid : request.Valid) (has : chain.Has request) :
    getBlocks chain.commits chain.lastNumber request =
      .ok ((withinBudget (maxBytes request.limit) 0 (chain.requested request)).map (·.serialized)) := by
  obtain ⟨low, high⟩ := has
  obtain ⟨one, many⟩ := valid
  have known : ¬ request.fromBlockNumber > chain.lastNumber := by
    unfold lastNumber
    omega
  have order : ¬ request.fromBlockNumber > request.fromBlockNumber + request.limit - 1 := by omega
  have positive : maxBytes request.limit ≠ 0 := by
    unfold maxBytes maxPayloadClient responseEnvelopeReserve protoBlockOverhead
    unfold maxDownloadBlocks at many
    omega
  unfold getBlocks getCommitsByBlockRange
  rw [if_neg known, if_neg order, if_neg positive, filter_eq ⟨one, many⟩]
  rfl

theorem length_requested (has : chain.Has request) : (chain.requested request).length = request.limit := by
  obtain ⟨low, high⟩ := has
  simp only [requested, length_drop, length_take]
  omega

theorem stored_of_mem_requested {commit : SerializedCommit} (member : commit ∈ chain.requested request) :
    Stored maxPayload commit :=
  chain.stored commit (mem_of_mem_take (mem_of_mem_drop member))

end StoredChain

/-- The blocks that fit into the budget leave no room for a block of the size limit, as the requesting
node counts: `first` are the blocks that fit, and with `next` they do not. -/
def Tolerated (limit maxPayload : Nat) (requested : List SerializedCommit) : Prop :=
  ∀ first next rest, requested = first ++ next :: rest → estimated first ≤ maxBytes limit →
    maxBytes limit < estimated (first ++ [next]) → maxPayloadClient ≤ served first + maxPayload

/-- The number of blocks of the largest size that fit into the budget. -/
def largestServed (limit maxPayload : Nat) : Nat :=
  maxBytes limit / (maxPayload - headerSize + perCommitOverheadBytes)

section Agreement

variable {limit maxPayload : Nat} {requested : List SerializedCommit}

theorem estimated_append_singleton_le (commits : List SerializedCommit) (commit : SerializedCommit)
    (commits' : List SerializedCommit) :
    estimated (commits ++ [commit]) ≤ estimated (commits ++ commit :: commits') := by
  simp only [estimated, map_append, List.sum_append, map_cons, sum_cons, map_nil, sum_nil]
  omega

/-- There is one way to split off the blocks that fit. -/
theorem split_unique {maxBytes : Nat} {first first' rest rest' : List SerializedCommit}
    {next next' : SerializedCommit} (same : first ++ next :: rest = first' ++ next' :: rest')
    (fits : estimated first ≤ maxBytes) (exceeds : maxBytes < estimated (first ++ [next]))
    (fits' : estimated first' ≤ maxBytes) (exceeds' : maxBytes < estimated (first' ++ [next'])) :
    first = first' := by
  obtain ⟨more, rfl, tail⟩ | ⟨more, rfl, tail⟩ := append_eq_append_iff.mp same
  · cases more with
    | nil => rw [append_nil]
    | cons x more =>
      rw [cons_append, cons.injEq] at tail
      rw [tail.1] at exceeds
      have := estimated_append_singleton_le first x more
      omega
  · cases more with
    | nil => rw [append_nil]
    | cons x more =>
      rw [cons_append, cons.injEq] at tail
      rw [tail.1] at exceeds'
      have := estimated_append_singleton_le first' x more
      omega

/-- With blocks of at most the largest size, at least `largestServed` blocks are served. -/
theorem largestServed_le {first : List SerializedCommit} {next : SerializedCommit}
    (small : ∀ commit ∈ first ++ [next], headerSize + commit.block.header.payloadSize ≤ maxPayload)
    (exceeds : maxBytes limit < estimated (first ++ [next])) :
    largestServed limit maxPayload ≤ first.length := by
  have bound := sum_le_card_nsmul
    ((first ++ [next]).map fun commit => commit.block.header.payloadSize + perCommitOverheadBytes)
    (maxPayload - headerSize + perCommitOverheadBytes) ?_
  · rw [length_map, length_append, length_singleton, smul_eq_mul, mul_comm] at bound
    exact Nat.le_of_lt_succ (Nat.div_lt_of_lt_mul (exceeds.trans_le bound))
  · intro size member
    obtain ⟨commit, inside, rfl⟩ := mem_map.mp member
    have := small commit inside
    omega

theorem length_mul_le_served (commits : List SerializedCommit) :
    commits.length * commitOverhead ≤ served commits := by
  have bound := card_nsmul_le_sum
    (commits.map fun commit => commit.block.header.payloadSize + commitOverhead) commitOverhead ?_
  · rwa [length_map, smul_eq_mul] at bound
  · intro size member
    obtain ⟨commit, -, rfl⟩ := mem_map.mp member
    exact Nat.le_add_left ..

/-- Requests that are so short that all blocks fit, and limits so large that no further block would. -/
theorem tolerated_of_largestServed (small : ∀ commit ∈ requested,
      headerSize + commit.block.header.payloadSize ≤ maxPayload)
    (many : requested.length ≤ largestServed limit maxPayload ∨
      maxPayloadClient ≤ largestServed limit maxPayload * commitOverhead + maxPayload) :
    Tolerated limit maxPayload requested := by
  rintro first next rest rfl fits exceeds
  have all : ∀ commit ∈ first ++ [next],
      headerSize + commit.block.header.payloadSize ≤ maxPayload := by
    intro commit member
    refine small commit ?_
    rw [append_cons]
    exact mem_append_left _ member
  have count := largestServed_le all exceeds
  obtain short | large := many
  · simp only [length_append, length_cons] at short
    omega
  · have := mul_le_mul_right commitOverhead count
    have := length_mul_le_served first
    omega

end Agreement

/-- The reply to a request for blocks that the node has, if it omits some, does not get the node banned
exactly if the blocks that fit into its budget leave no room as the requesting node counts. That is so
for requests that always fit, and for limits close to the size of a frame. -/
theorem shortReply_tolerated_iff {maxPayload : Nat → Nat} (chain : StoredChain maxPayload)
    (request : GetBlocksRequest) (valid : request.Valid) (has : chain.Has request) (judged : Nat) :
    ∃ blocks, getBlocks chain.commits chain.lastNumber request = .ok blocks ∧
      (blocks.length < request.limit →
        (bansForMissing judged blocks = false ↔
          Tolerated request.limit judged (chain.requested request))) ∧
      ((∀ commit ∈ chain.requested request,
          headerSize + commit.block.header.payloadSize ≤ judged) →
        request.limit ≤ largestServed request.limit judged ∨
          maxPayloadClient ≤ largestServed request.limit judged * commitOverhead + judged →
        blocks.length < request.limit → bansForMissing judged blocks = false) := by
  refine ⟨_, chain.getBlocks_eq valid has, ?_⟩
  obtain ⟨rest, split, fits, exceeds⟩ :=
    withinBudget_spec (maxBytes request.limit) 0 (chain.requested request)
  generalize withinBudget (maxBytes request.limit) 0 (chain.requested request) = first at *
  simp only [zero_add] at fits exceeds
  have stored : ∀ commit ∈ first, Stored maxPayload commit := by
    intro commit member
    have inside : commit ∈ chain.requested request := by
      rw [split]
      exact mem_append_left _ member
    exact chain.stored_of_mem_requested inside
  have length := chain.length_requested has
  have within : estimated first ≤ maxBytes request.limit := by
    by_cases none : first = []
    · simp [none, estimated]
    · exact fits none
  have iff : first.length < request.limit →
      (bansForMissing judged (first.map (·.serialized)) = false ↔
        Tolerated request.limit judged (chain.requested request)) := by
    intro short
    obtain ⟨next, rest, rfl⟩ : ∃ next rest', rest = next :: rest' := by
      refine exists_cons_of_ne_nil fun none => ?_
      rw [split, none, append_nil] at length
      omega
    have exceeds := exceeds next rest rfl
    unfold bansForMissing
    rw [foldl_length stored, decide_eq_false_iff_not, not_lt]
    constructor
    · intro room first' next' rest' split' fits' exceeds'
      rwa [← split_unique (split.symm.trans split') within exceeds fits' exceeds']
    · intro tolerated
      exact tolerated first next rest split within exceeds
  refine ⟨by simpa using iff, fun small many short => ?_⟩
  rw [length_map] at short
  refine (iff short).mpr (tolerated_of_largestServed small ?_)
  rwa [length]

namespace Sample

open TransactionFactory (blank)

def proof : CommitProof := { round := 0, signature := replicate 96 0, validators := [true] }

theorem fits_proof : proof.Fits := by
  rw [CommitProof.fits_iff]
  decide

/-- How many transactions a block has, and of how many bytes each. -/
abbrev Load : Type := Nat × Nat

def Load.payload (load : Load) : Nat := load.1 * (load.2 + 4)

/-- A megabyte and a half. -/
def large : Load := (50, 31426)

/-- Two megabytes with the header. -/
def largest : Load := (45, 46587)

def commit (number : Nat) (load : Load) : SerializedCommit :=
  let block : Block :=
    { header := { BlockFactory.headerOver [] with
        number, transactionsCount := load.1, payloadSize := load.payload }
      hash := [], transactions := replicate load.1 (blank load.2)
      serialized := replicate (headerSize + load.payload) 0 }
  { block, proof, serialized := encodeProof proof ++ block.serialized }

@[simp] theorem payloadSize_commit (number : Nat) (load : Load) :
    (commit number load).block.header.payloadSize = load.payload := rfl

theorem foldl_replicate_transaction (count length size : Nat) :
    (replicate count (blank length)).foldl (fun size t => size + t.serialized.length) size =
      size + count * length := by
  induction count generalizing size with
  | zero => simp
  | succ count ih =>
    rw [replicate_succ, foldl_cons, ih, blank, length_replicate, succ_mul]
    omega

theorem stored {maxPayload : Nat → Nat} (number : Nat) (load : Load)
    (small : headerSize + load.payload ≤ maxPayload number) :
    Stored maxPayload (commit number load) where
  fits := fits_proof
  bytes := rfl
  size := by
    simp only [execute, commit, foldl_replicate_transaction, length_replicate]
    rw [if_neg (not_lt.mpr small), if_neg (by simp), if_neg]
    rw [Load.payload, mul_add]
    omega

/-- Three blocks from number 2 on, with blocks of at most two megabytes. -/
def chain (first second third : Load)
    (small : ∀ load ∈ [first, second, third], headerSize + load.payload ≤ 2 * 1024 ^ 2) :
    StoredChain (fun _ => 2 * 1024 ^ 2) where
  firstNumber := 2
  commits := [commit 2 first, commit 3 second, commit 4 third]
  numbered := rfl
  stored := by
    simp only [mem_cons, not_mem_nil, or_false, forall_eq_or_imp, forall_eq] at small ⊢
    exact ⟨stored 2 first small.1, stored 3 second small.2.1, stored 4 third small.2.2⟩

/-- A request for the three blocks. -/
def request : GetBlocksRequest := ⟨2, 3⟩

end Sample

open Sample

/-- Of three blocks of the largest size, two are served, and the node is not banned. -/
theorem shortReply_tolerated_iff_sample :
    request.Valid ∧ (chain largest largest largest (by decide)).Has request ∧
      ∃ blocks, getBlocks (chain largest largest largest (by decide)).commits 4 request = .ok blocks ∧
        (blocks.length < 3 → (bansForMissing (2 * 1024 ^ 2) blocks = false ↔
          Tolerated 3 (2 * 1024 ^ 2)
            ((chain largest largest largest (by decide)).requested request))) := by
  have valid : request.Valid := ⟨by decide, by decide⟩
  have has : (chain largest largest largest (by decide)).Has request :=
    ⟨le_refl 2, le_refl 5⟩
  obtain ⟨blocks, reply, iff, -⟩ := shortReply_tolerated_iff _ request valid has (2 * 1024 ^ 2)
  exact ⟨valid, has, blocks, reply, iff⟩

/-- Two blocks of a megabyte and a half and one of the largest size: the third does not fit, and the node
is banned. -/
theorem exists_ban_for_short_reply : ∃ chain : StoredChain (fun _ => 2 * 1024 ^ 2),
      request.Valid ∧ chain.Has request ∧ 2 * 1024 ^ 2 < maxPayloadClient ∧
      ∃ blocks, getBlocks chain.commits chain.lastNumber request = .ok blocks ∧
        blocks.length < Sample.request.limit ∧ bansForMissing (2 * 1024 ^ 2) blocks = true := by
  have valid : request.Valid := ⟨by decide, by decide⟩
  have has : (chain large large largest (by decide)).Has request :=
    ⟨le_refl 2, le_refl 5⟩
  have within : withinBudget (maxBytes 3) 0
      [commit 2 large, commit 3 large, commit 4 largest] =
        [commit 2 large, commit 3 large] := by
    simp [withinBudget, maxBytes, maxPayloadClient, responseEnvelopeReserve, protoBlockOverhead,
      perCommitOverheadBytes, Load.payload, large, largest]
  refine ⟨_, valid, has, by decide, _, StoredChain.getBlocks_eq valid has, ?_⟩
  have requested : (chain large large largest (by decide)).requested request =
      [commit 2 large, commit 3 large, commit 4 largest] := by
    simp [StoredChain.requested, chain, request]
  rw [requested, show request.limit = 3 from rfl, within]
  have overhead : commitOverhead = 666 := rfl
  have sizes : served [commit 2 large, commit 3 large] = 3144332 := by
    simp only [served, map_cons, map_nil, sum_cons, sum_nil,
      payloadSize_commit, overhead, Load.payload, large]
    omega
  refine ⟨by simp, ?_⟩
  have stored : ∀ commit ∈ [Sample.commit 2 large, Sample.commit 3 large],
      Stored (fun _ => 2 * 1024 ^ 2) commit := by
    simp only [mem_cons, not_mem_nil, or_false, forall_eq_or_imp, forall_eq]
    exact ⟨Sample.stored 2 large (by decide), Sample.stored 3 large (by decide)⟩
  unfold bansForMissing
  rw [foldl_length stored, sizes]
  decide

end Mainsail.P2P
