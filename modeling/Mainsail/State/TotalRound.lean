import Mainsail.Consensus.Certificates
import Mainsail.CryptoConfig.Configuration
import Mainsail.Evm.Database
import Mainsail.Foundation.Double
import Mathlib.Algebra.BigOperators.Group.Finset.Piecewise
import Mathlib.Data.Finset.Max
import Mathlib.Data.Fintype.Basic

/-!
# The total round

The number of rounds that all blocks together took decides who proposes next. It is counted in three
places: in the database of the EVM, in `DatabaseService` and in `Store`. The first is written with the
block, the other two are advanced one after the other once it is written, and are set from the first
when the node starts again.

A node is followed from start to start. It may stop between any two steps, the database may refuse a
commit, and the handlers that run after the counters may fail. Numbers are doubles in `Store` and in
`DatabaseService`, and 64 bits wide in the database.
-/

namespace Mainsail

open Evm PersistentDb Finset Option Nat

/-! ## What is committed -/

/-- What `BlockProcessor.commit` is given: a round state, or a commit that was downloaded or is the one
of genesis. -/
inductive ProcessableUnit
  | roundState {key : RoundKey} (state : CommittingRoundState key)
  | commitState (commit : Commit)

namespace ProcessableUnit

def blockNumber : ProcessableUnit → Nat
  | @roundState key _ => key.blockNumber
  | .commitState commit => commit.block.number

def round : ProcessableUnit → Nat
  | @roundState key _ => key.round
  | .commitState commit => commit.proof.round

/-- A round state throws without the parsed payload of a proposal. -/
def getBlock : ProcessableUnit → Option BlockHeader
  | .roundState s =>
    if s.roundState.isDataDeserialized then s.roundState.proposal.map (·.blockHeader) else none
  | .commitState commit => some commit.block

def getCommit (v : Verifier) (serialized : Proposal → Bytes) : ProcessableUnit → Option Commit
  | .roundState s => (s.getCommit v serialized).toOption.map (·.1.1)
  | .commitState commit => some commit

/-- A round state is one that calls have led to. -/
def Reached (v : Verifier) (serialized : Proposal → Bytes) : ProcessableUnit → Prop
  | .roundState s => s.Reached v serialized
  | .commitState _ => True

/-- The block and the round of a unit are those of its commit. -/
theorem eq_of_getCommit {v : Verifier} {serialized : Proposal → Bytes} {unit : ProcessableUnit}
    {block : BlockHeader} {commit : Commit} (reached : unit.Reached v serialized)
    (getBlock : unit.getBlock = some block) (getCommit : unit.getCommit v serialized = some commit) :
    commit.block = block ∧ commit.proof.round = unit.round ∧ block.number = unit.blockNumber := by
  cases unit with
  | commitState c =>
    cases getCommit
    cases getBlock
    exact ⟨rfl, rfl, rfl⟩
  | @roundState key s =>
    obtain ⟨⟨⟨made, bytes⟩, s'⟩, got, rfl⟩ := map_eq_some_iff.mp getCommit
    rw [Except.toOption_eq_some] at got
    obtain ⟨kept, same, present⟩ :=
      CommittingRoundState.kept_of_getCommit (CommittingRoundState.kept_of_reached reached) got
    obtain ⟨p, -, held, -, fromProposal, round, -⟩ := kept made bytes present
    rw [same] at held
    obtain rfl := s.roundState.proposal_routed p held
    simp only [ProcessableUnit.getBlock, held] at getBlock
    obtain ⟨-, here⟩ := ite_none_right_eq_some.mp getBlock
    cases here
    exact ⟨fromProposal, round, rfl⟩

end ProcessableUnit

namespace Evm

/-- `inner.blocks.last`. -/
def ChainTables.last (t : ChainTables) : Option U64 :=
  if h : (univ.filter fun n => (t.blocks n).isSome).Nonempty then
    some ((univ.filter fun n => (t.blocks n).isSome).max' h)
  else none

namespace PersistentDb

def isEmpty (db : PersistentDb) : Bool := db.chain.last.isNone

/-- The number of the last block and the total round. -/
def getState (db : PersistentDb) : Except DbError (U64 × U64) := do
  let totalRound ← readTotalRound db.chain.totalRound
  return (db.chain.last.getD 0, totalRound)

end PersistentDb

end Evm

/-! ## A node -/

/-- `Store`, with the height that it sets in the configuration. -/
structure Store where
  blockNumber : Nat := 0
  totalRound : Nat := 0
  height : Nat

/-- `#state` of `DatabaseService`. -/
structure DatabaseService where
  blockNumber : Nat := 0
  totalRound : Nat := 0

/-- The network that a node runs in, and what is stored of a block. -/
structure ChainNetwork where
  genesis : Commit
  verifier : Verifier
  serialized : Proposal → Bytes
  header : BlockHeader → BlockHeaderData
  transactions : BlockHeader → List Evm.TransactionData

/-- How far `BlockProcessor.commit` has come. -/
inductive CommitStage
  | evm
  | stateStore
  | databaseService
  | handlers

/-- A call of `BlockProcessor.commit`. -/
structure CommitCall where
  unit : ProcessableUnit
  block : BlockHeader
  commit : Commit
  /-- The block number of consensus. There is none yet for the commit of genesis. -/
  consensus : Option Nat

inductive NodePhase
  | stopped
  /-- `DatabaseService.initialize` is done. -/
  | starting
  /-- Consensus runs, at a block number. -/
  | running (blockNumber : Nat)
  | committing (call : CommitCall) (stage : CommitStage)

structure ChainNode where
  db : PersistentDb
  store : Store
  database : DatabaseService
  phase : NodePhase

inductive ChainNodeEvent
  | start
  /-- The contracts are deployed, in a commit without a block. -/
  | deploy (c : StateCommit)
  | bootstrap
  /-- Consensus hands a unit to `BlockProcessor.commit`. -/
  | commit (unit : ProcessableUnit)
  /-- The EVM writes what it has executed of the block. -/
  | evmCommit (c : StateCommit)
  /-- The EVM does not get as far as the database. -/
  | evmFails
  | storeCommit
  | databaseCommit
  | finish (ok : Bool)
  | stop

namespace ChainNetwork

variable (network : ChainNetwork)

/-- A round is handed over as 32 bits. -/
def prepareCommitData (commit : Commit) : CommitData where
  proof := ⟨Fin.ofNat _ commit.proof.round⟩
  header := network.header commit.block
  transactions := network.transactions commit.block

end ChainNetwork

namespace Store

/-- `setLastBlock`, which also sets the height of the configuration. -/
def setLastBlock (s : Store) (number : Nat) : Store :=
  { s with blockNumber := number, height := number + 1 }

def onCommit (s : Store) (unit : ProcessableUnit) (block : BlockHeader) : Store :=
  { s.setLastBlock block.number with totalRound := Double.round (s.totalRound + (unit.round + 1)) }

end Store

namespace DatabaseService

/-- `initialize`. -/
def ofStorage (db : PersistentDb) : Except DbError DatabaseService := do
  let (blockNumber, totalRound) ← db.getState
  return ⟨Double.round blockNumber.val, Double.round totalRound.val⟩

def onCommit (d : DatabaseService) (commit : Commit) : DatabaseService where
  blockNumber := commit.block.number
  totalRound := Double.round (d.totalRound + (commit.proof.round + 1))

end DatabaseService

namespace ChainNode

/-- A call that throws ends in `fail`, and consensus stays at its block number until the node stops.
While the node starts, it ends the node. -/
def fail (n : ChainNode) (call : CommitCall) : ChainNode :=
  { n with phase := call.consensus.elim .stopped .running }

def step (network : ChainNetwork) (n : ChainNode) : ChainNodeEvent → Option ChainNode
  | .stop => some { n with phase := .stopped }
  | .start =>
    match n.phase, DatabaseService.ofStorage n.db with
    | .stopped, .ok database =>
      some { n with
        store := { height := network.genesis.block.number }
        database
        phase := .starting }
    | _, _ => none
  | .deploy c =>
    match n.phase with
    | .starting =>
      match n.db.commit c none with
      | .ok db => some { n with db }
      | .error _ => some { n with phase := .stopped }
    | _ => none
  | .bootstrap =>
    match n.phase with
    | .starting =>
      if n.db.isEmpty then
        some { n with
          phase := .committing ⟨.commitState network.genesis, network.genesis.block, network.genesis, none⟩
            .evm }
      else
        -- the header of the last commit is stored under its number
        match n.db.chain.blocks (Fin.ofNat _ n.database.blockNumber) with
        | none => some { n with phase := .stopped }
        | some _ =>
          some { n with
            store :=
              { n.store.setLastBlock n.database.blockNumber with totalRound := n.database.totalRound }
            phase := .running (n.database.blockNumber + 1) }
    | _ => none
  | .commit unit =>
    match n.phase with
    | .running blockNumber =>
      if unit.blockNumber = blockNumber then
        match unit.getBlock, unit.getCommit network.verifier network.serialized with
        | some block, some commit =>
          some { n with phase := .committing ⟨unit, block, commit, some blockNumber⟩ .evm }
        | _, _ => some n
      else none
    | _ => none
  | .evmCommit c =>
    match n.phase with
    | .committing call .evm =>
      if c.key.blockNumber.val = call.block.number then
        match n.db.commit c (some (network.prepareCommitData call.commit)) with
        | .ok db => some { n with db, phase := .committing call .stateStore }
        | .error _ => some (n.fail call)
      else none
    | _ => none
  | .evmFails =>
    match n.phase with
    | .committing call .evm => some (n.fail call)
    | _ => none
  | .storeCommit =>
    match n.phase with
    | .committing call .stateStore =>
      some { n with
        store := n.store.onCommit call.unit call.block
        phase := .committing call .databaseService }
    | _ => none
  | .databaseCommit =>
    match n.phase with
    | .committing call .databaseService =>
      some { n with database := n.database.onCommit call.commit, phase := .committing call .handlers }
    | _ => none
  | .finish ok =>
    match n.phase with
    | .committing call .handlers =>
      some (
        if ok then
          { n with phase := .running (call.consensus.elim (n.store.blockNumber + 1) (· + 1)) }
        else n.fail call)
    | _ => none

/-- A node that has never been started. -/
def fresh (history : Option AccountHistory) : ChainNode where
  db := .opened history
  store := { height := 0 }
  database := {}
  phase := .stopped

end ChainNode

/-- The number of the block and the round of the proof have four bytes, as in all that is read from
bytes or written to them. -/
def Commit.FitsBytes (commit : Commit) : Prop :=
  commit.block.number < 2 ^ 32 ∧ commit.proof.round < 2 ^ 32

namespace ChainNode

/-- The units that processors hand over. -/
def Allowed (network : ChainNetwork) (_ : ChainNode) : ChainNodeEvent → Prop
  | .commit unit => unit.Reached network.verifier network.serialized ∧
      ∀ commit, unit.getCommit network.verifier network.serialized = some commit → commit.FitsBytes
  | _ => True

/-- The states of a node, over any number of starts. -/
def Run (network : ChainNetwork) (n : ChainNode) : Prop :=
  ∃ history, Transition.Reach (step network) (Allowed network) (fresh history) n

end ChainNode

/-- The rounds of all blocks in the database. -/
def Evm.ChainTables.rounds (t : ChainTables) : Nat :=
  ∑ n, ((t.proofs n).map (·.round.val + 1)).getD 0

/-! ## The database -/

namespace Evm

namespace ChainTables

/-- The last block of the chain. -/
def IsLast (t : ChainTables) (number : Nat) : Prop :=
  ∃ n : U64, n.val = number ∧ (t.blocks n).isSome ∧ ∀ m, (t.blocks m).isSome → m ≤ n

variable {t : ChainTables}

theorem last_eq_none : t.last = none ↔ ∀ n, t.blocks n = none := by
  unfold last
  split
  next some' =>
    obtain ⟨n, member⟩ := some'
    simp only [reduceCtorEq, false_iff, not_forall]
    exact ⟨n, by simpa [← ne_none_iff_isSome] using member⟩
  next none' =>
    simpa [filter_eq_empty_iff] using none'

theorem isLast_of_last {n : U64} (h : t.last = some n) : t.IsLast n.val := by
  unfold last at h
  split at h
  next nonempty =>
    obtain rfl := some.inj h
    refine ⟨_, rfl, (mem_filter.mp (max'_mem _ nonempty)).2, fun m there => ?_⟩
    exact le_max' _ _ (mem_filter.mpr ⟨mem_univ m, there⟩)
  next => cases h

theorem IsLast.unique {a b : Nat} (ha : t.IsLast a) (hb : t.IsLast b) : a = b := by
  obtain ⟨n, rfl, there, top⟩ := ha
  obtain ⟨m, rfl, there', top'⟩ := hb
  exact congrArg Fin.val (le_antisymm (top' n there) (top m there'))

/-- The sum grows by the new entry. -/
theorem rounds_put {proofs : U64 → Option ProofData} {n : U64} (absent : t.proofs n = none)
    (proof : ProofData) (written : proofs = put t.proofs (n, proof)) :
    ∑ m, ((proofs m).map (·.round.val + 1)).getD 0 = t.rounds + (proof.round.val + 1) := by
  have updated : (fun m => ((proofs m).map (·.round.val + 1)).getD 0) =
      Function.update (fun m => ((t.proofs m).map (·.round.val + 1)).getD 0) n (proof.round.val + 1) := by
    funext m
    subst written
    by_cases here : m = n
    · subst here
      simp [put]
    · simp [put, here]
  rw [updated, sum_update_of_mem (mem_univ n), rounds,
    ← add_sum_erase _ _ (mem_univ n), absent, sdiff_singleton_eq_erase]
  simp only [map_none, getD_none, zero_add]
  exact add_comm ..

end ChainTables

theorem readTotalRound_little (total : Nat) :
    readTotalRound (some (Endian.little 8 (total % 2 ^ 64))) = .ok (Fin.ofNat _ total) := by
  have small : total % 2 ^ 64 < 256 ^ 8 := mod_lt _ (by decide)
  rw [readTotalRound, if_neg (not_not.mpr (Endian.length_little ..)), Endian.ofLittle_little small]
  exact congrArg _ (Fin.ext (mod_mod ..))

/-- What commits keep of the database: the total round is the sum over the proofs, the tables of blocks
and of proofs have the same numbers, and these are committed. -/
structure PersistentDb.Counts (db : PersistentDb) : Prop where
  total : readTotalRound db.chain.totalRound = .ok (Fin.ofNat _ db.chain.rounds)
  proofs : ∀ n, (db.chain.proofs n).isSome = (db.chain.blocks n).isSome
  commits : ∀ n, (db.chain.blocks n).isSome → (db.commits n).isSome

namespace PersistentDb.Counts

variable {db db' : PersistentDb} {c : StateCommit}

theorem opened (history : Option AccountHistory) : (opened history).Counts where
  total := by
    have zero : (PersistentDb.opened history).chain.rounds = 0 :=
      sum_eq_zero fun n _ => rfl
    rw [zero]
    rfl
  proofs _ := rfl
  commits n there := nomatch there

/-- A commit without a block leaves the chain. -/
theorem commit_none (h : db.Counts) (done : db.commit c none = .ok db') :
    db'.Counts ∧ db'.chain = db.chain := by
  obtain ⟨-, -, -, -, chain, -, -, commits⟩ := commit_eq_ok done
  have same : db'.chain = db.chain := (Except.ok.inj chain).symm
  refine ⟨⟨same ▸ h.total, same ▸ h.proofs, fun n there => ?_⟩, same⟩
  rw [commits, put]
  by_cases here : n = c.key.blockNumber
  · simp [here]
  · simpa [here] using h.commits n (same ▸ there)

/-- A commit of a block adds its rounds. -/
theorem commit_some {data : CommitData} (h : db.Counts) (done : db.commit c (some data) = .ok db') :
    db'.Counts ∧ db'.chain.rounds = db.chain.rounds + (data.proof.round.val + 1) ∧
      db.chain.blocks c.key.blockNumber = none ∧
      ∀ n, (db'.chain.blocks n).isSome ↔ (db.chain.blocks n).isSome ∨ n = c.key.blockNumber := by
  obtain ⟨fresh, -, -, -, chain, -, -, commits⟩ := commit_eq_ok done
  have absent : db.chain.blocks c.key.blockNumber = none := by
    by_contra there
    have := h.commits _ (ne_none_iff_isSome.mp there)
    rw [fresh] at this
    cases this
  have absent' : db.chain.proofs c.key.blockNumber = none := by
    have := h.proofs c.key.blockNumber
    rw [absent] at this
    simpa using this
  simp only [updateChain, ChainTables.commit, h.total, bind, Except.bind, pure,
    Except.pure] at chain
  have chain := Except.ok.inj chain
  have rounds : db'.chain.rounds = db.chain.rounds + (data.proof.round.val + 1) :=
    ChainTables.rounds_put absent' data.proof (by rw [← chain])
  have blocks : ∀ n, (db'.chain.blocks n).isSome ↔
      (db.chain.blocks n).isSome ∨ n = c.key.blockNumber := by
    intro n
    rw [← chain]
    by_cases here : n = c.key.blockNumber <;> simp [put, here]
  refine ⟨⟨?_, ?_, ?_⟩, rounds, absent, blocks⟩
  · rw [rounds, ← chain, readTotalRound_little]
    simp [Fin.ofNat, add_assoc]
  · intro n
    rw [← chain]
    by_cases here : n = c.key.blockNumber
    · simp [put, here]
    · simpa [put, here] using h.proofs n
  · intro n there
    rw [commits, put]
    by_cases here : n = c.key.blockNumber
    · simp [here]
    · simpa [here] using h.commits n (((blocks n).mp there).resolve_right here)

end PersistentDb.Counts

end Evm

/-! ## The three counters -/

/-- The unit and its commit are of one block and round. -/
structure CommitCall.Sound (call : CommitCall) : Prop where
  block : call.commit.block = call.block
  round : call.commit.proof.round = call.unit.round
  fits : call.commit.FitsBytes
  consensus : ∀ b ∈ call.consensus, b = call.block.number

namespace ChainNode

/-- The store and the database service lack these rounds of what is in the database. -/
def Lacks (n : ChainNode) (store database : Nat) : Prop :=
  n.db.chain.rounds ≤ 2 ^ 53 → n.store.totalRound + store = n.db.chain.rounds ∧
      n.database.totalRound + database = n.db.chain.rounds

/-- The store is at the last block. -/
def Placed (n : ChainNode) : Prop :=
  n.db.chain.IsLast n.store.blockNumber ∧ n.store.height = n.store.blockNumber + 1

/-- What holds in each phase. After the database has written a block, first both counters lack its
rounds, then one, then none. -/
def PhaseSound (n : ChainNode) : Prop :=
  match n.phase with
  | .stopped => True
  | .starting => n.store.totalRound = 0 ∧ n.database.totalRound = Double.round (n.db.chain.rounds % 2 ^ 64) ∧
      ∀ k, n.db.chain.IsLast k → n.database.blockNumber = k
  | .running b => n.Lacks 0 0 ∧ n.Placed ∧ (b = n.store.blockNumber ∨ b = n.store.blockNumber + 1)
  | .committing call .evm => call.Sound ∧ n.Lacks 0 0 ∧
      match call.consensus with
      | none => ∀ k, n.db.chain.blocks k = none
      | some b => n.Placed ∧ (b = n.store.blockNumber ∨ b = n.store.blockNumber + 1)
  | .committing call .stateStore => call.Sound ∧
      n.Lacks (call.unit.round + 1) (call.unit.round + 1) ∧ n.db.chain.IsLast call.block.number
  | .committing call .databaseService => call.Sound ∧ n.Lacks 0 (call.unit.round + 1) ∧ n.Placed ∧
      n.store.blockNumber = call.block.number
  | .committing call .handlers => call.Sound ∧ n.Lacks 0 0 ∧ n.Placed ∧
      n.store.blockNumber = call.block.number

structure Sound (n : ChainNode) : Prop where
  counts : n.db.Counts
  small : ∀ k, (n.db.chain.blocks k).isSome → k.val < 2 ^ 32
  phase : n.PhaseSound

variable {network : ChainNetwork} {n n' : ChainNode}

theorem sound_fresh (history : Option AccountHistory) : (fresh history).Sound :=
  ⟨.opened history, fun _ there => (nomatch there), trivial⟩

/-- What is left of a call that throws before or after the counters. -/
theorem Sound.fail {call : CommitCall} (h : n.Sound)
    (kept : ∀ b ∈ call.consensus, n.Lacks 0 0 ∧ n.Placed ∧
      (b = n.store.blockNumber ∨ b = n.store.blockNumber + 1)) : (n.fail call).Sound := by
  refine ⟨h.counts, h.small, ?_⟩
  cases at_ : call.consensus with
  | none => simp [ChainNode.fail, PhaseSound, at_]
  | some b => simpa [ChainNode.fail, PhaseSound, at_, Lacks, Placed] using kept b at_

/-- What is read from a database that counts. -/
theorem ofStorage_eq {db : PersistentDb} (counts : db.Counts) : DatabaseService.ofStorage db =
      .ok ⟨Double.round (db.chain.last.getD 0).val, Double.round (db.chain.rounds % 2 ^ 64)⟩ := by
  simp only [DatabaseService.ofStorage, getState, counts.total, bind, Except.bind, pure,
    Except.pure, Fin.val_ofNat]

theorem Sound.start {database : DatabaseService} (h : n.Sound) (height : Nat)
    (read : DatabaseService.ofStorage n.db = .ok database) :
    Sound { n with store := { height }, database, phase := .starting } := by
  refine ⟨h.counts, h.small, rfl, ?_⟩
  rw [ofStorage_eq h.counts] at read
  obtain rfl := Except.ok.inj read
  dsimp only
  refine ⟨rfl, fun k last => ?_⟩
  cases there : n.db.chain.last with
  | none =>
    obtain ⟨m, -, present, -⟩ := last
    rw [ChainTables.last_eq_none.mp there m] at present
    cases present
  | some m =>
    have last' := ChainTables.isLast_of_last there
    obtain ⟨_, same, present, -⟩ := last'
    have := h.small _ present
    rw [getD_some, Double.round_of_le (by omega)]
    exact (ChainTables.isLast_of_last there).unique last

/-- A start from an empty database begins with the commit of genesis, any other goes on after the last
block. -/
theorem Sound.bootstrap (fits : network.genesis.FitsBytes) (h : n.Sound)
    (taken : n.step network .bootstrap = some n') : n'.Sound := by
  simp only [step] at taken
  split at taken
  next starting =>
    have phase := h.phase
    simp only [PhaseSound, starting] at phase
    obtain ⟨zero, total, last⟩ := phase
    split at taken
    next empty =>
      cases taken
      have none' := ChainTables.last_eq_none.mp (isNone_iff_eq_none.mp empty)
      have rounds : n.db.chain.rounds = 0 := by
        refine sum_eq_zero fun k _ => ?_
        have := h.counts.proofs k
        rw [none' k, isSome_none, isSome_eq_false_iff, isNone_iff_eq_none] at this
        rw [this]
        rfl
      refine ⟨h.counts, h.small, ⟨rfl, rfl, fits, by simp⟩, fun _ => ?_, none'⟩
      simp only [rounds, zero, total]
      decide
    next nonempty =>
      cases at_ : n.db.chain.last with
      | none => simp [isEmpty, at_] at nonempty
      | some m =>
        have isLast := ChainTables.isLast_of_last at_
        have here := last _ isLast
        split at taken
        · cases taken
          exact ⟨h.counts, h.small, trivial⟩
        · cases taken
          refine ⟨h.counts, h.small, fun small => ?_, ⟨?_, rfl⟩, .inr rfl⟩
          · dsimp only at small
            have exact' : n.database.totalRound = n.db.chain.rounds := by
              rw [total, mod_eq_of_lt (by omega), Double.round_of_le small]
            exact ⟨exact', exact'⟩
          · show n.db.chain.IsLast n.database.blockNumber
            rw [here]
            exact isLast
  next => cases taken

/-- The database has written a block: both counters lack its rounds, and it is the last one. -/
theorem Sound.evmCommit {c : StateCommit} (h : n.Sound)
    (taken : n.step network (.evmCommit c) = some n') : n'.Sound := by
  simp only [step] at taken
  split at taken
  next call committing =>
    have phase := h.phase
    simp only [PhaseSound, committing] at phase
    obtain ⟨sound, agrees, place⟩ := phase
    split at taken
    next number =>
      split at taken
      next db done =>
        cases taken
        obtain ⟨counts, rounds, absent, blocks⟩ := h.counts.commit_some done
        have round : (network.prepareCommitData call.commit).proof.round.val = call.unit.round := by
          rw [← sound.round]
          exact mod_eq_of_lt sound.fits.2
        rw [round] at rounds
        refine ⟨counts, fun k there => ?_, sound, fun small => ?_, c.key.blockNumber, number, ?_, ?_⟩
        · obtain old | rfl := (blocks k).mp there
          · exact h.small k old
          · rw [number, ← sound.block]
            exact sound.fits.1
        · dsimp only at small ⊢
          obtain ⟨store, database⟩ := agrees (by omega)
          exact ⟨by omega, by omega⟩
        · exact (blocks _).mpr (.inr rfl)
        · intro m there
          obtain old | rfl := (blocks m).mp there
          · cases at_ : call.consensus with
            | none =>
              rw [at_] at place
              rw [place m] at old
              cases old
            | some b =>
              rw [at_] at place
              obtain ⟨⟨⟨last, here, present, top⟩, -⟩, near⟩ := place
              have below : m.val ≤ last.val := top m old
              have own := sound.consensus b at_
              have other : last.val ≠ c.key.blockNumber.val := by
                intro same
                rw [Fin.ext same, absent] at present
                cases present
              show m.val ≤ c.key.blockNumber.val
              omega
          · exact le_rfl
      next =>
        cases taken
        refine h.fail fun b at_ => ?_
        rw [mem_def.mp at_] at place
        exact ⟨agrees, place⟩
    next => cases taken
  next => cases taken

/-- A sum of rounds that is exact is not rounded. -/
theorem round_add_eq {total lacking rounds : Nat} (h : total + lacking = rounds) (small : rounds ≤ 2 ^ 53) :
    Double.round (total + lacking) = rounds := by
  rw [h, Double.round_of_le small]

variable (fits : network.genesis.FitsBytes)
include fits

theorem Sound.step {e : ChainNodeEvent} (h : n.Sound)
    (allowed : n.Allowed network e) (taken : n.step network e = some n') : n'.Sound := by
  have phase := h.phase
  cases e with
  | stop =>
    cases taken
    exact ⟨h.counts, h.small, trivial⟩
  | start =>
    simp only [ChainNode.step] at taken
    split at taken
    next read =>
      cases taken
      exact h.start _ read
    next => cases taken
  | deploy c =>
    simp only [ChainNode.step] at taken
    split at taken
    next starting =>
      split at taken
      next db done =>
        cases taken
        obtain ⟨counts, same⟩ := h.counts.commit_none done
        refine ⟨counts, same ▸ h.small, ?_⟩
        simpa only [PhaseSound, starting, same] using phase
      next =>
        cases taken
        exact ⟨h.counts, h.small, trivial⟩
    next => cases taken
  | bootstrap => exact h.bootstrap fits taken
  | commit unit =>
    simp only [ChainNode.step] at taken
    split at taken
    next b running =>
      simp only [PhaseSound, running] at phase
      split at taken
      next number =>
        split at taken
        next block commit getBlock getCommit =>
          cases taken
          obtain ⟨own, round, own'⟩ := ProcessableUnit.eq_of_getCommit allowed.1 getBlock getCommit
          refine ⟨h.counts, h.small, ⟨own, round, allowed.2 commit getCommit, ?_⟩, phase⟩
          intro b' same
          rw [← some.inj same, own', number]
        next =>
          cases taken
          exact h
      next => cases taken
    next => cases taken
  | evmCommit c => exact h.evmCommit taken
  | evmFails =>
    simp only [ChainNode.step] at taken
    split at taken
    next call committing =>
      cases taken
      simp only [PhaseSound, committing] at phase
      obtain ⟨-, agrees, place⟩ := phase
      refine h.fail fun b at_ => ?_
      rw [mem_def.mp at_] at place
      exact ⟨agrees, place⟩
    next => cases taken
  | storeCommit =>
    simp only [ChainNode.step] at taken
    split at taken
    next call committing =>
      cases taken
      simp only [PhaseSound, committing] at phase
      obtain ⟨sound, lacks, last⟩ := phase
      refine ⟨h.counts, h.small, sound, fun small => ?_, ⟨last, rfl⟩, rfl⟩
      obtain ⟨store, database⟩ := lacks small
      exact ⟨round_add_eq store small, database⟩
    next => cases taken
  | databaseCommit =>
    simp only [ChainNode.step] at taken
    split at taken
    next call committing =>
      cases taken
      simp only [PhaseSound, committing] at phase
      obtain ⟨sound, lacks, placed, here⟩ := phase
      refine ⟨h.counts, h.small, sound, fun small => ?_, placed, here⟩
      obtain ⟨store, database⟩ := lacks small
      rw [← sound.round] at database
      exact ⟨store, round_add_eq database small⟩
    next => cases taken
  | finish ok =>
    simp only [ChainNode.step] at taken
    split at taken
    next call committing =>
      cases taken
      simp only [PhaseSound, committing] at phase
      obtain ⟨sound, lacks, placed, here⟩ := phase
      cases ok with
      | false =>
        refine h.fail fun b at_ => ⟨lacks, placed, .inl ?_⟩
        rw [sound.consensus b at_, here]
      | true =>
        refine ⟨h.counts, h.small, lacks, placed, .inr ?_⟩
        cases at_ : call.consensus with
        | none => rfl
        | some b =>
          show b + 1 = n.store.blockNumber + 1
          rw [sound.consensus b at_, here]
    next => cases taken

theorem Run.sound (run : n.Run network) : n.Sound := by
  obtain ⟨history, reach⟩ := run
  exact reach.invariant (P := Sound) (sound_fresh history) fun _ _ _ h ok taken => h.step fits ok taken

end ChainNode

/-! ## Proposers -/

namespace ProposerCalculator

variable {κ ν : Type}

def getValidatorIndexFrom (roundValidators : Option Nat) (totalRound round : Nat) : Option Nat :=
  remainder (Double.round (totalRound + round)) roundValidators

def getValidatorIndex (store : Store) (c : Configuration κ ν) (round : Nat) :
    Except ConfigurationError (Option Nat × Configuration κ ν) := do
  let (milestone, c) ← c.getMilestone store.height
  return (getValidatorIndexFrom milestone.roundValidators store.totalRound round, c)

/-- The proposer depends on the total round, the height and the milestones. -/
theorem getValidatorIndex_eq {keys : OtherKeys κ ν} {config : NetworkConfig κ ν}
    {c c' : Configuration κ ν} {store store' : Store} (holds : c.Holds keys config)
    (holds' : c'.Holds keys config) (total : store.totalRound = store'.totalRound)
    (height : store.height = store'.height) (round : Nat) :
    (getValidatorIndex store c round).map Prod.fst = (getValidatorIndex store' c' round).map Prod.fst := by
  have read := holds.getMilestone_fst holds' store'.height
  unfold getValidatorIndex
  rw [height, total]
  cases first : c.getMilestone store'.height <;> cases second : c'.getMilestone store'.height <;>
    simp_all [Except.map, bind, Except.bind, pure, Except.pure]

end ProposerCalculator

namespace ChainNode

theorem Run.running {network : ChainNetwork} {n : ChainNode} {b : Nat} (run : n.Run network)
    (fits : network.genesis.FitsBytes) (at_ : n.phase = .running b) :
    n.db.Counts ∧ n.Lacks 0 0 ∧ n.Placed := by
  have sound := run.sound fits
  have phase := sound.phase
  simp only [PhaseSound, at_] at phase
  exact ⟨sound.counts, phase.1, phase.2.1⟩

open ProposerCalculator

/-- While consensus runs, the three counters are the sum of the rounds of all blocks, as long as doubles
can count them. Two nodes with the same blocks have the same proposer for each round. -/
theorem totalRound_survives {network : ChainNetwork} (fits : network.genesis.FitsBytes) :
    (∀ n b, Run network n → n.phase = .running b → n.db.chain.rounds ≤ 2 ^ 53 →
      readTotalRound n.db.chain.totalRound = .ok (Fin.ofNat _ n.db.chain.rounds) ∧
        (Fin.ofNat (2 ^ 64) n.db.chain.rounds).val = n.db.chain.rounds ∧
        n.database.totalRound = n.db.chain.rounds ∧ n.store.totalRound = n.db.chain.rounds) ∧
    ∀ n n' b b', Run network n → Run network n' → n.phase = .running b → n'.phase = .running b' →
      n.db.chain.proofs = n'.db.chain.proofs → n.db.chain.rounds ≤ 2 ^ 53 →
      ∀ {κ ν : Type} (keys : OtherKeys κ ν) (config : NetworkConfig κ ν) (c c' : Configuration κ ν),
        c.Holds keys config → c'.Holds keys config → ∀ round,
          (getValidatorIndex n.store c round).map Prod.fst =
            (getValidatorIndex n'.store c' round).map Prod.fst := by
  constructor
  · intro n b run at_ small
    obtain ⟨counts, lacks, -⟩ := run.running fits at_
    obtain ⟨store, database⟩ := lacks small
    refine ⟨counts.total, ?_, database, store⟩
    rw [Fin.val_ofNat]
    exact mod_eq_of_lt (by omega)
  · intro n n' b b' run run' at_ at_' chain small κ ν keys config c c' holds holds' round
    obtain ⟨counts, lacks, last, height⟩ := run.running fits at_
    obtain ⟨counts', lacks', last', height'⟩ := run'.running fits at_'
    have rounds : n.db.chain.rounds = n'.db.chain.rounds := by
      rw [ChainTables.rounds, chain]
      rfl
    have blocks : ∀ k, (n.db.chain.blocks k).isSome = (n'.db.chain.blocks k).isSome := by
      intro k
      rw [← counts.proofs, ← counts'.proofs, chain]
    have number : n.store.blockNumber = n'.store.blockNumber := by
      obtain ⟨k, here, there, top⟩ := last
      refine ChainTables.IsLast.unique ⟨k, here, ?_, fun m present => ?_⟩ last'
      · rw [← blocks]
        exact there
      · rw [← blocks] at present
        exact top m present
    apply getValidatorIndex_eq holds holds'
    · exact (lacks small).1.trans (rounds.trans (lacks' (rounds ▸ small)).1.symm)
    · rw [height, height', number]

/-! ## Runs that commit -/

/-- The node can take the next block: nothing is committed at its number or above. -/
structure Ready (network : ChainNetwork) (n : ChainNode) (b rounds : Nat) : Prop where
  run : n.Run network
  phase : n.phase = .running b
  history : n.db.accountsHistory = none
  above : ∀ k : U64, b ≤ k.val → n.db.commits k = none
  rounds : n.db.chain.rounds = rounds

section Ready

variable {network : ChainNetwork} {n : ChainNode} {call : CommitCall} {b : Nat}

/-- A commit that changes no account. -/
def idle (k : U64) : StateCommit := ⟨⟨k, 0, 0⟩, {}, ∅⟩

theorem exists_commit_idle {db : PersistentDb} {k : U64} (counts : db.Counts)
    (history : db.accountsHistory = none) (absent : db.commits k = none) (data : CommitData) :
    ∃ db', db.commit (idle k) (some data) = .ok db' ∧ db'.accountsHistory = none ∧
      db'.commits = put db.commits (k, ∅) := by
  have chain : ∃ chain, db.updateChain k (some data) = .ok chain := by
    simp [updateChain, ChainTables.commit, counts.total, bind, Except.bind, pure, Except.pure]
  obtain ⟨chain, written⟩ := chain
  have attributes : (idle k).changeSet.legacyAttributes.toList = [] := rfl
  have wallets : (idle k).changeSet.legacyColdWallets.toList = [] := rfl
  have merged : (idle k).changeSet.mergedLegacyColdWallets.toList = [] := rfl
  simp only [commit, isBlockCommitted, updateHistory, attributes,
    wallets, merged, show (idle k).key.blockNumber = k from rfl, absent, history, written]
  exact ⟨_, rfl, rfl, rfl⟩

theorem Run.step {e : ChainNodeEvent} {n' : ChainNode} (run : n.Run network) (ok : n.Allowed network e)
    (taken : n.step network e = some n') : n'.Run network := by
  obtain ⟨history, reach⟩ := run
  exact ⟨history, reach.tail ok taken⟩

/-- A call of `BlockProcessor.commit` that nothing interrupts. -/
theorem Run.commit {c : StateCommit} {db : PersistentDb} (run : n.Run network)
    (at_ : n.phase = .committing call .evm) (number : c.key.blockNumber.val = call.block.number)
    (done : n.db.commit c (some (network.prepareCommitData call.commit)) = .ok db) :
    Run network
      { db
        store := n.store.onCommit call.unit call.block
        database := n.database.onCommit call.commit
        phase := .running (call.consensus.elim (call.block.number + 1) (· + 1)) } := by
  have written := run.step (e := .evmCommit c) trivial
    (by simp only [ChainNode.step, at_, if_pos number, done]; rfl)
  have stored := written.step (e := .storeCommit) trivial rfl
  have counted := stored.step (e := .databaseCommit) trivial rfl
  exact counted.step (e := .finish true) trivial rfl

/-- A block of the next number, with the given round. -/
def block (b round : Nat) : Commit := ⟨⟨b, [], 0⟩, ⟨⟨[], []⟩, round⟩⟩

/-- A commit that has begun is carried out if nothing is committed at its number or above. -/
theorem Ready.of_begun {c : Commit} {o : Option Nat} (fits : c.FitsBytes) (run : n.Run network)
    (counts : n.db.Counts) (at_ : n.phase = .committing ⟨.commitState c, c.block, c, o⟩ .evm)
    (next : o.elim (c.block.number + 1) (· + 1) = c.block.number + 1)
    (history : n.db.accountsHistory = none)
    (above : ∀ k : U64, c.block.number ≤ k.val → n.db.commits k = none) :
    ∃ n', Ready network n' (c.block.number + 1) (n.db.chain.rounds + (c.proof.round + 1)) ∧
      n'.store = n.store.onCommit (.commitState c) c.block := by
  have key : (Fin.ofNat (2 ^ 64) c.block.number).val = c.block.number := by
    have := fits.1
    rw [Fin.val_ofNat]
    exact mod_eq_of_lt (by omega)
  obtain ⟨db, done, kept, commits⟩ := exists_commit_idle counts history
    (above (Fin.ofNat _ c.block.number) key.ge) (network.prepareCommitData c)
  obtain ⟨-, total, -, -⟩ := counts.commit_some done
  have ended := run.commit at_ key done
  refine ⟨_, ⟨ended, congrArg NodePhase.running next, kept, fun k later => ?_, ?_⟩, rfl⟩
  · have other : k ≠ Fin.ofNat _ c.block.number := by
      rintro rfl
      omega
    show db.commits k = none
    rw [commits, put, Function.update_of_ne other]
    exact above k (by omega)
  · have same : (network.prepareCommitData c).proof.round.val = c.proof.round :=
      mod_eq_of_lt fits.2
    rw [total, same]

/-- The next block is committed. -/
theorem Ready.next {rounds round : Nat} (fits : network.genesis.FitsBytes) (h : Ready network n b rounds)
    (small : b < 2 ^ 32) (width : round < 2 ^ 32) :
    ∃ n', Ready network n' (b + 1) (rounds + (round + 1)) ∧
      n'.store.totalRound = Double.round (n.store.totalRound + (round + 1)) := by
  have begun := h.run.step (e := .commit (.commitState (block b round)))
    ⟨trivial, by rintro _ ⟨⟩; exact ⟨small, width⟩⟩
    (by simp only [ChainNode.step, h.phase, ProcessableUnit.blockNumber, block, if_true]; rfl)
  obtain ⟨n', ready, store⟩ := Ready.of_begun (c := block b round) ⟨small, width⟩ begun
    (h.run.sound fits).counts rfl rfl h.history h.above
  exact ⟨n', h.rounds ▸ ready, congrArg (·.totalRound) store⟩

theorem step_bootstrap_of_isEmpty (at_ : n.phase = .starting) (empty : n.db.isEmpty = true) :
    n.step network .bootstrap = some { n with
        phase := .committing ⟨.commitState network.genesis, network.genesis.block, network.genesis, none⟩
          .evm } := by
  simp only [ChainNode.step, at_, empty, if_true]

variable (fits : network.genesis.FitsBytes)
include fits

/-- A new node commits genesis. -/
theorem exists_ready :
    ∃ n, Ready network n (network.genesis.block.number + 1) (network.genesis.proof.round + 1) := by
  have start : (fresh none).Run network := ⟨none, .refl⟩
  have counts : (opened none).Counts := .opened none
  have last : (opened none).chain.last = none :=
    ChainTables.last_eq_none.mpr fun _ => rfl
  have empty : (opened none).isEmpty = true := by
    rw [isEmpty, last, isNone_none]
  have started := start.step (e := .start) trivial
    (by simp only [ChainNode.step, fresh, ofStorage_eq counts]; rfl)
  have begun := started.step (e := .bootstrap) trivial (step_bootstrap_of_isEmpty rfl empty)
  have none' : (opened none).chain.rounds = 0 := sum_eq_zero fun _ _ => rfl
  obtain ⟨n, ready, -⟩ := Ready.of_begun fits begun counts rfl rfl rfl fun _ _ => rfl
  rw [none', zero_add] at ready
  exact ⟨n, ready⟩

/-- Any number of further blocks is committed, all with the same round. -/
theorem Ready.extend {rounds round : Nat}
    (h : Ready network n b rounds) (width : round < 2 ^ 32) (count : Nat) (small : b + count ≤ 2 ^ 32) :
    ∃ n', Ready network n' (b + count) (rounds + count * (round + 1)) := by
  induction count with
  | zero => exact ⟨n, by simpa using h⟩
  | succ count ih =>
    obtain ⟨n', ready⟩ := ih (by omega)
    obtain ⟨n'', next, -⟩ := ready.next fits (by omega) width
    refine ⟨n'', ?_⟩
    have sum : rounds + (count + 1) * (round + 1) = rounds + count * (round + 1) + (round + 1) := by
      rw [succ_mul, add_assoc]
    rw [sum]
    exact next

end Ready

namespace Sample

/-- A network whose genesis block has the given round. -/
def network (round : Nat) : ChainNetwork where
  genesis := block 0 round
  verifier := CommittingRoundState.fourVerifier
  serialized := fun _ => []
  header := fun _ => ⟨0, 0, 0⟩
  transactions := fun _ => []

theorem fits {round : Nat} (h : round < 2 ^ 32) : (network round).genesis.FitsBytes :=
  ⟨(by decide : 0 < 2 ^ 32), h⟩

end Sample

/-- Genesis and one more block, of rounds 2 and 4. -/
theorem totalRound_survives_sample :
    ∃ n, Run (Sample.network 2) n ∧ n.phase = .running 2 ∧ n.db.chain.rounds = 8 ∧
      n.database.totalRound = 8 ∧ n.store.totalRound = 8 := by
  have fits := Sample.fits (show 2 < 2 ^ 32 by decide)
  obtain ⟨n₀, ready⟩ := exists_ready fits
  obtain ⟨n, next, -⟩ := ready.next fits (show 1 < 2 ^ 32 by decide) (show 4 < 2 ^ 32 by decide)
  have rounds : n.db.chain.rounds = 8 := next.rounds
  have counted := (totalRound_survives fits).1 n _ next.run next.phase (by rw [rounds]; decide)
  rw [rounds] at counted
  exact ⟨n, next.run, next.phase, rounds, counted.2.2⟩

/-- After two million blocks of the largest round the sum is no double. The store then has one less than
the database. -/
theorem totalRound_inexact :
    ∃ n b, Run (Sample.network (2 ^ 32 - 1)) n ∧ n.phase = .running b ∧
      readTotalRound n.db.chain.totalRound = .ok (Fin.ofNat _ (2 ^ 53 + 1)) ∧
      n.store.totalRound = 2 ^ 53 := by
  have width : 2 ^ 32 - 1 < 2 ^ 32 := by decide
  have fits := Sample.fits width
  obtain ⟨n₀, ready⟩ := exists_ready fits
  obtain ⟨n₁, full⟩ := ready.extend fits width (2 ^ 21 - 1) (show 1 + (2 ^ 21 - 1) ≤ 2 ^ 32 by decide)
  obtain ⟨n, next, store⟩ := full.next fits (show 1 + (2 ^ 21 - 1) < 2 ^ 32 by decide)
    (show 0 < 2 ^ 32 by decide)
  have rounds : n₁.db.chain.rounds = 2 ^ 53 := by
    rw [full.rounds]
    show 2 ^ 32 - 1 + 1 + (2 ^ 21 - 1) * (2 ^ 32 - 1 + 1) = 2 ^ 53
    norm_num
  have rounds' : n.db.chain.rounds = 2 ^ 53 + 1 := by
    rw [next.rounds, ← full.rounds, rounds]
  have total : n₁.store.totalRound = n₁.db.chain.rounds :=
    ((full.run.running fits full.phase).2.1 rounds.le).1
  refine ⟨n, _, next.run, next.phase, ?_, ?_⟩
  · rw [(next.run.sound fits).counts.total, rounds']
  · rw [store, total, rounds]
    decide

end ChainNode

end Mainsail
