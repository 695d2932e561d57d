import Mainsail.BlockchainUtils.Rounds
import Mainsail.Contracts.RoundSelection
import Mainsail.State.TotalRound
import Mathlib.Data.Int.ModEq

/-!
# The validator rounds of the API database

A row of the table holds the validators of a round in the order in which they propose. Live sync
writes it when the last block before the round is committed, from the validator set and the total
round of the store. Restore goes through the blocks of the database, counts the rounds itself, and
then writes the rows of all rounds that the consensus contract has recorded.

The two agree on the rounds, their heights and their validators. They do not count alike: the store
counts the round in which a block was committed, Restore the one in which it was forged.
-/

namespace Mainsail

open Configuration RoundCalculator ProposerCalculator Prod List Except Option Nat

variable {κ ν : Type}

namespace ApiSync

inductive SyncError
  | configuration (e : ConfigurationError)
  | notEnoughRoundValidators (actual : Nat) (expected : Option Nat)
  | error (message : String)
  | typeError

/-- A row of the table. -/
structure ValidatorRound where
  round : Option Nat
  roundHeight : Option Nat
  validators : List Address
  votes : List String
  deriving DecidableEq

open ConsensusV1

/-- A committed block as both find it, with the consensus contract before and after the calls at the end
of the block. -/
structure SyncedBlock where
  commit : Commit
  /-- `block.round`, the round in which the block was forged. -/
  round : Nat
  before : State
  contract : State

def SyncedBlock.number (b : SyncedBlock) : Nat := b.commit.block.number

/-! ## Live sync -/

/-- `ConsensusContractService.getRoundValidators`, with what is read of the wallets. -/
def getRoundValidators (s : State) : List RoundValidator :=
  s.roundValidators.map fun addr => ⟨addr, (s.validatorsData addr).voteBalance⟩

/-- `ValidatorSet.#buildRoundValidators`. -/
def buildRoundValidators (c : Configuration κ ν) (height : Nat) (s : State) :
    Except SyncError (List RoundValidator × Configuration κ ν) := do
  let (milestone, c) ← (c.getMilestone height).mapError .configuration
  let validators := getRoundValidators s
  match milestone.roundValidators with
  | none => return (validators, c)
  | some roundValidators =>
    if validators.length < roundValidators then
      throw (.notEnoughRoundValidators validators.length (some roundValidators))
    return (validators.take roundValidators, c)

/-- `ValidatorSet.getRoundValidators`. -/
def topRoundValidators (c : Configuration κ ν) (height : Nat)
    (topValidators : List RoundValidator) :
    Except SyncError (List RoundValidator × Configuration κ ν) := do
  let (milestone, c) ← (c.getMilestone height).mapError .configuration
  if some topValidators.length = milestone.roundValidators then return (topValidators, c)
  else throw (.notEnoughRoundValidators topValidators.length milestone.roundValidators)

/-- The validators in the order in which they propose from a total round on. -/
def proposalOrder (roundValidators : Option Nat) (totalRound : Nat)
    (validators : List RoundValidator) :
    Except SyncError (List RoundValidator) :=
  (range validators.length).mapM fun index =>
    match (getValidatorIndexFrom roundValidators totalRound index).bind
      (validators[·]?) with
    | some validator => .ok validator
    | none => .error .typeError

def ValidatorRound.of (info : RoundInfo) (validators : List RoundValidator) :
    ValidatorRound where
  round := info.round
  roundHeight := info.roundHeight
  validators := validators.map (·.addr)
  votes := validators.map fun v => toString v.voteBalance

/-- `#createValidatorRound`. The proposer calculator reads the same milestone for each index. -/
def createValidatorRound (c : Configuration κ ν) (store : Store) (s : State)
    (number : Nat) : Except SyncError (ValidatorRound × Configuration κ ν) := do
  let (topValidators, c) ← buildRoundValidators c store.height s
  let (roundValidators, c) ← topRoundValidators c store.height topValidators
  let (milestone, c) ← (c.getMilestone store.height).mapError .configuration
  let wallets ← proposalOrder milestone.roundValidators store.totalRound roundValidators
  let (info, c) ← (calculateRound c number).mapError .configuration
  return (.of info wallets, c)

/-- The store after these commits. -/
def storeOf (chain : List SyncedBlock) : Store :=
  chain.foldl (fun store b => store.onCommit (.commitState b.commit) b.commit.block) { height := 0 }

/-! ## Restore -/

structure RestoreContext where
  totalRound : Nat := 0
  validatorRounds : Nat → Option (RoundInfo × Nat) := fun _ => none

/-- What `#ingestBlocksAndTransactions` keeps of a block for the validator rounds. -/
def ingestBlock (state : Configuration κ ν × RestoreContext) (b : SyncedBlock) :
    Except SyncError (Configuration κ ν × RestoreContext) := do
  let (c, context) := state
  let totalRound := Double.round (context.totalRound + (b.round + 1))
  let (isNewRound, c) ← (isNewRound c (b.number + 1)).mapError .configuration
  if isNewRound then
    let (nextRound, c) ← (calculateRound c (b.number + 1)).mapError .configuration
    return (c, {
      totalRound
      validatorRounds :=
        match nextRound.round with
        | some round => Function.update context.validatorRounds round (some (nextRound, totalRound))
        | none => context.validatorRounds })
  else return (c, { context with totalRound })

def ingestBlocks (c : Configuration κ ν) (chain : List SyncedBlock) :
    Except SyncError (Configuration κ ν × RestoreContext) :=
  chain.foldlM ingestBlock (c, {})

/-- One round of `#ingestValidatorRounds`. -/
def ingestValidatorRound (context : RestoreContext)
    (recorded : Nat × List RoundValidator) : Except SyncError ValidatorRound :=
  match context.validatorRounds recorded.1 with
  | none => .error (.error "Expected value which is \"non-null and non-undefined\".")
  | some (info, totalRound) =>
    if info.maxValidators ≠ some recorded.2.length then
      let expected := (info.maxValidators.map toString).getD "undefined"
      .error (.error
        s!"mismatch in expected ({expected}) and actual ({recorded.2.length}) validator count")
    else do
      let validators ← proposalOrder info.maxValidators totalRound recorded.2
      return .of { info with round := some recorded.1 } validators

/-- The rounds that the contract has recorded after these blocks. -/
def roundsOf (chain : List SyncedBlock) : List (List RoundValidator) :=
  (chain.getLast?.map (·.contract.rounds)).getD []

/-- The rounds as `getRounds` numbers them. -/
def getRounds (rounds : List (List RoundValidator)) :
    List (Nat × List RoundValidator) :=
  (rounds.zipIdx 1).map swap

def restore (c : Configuration κ ν) (chain : List SyncedBlock) :
    Except SyncError (List ValidatorRound) := do
  let (_, context) ← ingestBlocks c chain
  (getRounds (roundsOf chain)).mapM (ingestValidatorRound context)

/-! ## Chains -/

/-- The end of a block: the contract selects the validators of a round that starts with the next block,
as many as the milestone of that block says. -/
inductive EndsBlock (keys : OtherKeys κ ν) (config : NetworkConfig κ ν) (b : SyncedBlock) : Prop
  | newRound {n : Nat} {random : Nat → Nat} : (∀ c : Configuration κ ν, c.Holds keys config →
        ∃ c', isNewRound c (b.number + 1) = .ok (true, c')) →
      (∀ c : Configuration κ ν, c.Holds keys config →
        ∃ m c', c.getMilestone (b.number + 1) = .ok (m, c') ∧ m.roundValidators = some n) →
      b.before.calculateRoundValidators random n = .ok b.contract → EndsBlock keys config b
  | sameRound : (∀ c : Configuration κ ν, c.Holds keys config →
        ∃ c', isNewRound c (b.number + 1) = .ok (false, c')) →
      b.contract.rounds = b.before.rounds → EndsBlock keys config b

/-- The blocks from genesis on. A block is committed in the round in which it was forged, or in a later
one in which it was proposed again. Within a block the contract is called in any way that keeps what its
selection relies on, and none that records a round. -/
inductive Chain (keys : OtherKeys κ ν) (config : NetworkConfig κ ν) : List SyncedBlock → Prop
  | genesis : Chain keys config []
  | commit {chain : List SyncedBlock} {b : SyncedBlock} : Chain keys config chain →
      b.number = config.genesisHeight + chain.length → b.round ≤ b.commit.proof.round →
      b.before.Selectable → b.before.rounds = roundsOf chain → EndsBlock keys config b →
      Chain keys config (chain ++ [b])

/-! ## Counting -/

/-- The total of the rounds of these blocks, as doubles count it. -/
def countRounds (round : SyncedBlock → Nat) (chain : List SyncedBlock) : Nat :=
  chain.foldl (fun total b => Double.round (total + (round b + 1))) 0

/-- The rounds by which these blocks were committed later than they were forged. -/
def delay (chain : List SyncedBlock) : Nat :=
  (chain.map fun b => b.commit.proof.round - b.round).sum

variable {keys : OtherKeys κ ν} {config : NetworkConfig κ ν} {chain : List SyncedBlock}
  {b : SyncedBlock}

theorem countRounds_concat (round : SyncedBlock → Nat) :
    countRounds round (chain ++ [b]) = Double.round (countRounds round chain + (round b + 1)) := by
  rw [countRounds, foldl_concat, countRounds]

variable {round : SyncedBlock → Nat} {rest : List SyncedBlock}

theorem countRounds_eq_sum (small : (chain.map (round · + 1)).sum ≤ 2 ^ 53) :
    countRounds round chain = (chain.map (round · + 1)).sum := by
  induction chain using reverseRecOn with
  | nil => rfl
  | append_singleton chain b ih =>
    rw [map_append, List.sum_append] at small ⊢
    have before := ih (le_trans (Nat.le_add_right ..) small)
    simp only [map_cons, map_nil, sum_cons, sum_nil, add_zero] at small ⊢
    rw [countRounds_concat, before, Double.round_of_le small]

theorem countRounds_congr {round' : SyncedBlock → Nat} (same : ∀ b ∈ chain, round b = round' b) :
    countRounds round chain = countRounds round' chain := by
  induction chain using reverseRecOn with
  | nil => rfl
  | append_singleton chain b ih =>
    obtain ⟨earlier, last⟩ := forall_mem_append.mp same
    rw [countRounds_concat, countRounds_concat, ih earlier, last b (mem_singleton_self b)]

theorem totalRound_storeOf : (storeOf chain).totalRound = countRounds (·.commit.proof.round) chain := by
  induction chain using reverseRecOn with
  | nil => rfl
  | append_singleton chain b ih =>
    rw [countRounds_concat, ← ih, storeOf, foldl_concat]
    rfl

theorem height_storeOf : (storeOf (chain ++ [b])).height = b.number + 1 := by
  rw [storeOf, foldl_concat]
  rfl

namespace Chain

/-- The total of the store is that of Restore and the delays. -/
theorem sum_eq (h : Chain keys config chain) :
    (chain.map (·.commit.proof.round + 1)).sum = (chain.map (·.round + 1)).sum + delay chain := by
  induction h with
  | genesis => rfl
  | commit _ _ later _ _ _ ih =>
    simp only [delay, map_append, List.sum_append, map_cons, map_nil, sum_cons, sum_nil] at ih ⊢
    omega

end Chain

theorem Chain.last (h : Chain keys config (chain ++ [b])) :
    Chain keys config chain ∧ b.number = config.genesisHeight + chain.length ∧
      b.before.Selectable ∧ b.before.rounds = roundsOf chain ∧ EndsBlock keys config b := by
  generalize whole : chain ++ [b] = all at h
  cases h with
  | genesis => simp at whole
  | commit earlier number _ selectable recorded ends =>
    obtain ⟨rfl, last⟩ := append_inj' whole rfl
    obtain rfl := singleton_inj.mp last
    exact ⟨earlier, number, selectable, recorded, ends⟩

theorem Chain.of_append (h : Chain keys config (chain ++ rest)) :
    Chain keys config chain := by
  induction rest using reverseRecOn with
  | nil => rwa [append_nil] at h
  | append_singleton rest b ih =>
    rw [← append_assoc] at h
    exact ih h.last.1

/-! ## The order of the proposers -/

section Order

variable {validators : List RoundValidator} {total : Nat}

/-- The order is a rotation by the total round. -/
theorem proposalOrder_eq_rotate (some_ : validators ≠ [])
    (small : total + validators.length ≤ 2 ^ 53) :
    proposalOrder (some validators.length) total validators = .ok (validators.rotate total) := by
  have positive : 0 < validators.length := length_pos_iff.mpr some_
  rw [proposalOrder, mapM_eq_ok, forall₂_iff_get]
  refine ⟨by simp, fun i inside _ => ?_⟩
  have below : i < validators.length := by simpa using inside
  obtain ⟨n, length⟩ := exists_eq_succ_of_ne_zero positive.ne'
  have index : getValidatorIndexFrom (some validators.length) total i =
      some ((i + total) % validators.length) := by
    rw [getValidatorIndexFrom, Double.round_of_le (by omega), add_comm, length]
    rfl
  simp only [get_eq_getElem, getElem_range, getElem_rotate, index, bind_some]
  rw [getElem?_eq_getElem (mod_lt _ positive)]

/-- The order, of which there always is one. -/
def ordered (total : Nat) (validators : List RoundValidator) :
    List RoundValidator :=
  ((proposalOrder (some validators.length) total validators).toOption).getD []

variable (some_ : validators ≠ [])
include some_

theorem proposalOrder_eq (total : Nat) :
    proposalOrder (some validators.length) total validators = .ok (ordered total validators) := by
  have positive : 0 < validators.length := length_pos_iff.mpr some_
  obtain ⟨n, length⟩ := exists_eq_succ_of_ne_zero positive.ne'
  have made : ∃ l, proposalOrder (some validators.length) total validators = .ok l := by
    refine exists_mapM fun i _ => ?_
    have index : getValidatorIndexFrom (some validators.length) total i =
        some (Double.round (total + i) % validators.length) := by
      rw [getValidatorIndexFrom, length]
      rfl
    rw [index, bind_some, getElem?_eq_getElem (mod_lt _ positive)]
    exact ⟨_, rfl⟩
  obtain ⟨l, made⟩ := made
  rw [ordered, made]
  rfl

theorem length_ordered : (ordered total validators).length = validators.length := by
  have made := proposalOrder_eq some_ total
  rw [proposalOrder, mapM_eq_ok] at made
  simpa using made.length_eq.symm

/-- Two orders of distinct validators are the same if the totals leave the same remainder. -/
theorem ordered_eq_iff {other : Nat} (distinct : (validators.map (·.addr)).Nodup)
    (small : total + validators.length ≤ 2 ^ 53) (small' : other + validators.length ≤ 2 ^ 53) :
    (ordered total validators).map (·.addr) = (ordered other validators).map (·.addr) ↔
      total % validators.length = other % validators.length := by
  have rotated {total : Nat} (small : total + validators.length ≤ 2 ^ 53) :
      ordered total validators = validators.rotate total :=
    ok.inj ((proposalOrder_eq some_ total).symm.trans (proposalOrder_eq_rotate some_ small))
  rw [rotated small, rotated small', map_rotate, map_rotate, distinct.rotate_congr_iff, length_map]
  simp [some_]

end Order

/-! ## The rounds that a chain starts -/

/-- The spans of a configuration. -/
structure Spans (config : NetworkConfig κ ν) where
  first : ValidatorMilestone
  later : List ValidatorMilestone
  strict : Strict config first later

/-- A round starts at this height. -/
def StartsRound (spans : Spans config) (height : Nat) : Prop :=
  (spanAt spans.first spans.later height).first height = height

instance (spans : Spans config) (height : Nat) : Decidable (StartsRound spans height) :=
  inferInstanceAs (Decidable (_ = _))

section Rounds

variable {spans : Spans config} {c : Configuration κ ν} {height : Nat}

theorem isNewRound_eq (spans : Spans config) (holds : c.Holds keys config)
    (reached : config.genesisHeight < height) :
    ∃ c', c'.Holds keys config ∧
      isNewRound c height = .ok (decide (StartsRound spans height), c') := by
  obtain ⟨c', holds', result⟩ := spans.strict.calculateRound_eq holds reached
  refine ⟨c', holds', ?_⟩
  simp only [isNewRound, result, bind, bind, pure, pure, infoOf, StartsRound]
  rfl

/-- The prefixes of a chain after which a round starts. -/
def starts (spans : Spans config) (chain : List SyncedBlock) : List (List SyncedBlock) :=
  chain.inits.filter fun p =>
    !p.isEmpty && decide (StartsRound spans (config.genesisHeight + p.length))

theorem starts_concat :
    starts spans (chain ++ [b]) = starts spans chain ++
      if StartsRound spans (config.genesisHeight + (chain.length + 1)) then [chain ++ [b]]
      else [] := by
  have inits : (chain ++ [b]).inits = chain.inits ++ [chain ++ [b]] := by simp [inits_append]
  rw [starts, inits, filter_append, ← starts]
  congr 1
  simp [filter_cons]

/-- The number of the round that starts after these blocks. -/
def roundAfter (spans : Spans config) (chain : List SyncedBlock) : Nat :=
  (spanAt spans.first spans.later (config.genesisHeight + chain.length)).block (config.genesisHeight + chain.length)

section

variable (spans : Spans config)

theorem startsRound_genesis :
    StartsRound spans (config.genesisHeight + 1) ∧
      (spanAt spans.first spans.later (config.genesisHeight + 1)).block (config.genesisHeight + 1) = 1 := by
  rw [StartsRound, spans.strict.spanAt_genesis, ← spans.strict.start_eq]
  refine ⟨?_, Segment.block_start (firstSpan spans.first)⟩
  simp [Segment.first]

theorem block_succ (reached : config.genesisHeight < height) :
    (spanAt spans.first spans.later (height + 1)).block (height + 1) =
      (spanAt spans.first spans.later height).block height + if StartsRound spans (height + 1) then 1 else 0 := by
  obtain ⟨block, begins⟩ := spans.strict.whole.block_succ (spans.strict.start_le reached)
  have starts : StartsRound spans (height + 1) ↔ _ := begins
  rw [if_congr starts rfl rfl]
  refine block.trans ?_
  rw [← spanAt]
  split <;> rfl

/-- The rounds are numbered as they start. -/
theorem length_starts (some_ : chain ≠ []) :
    (starts spans chain).length = roundAfter spans chain := by
  induction chain using reverseRecOn with
  | nil => contradiction
  | append_singleton chain b ih =>
    rw [starts_concat, length_append, roundAfter, length_append, length_singleton]
    cases chain with
    | nil =>
      obtain ⟨begins, one⟩ := startsRound_genesis spans
      rw [length_nil, zero_add, if_pos begins, one]
      rfl
    | cons x chain =>
      have reached : config.genesisHeight < config.genesisHeight + (x :: chain).length := by simp
      have next := block_succ spans reached
      rw [ih (by simp), roundAfter, ← add_assoc, next]
      split <;> rfl

end

variable {p : List SyncedBlock}

variable {i : Nat} {random : Nat → Nat}

theorem roundAfter_of_getElem? (spans : Spans config)
    (at_ : (starts spans chain)[i]? = some p) :
    roundAfter spans p = i + 1 := by
  induction chain using reverseRecOn with
  | nil => simp [starts] at at_
  | append_singleton chain b ih =>
    have counted : (starts spans (chain ++ [b])).length = _ :=
      length_starts spans (by simp)
    rw [starts_concat] at at_ counted
    rw [getElem?_append] at at_
    split at at_
    · exact ih at_
    · next beyond =>
      split at at_
      · next begins =>
        rw [if_pos begins, length_append, length_singleton] at counted
        obtain ⟨last, rfl⟩ : i - (starts spans chain).length = 0 ∧ chain ++ [b] = p := by
          simpa [getElem?_singleton] using at_
        omega
      · simp at at_

/-- The validators that the contract selected in the last of these blocks. -/
def selected (chain : List SyncedBlock) : List RoundValidator :=
  (chain.getLast?.map fun b => getRoundValidators b.contract).getD []

theorem selected_concat : selected (chain ++ [b]) = getRoundValidators b.contract := by
  simp [selected]

theorem roundsOf_concat : roundsOf (chain ++ [b]) = b.contract.rounds := by
  simp [roundsOf]

/-- What the contract records of a round is what it returns for it. -/
theorem rounds_of_calculateRoundValidators {s s' : State} {n : Nat}
    (calculated : s.calculateRoundValidators random n = .ok s') :
    s'.rounds = s.rounds ++ [getRoundValidators s'] := by
  obtain ⟨-, -, rfl⟩ := State.calculateRoundValidators_eq_ok.mp calculated
  rfl

/-- A round after these blocks has been selected as the calculator says. -/
structure Selects (spans : Spans config) (p : List SyncedBlock) : Prop where
  length : (selected p).length = (spanAt spans.first spans.later (config.genesisHeight + p.length)).length
  distinct : ((selected p).map (·.addr)).Nodup

theorem Chain.ends (spans : Spans config) (holds : c.Holds keys config)
    (h : Chain keys config (chain ++ [b])) :
    if StartsRound spans (config.genesisHeight + (chain.length + 1)) then
      roundsOf (chain ++ [b]) = roundsOf chain ++ [selected (chain ++ [b])] ∧
        Selects spans (chain ++ [b])
    else roundsOf (chain ++ [b]) = roundsOf chain := by
  obtain ⟨-, number, selectable, recorded, ends⟩ := h.last
  have height : b.number + 1 = config.genesisHeight + (chain.length + 1) := by omega
  have reached : config.genesisHeight < b.number + 1 := by omega
  obtain ⟨c', holds', isNew⟩ := isNewRound_eq spans holds reached
  rw [roundsOf_concat, ← recorded, ← height]
  cases ends with
  | @newRound n random new milestone calculated =>
    obtain ⟨_, isNew'⟩ := new c holds
    obtain ⟨starts, -⟩ := mk.inj (ok.inj (isNew.symm.trans isNew'))
    rw [if_pos (of_decide_eq_true starts), selected_concat]
    refine ⟨rounds_of_calculateRoundValidators calculated, ?_⟩
    obtain ⟨m, c₁, read, number'⟩ := milestone c holds
    obtain ⟨m', c₂, read', -, force⟩ := holds.getMilestone (spans.strict.inForce_eq reached)
    obtain ⟨rfl, -⟩ := mk.inj (ok.inj (read.symm.trans read'))
    obtain rfl := some.inj (number'.symm.trans force)
    obtain ⟨enough, l, best, -, perm⟩ := selectable.best calculated
    have round := isRound_of_best best enough perm
    constructor
    · rw [selected_concat, getRoundValidators, length_map, round.length, height,
        length_append, length_singleton]
    · rw [selected_concat, getRoundValidators, List.map_map]
      exact (map_id' _).symm ▸ round.nodup
  | sameRound same kept =>
    obtain ⟨_, isNew'⟩ := same c holds
    obtain ⟨starts, -⟩ := mk.inj (ok.inj (isNew.symm.trans isNew'))
    rw [if_neg (of_decide_eq_false starts)]
    exact kept

theorem Chain.recorded (spans : Spans config) (holds : c.Holds keys config)
    (h : Chain keys config chain) :
    roundsOf chain = (starts spans chain).map selected ∧
      ∀ p ∈ starts spans chain, Selects spans p := by
  induction chain using reverseRecOn with
  | nil => simp [roundsOf, starts]
  | append_singleton chain b ih =>
    obtain ⟨recorded, selects⟩ := ih h.last.1
    have ends := h.ends spans holds
    rw [starts_concat]
    by_cases begins : StartsRound spans (config.genesisHeight + (chain.length + 1))
    · rw [if_pos begins] at ends ⊢
      refine ⟨by rw [ends.1, recorded, map_append]; rfl, ?_⟩
      rw [forall_mem_append, forall_mem_singleton]
      exact ⟨selects, ends.2⟩
    · rw [if_neg begins] at ends ⊢
      rw [ends, append_nil]
      exact ⟨recorded, selects⟩

/-- What Restore knows of the round that starts after these blocks. -/
def restored (spans : Spans config) (p : List SyncedBlock) : RoundInfo × Nat :=
  (infoOf (spanAt spans.first spans.later (config.genesisHeight + p.length)) (config.genesisHeight + p.length),
    countRounds (·.round) p)

/-- The context after these blocks: under each number, the round that started with it. -/
def contextOf (spans : Spans config) (chain : List SyncedBlock) : RestoreContext where
  totalRound := countRounds (·.round) chain
  validatorRounds round :=
    match round with
    | 0 => none
    | i + 1 => (starts spans chain)[i]?.map (restored spans)

theorem contextOf_concat (spans : Spans config)
    (begins : StartsRound spans (config.genesisHeight + (chain.length + 1))) :
    (contextOf spans (chain ++ [b])).validatorRounds =
      Function.update (contextOf spans chain).validatorRounds
        (roundAfter spans (chain ++ [b]))
        (some (restored spans (chain ++ [b]))) := by
  have counted : (starts spans (chain ++ [b])).length = _ :=
    length_starts spans (by simp)
  rw [starts_concat, if_pos begins, length_append, length_singleton] at counted
  rw [← counted]
  funext round
  cases round with
  | zero => rfl
  | succ i =>
    simp only [contextOf, starts_concat, if_pos begins, Function.update_apply, add_left_inj]
    rw [getElem?_append]
    by_cases last : i = (starts spans chain).length
    · simp [last]
    · rw [if_neg last]
      split
      · rfl
      · next beyond =>
        rw [getElem?_eq_none (by rw [length_singleton]; omega), getElem?_eq_none (by omega)]

theorem contextOf_nil : contextOf spans [] = {} := by
  have empty : (contextOf spans []).validatorRounds = fun _ => none := by
    funext round
    cases round with
    | zero => rfl
    | succ i => simp [contextOf, starts]
  exact congrArg (RestoreContext.mk 0) empty

/-- One block. -/
theorem ingestBlock_eq (spans : Spans config) (holds : c.Holds keys config)
    (number : b.number = config.genesisHeight + chain.length) :
    ∃ c', c'.Holds keys config ∧ ingestBlock (c, contextOf spans chain) b =
      .ok (c', contextOf spans (chain ++ [b])) := by
  have height : b.number + 1 = config.genesisHeight + (chain.length + 1) := by omega
  have reached : config.genesisHeight < b.number + 1 := by omega
  have after : config.genesisHeight + (chain ++ [b]).length = b.number + 1 := by simp [height]
  obtain ⟨c₁, holds₁, isNew⟩ := isNewRound_eq spans holds reached
  have total : Double.round ((contextOf spans chain).totalRound + (b.round + 1)) =
      (contextOf spans (chain ++ [b])).totalRound :=
    (countRounds_concat (·.round)).symm
  simp only [ingestBlock, isNew, Except.mapError, bind, Except.bind, total]
  by_cases begins : StartsRound spans (b.number + 1)
  · obtain ⟨c₂, holds₂, info⟩ := spans.strict.calculateRound_eq holds₁ reached
    refine ⟨c₂, holds₂, ?_⟩
    have added := @contextOf_concat κ ν config chain b spans (height ▸ begins)
    rw [roundAfter, restored, after] at added
    simp only [begins, decide_true, if_true, info]
    exact congrArg (fun rounds => Except.ok
      (c₂, RestoreContext.mk (contextOf spans (chain ++ [b])).totalRound rounds)) added.symm
  · refine ⟨c₁, holds₁, ?_⟩
    have kept : (contextOf spans (chain ++ [b])).validatorRounds =
        (contextOf spans chain).validatorRounds := by
      rw [contextOf, starts_concat, if_neg (height ▸ begins), append_nil]
      rfl
    simp only [begins, decide_false, Bool.false_eq_true, if_false, ← kept]
    rfl

theorem Chain.ingest (spans : Spans config) (holds : c.Holds keys config)
    (h : Chain keys config chain) :
    ∃ c', c'.Holds keys config ∧ ingestBlocks c chain = .ok (c', contextOf spans chain) := by
  induction chain using reverseRecOn with
  | nil =>
    refine ⟨c, holds, ?_⟩
    rw [contextOf_nil]
    rfl
  | append_singleton chain b ih =>
    obtain ⟨c', holds', done⟩ := ih h.last.1
    obtain ⟨c'', holds'', next⟩ := ingestBlock_eq spans holds' h.last.2.1
    refine ⟨c'', holds'', ?_⟩
    rw [ingestBlocks, foldlM_append, ← ingestBlocks, done]
    simp only [foldlM_cons, foldlM_nil, bind, Except.bind, next]
    rfl

/-! ## The rows -/

theorem mem_starts : p ∈ starts spans chain ↔
    p <+: chain ∧ p ≠ [] ∧ StartsRound spans (config.genesisHeight + p.length) := by
  simp [starts]

theorem Selects.nonempty (spans : Spans config)
    (selects : Selects spans p) (some_ : p ≠ []) : selected p ≠ [] := by
  have reached : config.genesisHeight < config.genesisHeight + p.length :=
    Nat.lt_add_of_pos_right (length_pos_iff.mpr some_)
  have positive := (spans.strict.whole.locate (spans.strict.start_le reached)).1
  rw [← length_pos_iff, selects.length]
  exact positive

/-- The row of the round after these blocks, in the order that starts with this total round. -/
def rowAfter (spans : Spans config) (totalRound : Nat) (p : List SyncedBlock) : ValidatorRound :=
  .of (restored spans p).1 (ordered totalRound (selected p))

section

variable (spans : Spans config)

theorem Selects.ingestValidatorRound (at_ : (starts spans chain)[i]? = some p)
    (selects : Selects spans p) :
    ingestValidatorRound (contextOf spans chain) (i + 1, selected p) =
      .ok (rowAfter spans (countRounds (·.round) p) p) := by
  have some_ : p ≠ [] := (mem_starts.mp (mem_of_getElem? at_)).2.1
  have known : (contextOf spans chain).validatorRounds (i + 1) =
      some (restored spans p) := by
    simp only [contextOf, at_, map_some]
  have count : (restored spans p).1.maxValidators = some (selected p).length := by
    rw [selects.length]
    rfl
  have round : i + 1 = roundAfter spans p := (roundAfter_of_getElem? spans at_).symm
  simp only [ApiSync.ingestValidatorRound, known, count]
  rw [if_neg (not_not_intro rfl), proposalOrder_eq (selects.nonempty spans some_), round]
  rfl

theorem Chain.restore_eq (holds : c.Holds keys config) (h : Chain keys config chain) :
    restore c chain = .ok ((starts spans chain).map fun p =>
      rowAfter spans (countRounds (·.round) p) p) := by
  obtain ⟨c', -, ingested⟩ := h.ingest spans holds
  obtain ⟨recorded, selects⟩ := h.recorded spans holds
  rw [restore, ingested, recorded]
  show (getRounds _).mapM _ = _
  rw [mapM_eq_ok, forall₂_iff_get]
  refine ⟨by simp [getRounds], fun i _ inside => ?_⟩
  have inside : i < (starts spans chain).length := by simpa using inside
  have at_ := getElem?_eq_getElem inside
  have row := (selects _ (getElem_mem inside)).ingestValidatorRound spans at_
  simpa [getRounds, add_comm] using row

/-- The row of live sync for the round after these blocks. -/
theorem Selects.createValidatorRound (holds : c.Holds keys config)
    (number : b.number = config.genesisHeight + chain.length)
    (selects : Selects spans (chain ++ [b])) :
    ∃ c', createValidatorRound c (storeOf (chain ++ [b])) b.contract (b.number + 1) =
      .ok (rowAfter spans (countRounds (·.commit.proof.round) (chain ++ [b]))
        (chain ++ [b]), c') := by
  have reached : config.genesisHeight < b.number + 1 := by omega
  have after : config.genesisHeight + (chain ++ [b]).length = b.number + 1 := by
    simp [number, add_assoc]
  have length := selects.length
  rw [after, selected_concat] at length
  have some_ := selects.nonempty spans (by simp)
  rw [selected_concat] at some_
  have read {c : Configuration κ ν} (holds : c.Holds keys config) :
      ∃ m c', c.getMilestone (b.number + 1) = .ok (m, c') ∧ c'.Holds keys config ∧
        m.roundValidators = some (getRoundValidators b.contract).length := by
    rw [length]
    exact holds.getMilestone (spans.strict.inForce_eq reached)
  obtain ⟨m₁, c₁, read₁, holds₁, number₁⟩ := read holds
  obtain ⟨m₂, c₂, read₂, holds₂, number₂⟩ := read holds₁
  obtain ⟨m₃, c₃, read₃, holds₃, number₃⟩ := read holds₂
  obtain ⟨c₄, -, info⟩ := spans.strict.calculateRound_eq holds₃ reached
  refine ⟨c₄, ?_⟩
  have order := proposalOrder_eq some_ (countRounds (·.commit.proof.round) (chain ++ [b]))
  simp only [ApiSync.createValidatorRound, buildRoundValidators, topRoundValidators, height_storeOf,
    totalRound_storeOf, read₁, read₂, read₃, number₁, number₂, number₃, Except.mapError, bind,
    Except.bind, lt_irrefl, if_false, take_length, pure, Except.pure, if_true, order, info,
    rowAfter, restored, after, selected_concat]

/-- A round has one row. -/
theorem eq_of_round_eq {p q : List SyncedBlock}
    (hp : p ∈ starts spans chain) (hq : q ∈ starts spans chain)
    (same : roundAfter spans p = roundAfter spans q) : p = q := by
  obtain ⟨i, at_⟩ := getElem?_of_mem hp
  obtain ⟨j, at'⟩ := getElem?_of_mem hq
  rw [roundAfter_of_getElem? spans at_, roundAfter_of_getElem? spans at'] at same
  obtain rfl : i = j := by omega
  exact some.inj (at_.symm.trans at')

end

theorem round_rowAfter (total : Nat) (p : List SyncedBlock) :
    (rowAfter spans total p).round = some (roundAfter spans p) := rfl

theorem roundHeight_rowAfter (total : Nat) (p : List SyncedBlock) :
    (rowAfter spans total p).roundHeight = (restored spans p).1.roundHeight :=
  rfl

theorem length_validators_rowAfter {total : Nat} (some_ : selected p ≠ []) :
    (rowAfter spans total p).validators.length = (selected p).length := by
  rw [rowAfter, ValidatorRound.of, length_map, length_ordered some_]

end Rounds

/-! ## Restore and live sync -/

theorem Chain.agree_iff {c c' : Configuration κ ν} (spans : Spans config)
    (h : Chain keys config (chain ++ b :: rest)) (holds : c.Holds keys config)
    (holds' : c'.Holds keys config) (new : ∃ c'', isNewRound c (b.number + 1) = .ok (true, c'')) :
    ∃ rows row live c'', restore c (chain ++ b :: rest) = .ok rows ∧
      createValidatorRound c' (storeOf (chain ++ [b])) b.contract (b.number + 1) = .ok (live, c'') ∧
      row ∈ rows ∧ (∀ r ∈ rows, r.round = live.round ↔ r = row) ∧ row.roundHeight = live.roundHeight ∧
      live.validators.length = b.contract.roundValidators.length ∧
      ((∀ x ∈ chain ++ [b], x.commit.proof.round = x.round) → row = live) ∧
      (((chain ++ [b]).map (·.commit.proof.round + 1)).sum + live.validators.length ≤ 2 ^ 53 →
        (row.validators = live.validators ↔ live.validators.length ∣ delay (chain ++ [b]))) := by
  have split : chain ++ b :: rest = (chain ++ [b]) ++ rest := by simp
  have before : Chain keys config (chain ++ [b]) := (split ▸ h).of_append
  have number := before.last.2.1
  have reached : config.genesisHeight < b.number + 1 := by omega
  have begins : StartsRound spans (config.genesisHeight + (chain ++ [b]).length) := by
    obtain ⟨_, isNew⟩ := new
    obtain ⟨_, -, isNew'⟩ := isNewRound_eq spans holds reached
    obtain ⟨starts, -⟩ := mk.inj (ok.inj (isNew'.symm.trans isNew))
    have height : b.number + 1 = config.genesisHeight + (chain ++ [b]).length := by
      simp [number, add_assoc]
    exact height ▸ of_decide_eq_true starts
  have member : chain ++ [b] ∈ starts spans (chain ++ b :: rest) :=
    mem_starts.mpr ⟨⟨rest, split.symm⟩, by simp, begins⟩
  have selects := (h.recorded spans holds).2 _ member
  have some_ := selects.nonempty spans (by simp)
  obtain ⟨c'', live⟩ := selects.createValidatorRound spans holds' number
  refine ⟨_, _, _, c'', h.restore_eq spans holds, live, mem_map_of_mem member, ?_, ?_, ?_, ?_, ?_⟩
  · intro r written
    obtain ⟨p, hp, rfl⟩ := mem_map.mp written
    rw [round_rowAfter, round_rowAfter]
    constructor
    · intro same
      rw [eq_of_round_eq spans hp member (some.inj same)]
    · intro same
      rw [← round_rowAfter, same, round_rowAfter]
  · rw [roundHeight_rowAfter, roundHeight_rowAfter]
  · rw [length_validators_rowAfter some_, selected_concat, getRoundValidators, length_map]
  · intro prompt
    rw [countRounds_congr prompt]
  · rw [length_validators_rowAfter some_]
    intro small
    have sums := before.sum_eq
    rw [countRounds_eq_sum (by omega), countRounds_eq_sum (by omega)]
    refine (ordered_eq_iff some_ selects.distinct (by omega) (by omega)).trans ?_
    rw [← Nat.ModEq, Nat.modEq_iff_dvd' (by omega), sums, Nat.add_sub_cancel_left]

/-- Restore writes one row for each round that starts, with the number and the height that live sync
writes, and the two rows are the same where no block was committed later than it was forged. As long as
doubles count the rounds, the validators are in the same order exactly if the delays of the blocks so far
add up to a multiple of their number. -/
theorem validatorRounds_agree_iff {verify : Bool} {c₀ c c' : Configuration κ ν}
    (accepted : setConfig keys config verify = .ok c₀)
    (increasing : config.milestones.Pairwise (fun a b => a.height < b.height))
    (runs : ∃ out, calculateRound c₀ (config.genesisHeight + 1) = .ok out)
    {rest : List SyncedBlock} (h : Chain keys config (chain ++ b :: rest))
    (holds : c.Holds keys config) (holds' : c'.Holds keys config)
    (new : ∃ c'', isNewRound c (b.number + 1) = .ok (true, c'')) :
    ∃ rows row live c'', restore c (chain ++ b :: rest) = .ok rows ∧
      createValidatorRound c' (storeOf (chain ++ [b])) b.contract (b.number + 1) = .ok (live, c'') ∧
      row ∈ rows ∧ (∀ r ∈ rows, r.round = live.round ↔ r = row) ∧ row.roundHeight = live.roundHeight ∧
      live.validators.length = b.contract.roundValidators.length ∧
      ((∀ x ∈ chain ++ [b], x.commit.proof.round = x.round) → row = live) ∧
      (((chain ++ [b]).map (·.commit.proof.round + 1)).sum + live.validators.length ≤ 2 ^ 53 →
        (row.validators = live.validators ↔ live.validators.length ∣ delay (chain ++ [b]))) := by
  obtain ⟨first, later, strict⟩ := exists_strict accepted increasing runs
  exact h.agree_iff ⟨first, later, strict⟩ holds holds' new

end ApiSync

namespace ApiSync.Sample

open RoundCalculator.Sample (keys)

/-- No validators at genesis, two from the next block on. -/
def config : NetworkConfig Unit Unit where
  genesisHeight := 0
  milestones :=
    [⟨0, some 0, ⟨some 30000000, some 2097152, some 1⟩, ()⟩, ⟨1, some 2, ⟨none, none, none⟩, ()⟩]
  network := ()

theorem strict : Strict config ⟨1, 2⟩ [] where
  introduced := ⟨rfl, rfl⟩
  positive := by simp
  above := by simp
  sorted := .nil
  whole := succ_pos 1

def spans : Spans config := ⟨_, _, strict⟩

def configuration : Configuration Unit Unit := ⟨buildConfig keys config, 1⟩

theorem holds : configuration.Holds keys config := ⟨rfl, by decide⟩

def block (number commitRound : Nat) (before contract : ConsensusV1.State) : SyncedBlock :=
  ⟨⟨⟨number, [], 0⟩, ⟨⟨[], []⟩, commitRound⟩⟩, 0, before, contract⟩

theorem endsBlock {number commitRound : Nat} {random : Nat → Nat} {s s' : ConsensusV1.State}
    (begins : StartsRound spans (number + 1)) (two : (spanAt ⟨1, 2⟩ [] (number + 1)).length = 2)
    (calculated : s.calculateRoundValidators random 2 = .ok s') :
    EndsBlock keys config (block number commitRound s s') := by
  refine .newRound (fun c held => ?_) (fun c held => ?_) calculated
  · obtain ⟨c', -, isNew⟩ := isNewRound_eq spans held (succ_pos number)
    rw [decide_eq_true begins] at isNew
    exact ⟨c', isNew⟩
  · obtain ⟨m, c', read, -, force⟩ := held.getMilestone (strict.inForce_eq (succ_pos number))
    exact ⟨m, c', read, two ▸ force⟩

def register : List (Frames.Event ConsensusV1.Message) := [
  .call (ConsensusV1.Sample.register 2 (by decide) 2 0),
  .call (ConsensusV1.Sample.register 3 (by decide) 3 0),
  .call (ConsensusV1.Sample.register 4 (by decide) 4 0),
  .call (ConsensusV1.Sample.message 5 (by decide) (.vote 3) 0)]

theorem owner_ne_zero : (1 : Address) ≠ 0 := by decide

/-- The rounds and the number of selected validators after the next selection. -/
def next (s : ConsensusV1.State) : Option (List (List ConsensusV1.RoundValidator) × Nat) :=
  (s.calculateRoundValidators (fun i => i * i) 2).toOption.map fun s' =>
    (s'.rounds, s'.roundValidators.length)

/-- The first round of two blocks. The first of them is committed in a given round. -/
theorem exists_chain (commitRound : Nat) :
    ∃ s₀ s₁ s₂ s₃ : ConsensusV1.State, s₃.roundValidators.length = 2 ∧
      Chain keys config ([block 0 0 s₀ s₁, block 1 commitRound s₂ s₂] ++ [block 2 0 s₂ s₃]) := by
  obtain ⟨x₀, reached₀, found₀⟩ := ConsensusV1.Sample.exists_reachable (fun _ => True) 0 register
    (fun x => (x.state.rounds, next x.state)) ([], some ([[⟨2, 0⟩, ⟨3, 5⟩]], 2)) (by decide +kernel)
    (by simp [register, Frames.Event.Sends])
  obtain ⟨x₂, reached₂, found₂⟩ := ConsensusV1.Sample.exists_reachable (fun _ => True) 0
    (register ++ [.call (ConsensusV1.Sample.message 1 owner_ne_zero (.calculateRoundValidators 2) 0)])
    (fun x => (x.state.rounds, (next x.state).map snd))
    ([[⟨2, 0⟩, ⟨3, 5⟩]], some 2) (by decide +kernel) (by simp [register, Frames.Event.Sends])
  obtain ⟨none, calculated₀⟩ := mk.inj found₀
  obtain ⟨one, calculated₂⟩ := mk.inj found₂
  obtain ⟨s₁, made₁, recorded⟩ := Option.map_eq_some_iff.mp calculated₀
  rw [toOption_eq_some] at made₁
  simp only [next, Option.map_map, Option.map_eq_some_iff, toOption_eq_some] at calculated₂
  obtain ⟨s₃, made₃, two⟩ := calculated₂
  refine ⟨x₀.state, s₁, x₂.state, s₃, two, ?_⟩
  have zeroth : Chain keys config ([] ++ [block 0 0 x₀.state s₁]) :=
    .commit .genesis rfl (zero_le _) reached₀.selectable none (endsBlock (by decide) rfl made₁)
  have kept : x₂.state.rounds = s₁.rounds := one.trans (mk.inj recorded).1.symm
  have first : Chain keys config (([] ++ [block 0 0 x₀.state s₁]) ++
      [block 1 commitRound x₂.state x₂.state]) := by
    refine .commit zeroth rfl (zero_le _) reached₂.selectable kept (.sameRound ?_ rfl)
    intro c held
    obtain ⟨c', -, isNew⟩ := isNewRound_eq spans held (succ_pos 1)
    rw [decide_eq_false (by decide)] at isNew
    exact ⟨c', isNew⟩
  exact .commit first rfl (zero_le _) reached₂.selectable rfl (endsBlock (by decide) rfl made₃)

theorem isNewRound_three : ∃ c', isNewRound configuration 3 = .ok (true, c') := by
  obtain ⟨c', -, isNew⟩ := isNewRound_eq spans holds (succ_pos 2)
  rw [decide_eq_true (by decide)] at isNew
  exact ⟨c', isNew⟩

/-- With each block committed in the round it was forged in, both write the same row. -/
theorem validatorRounds_agree_iff_prompt :
    ∃ chain b rows live c', Chain keys config (chain ++ [b]) ∧
      restore configuration (chain ++ [b]) = .ok rows ∧
      createValidatorRound configuration (storeOf (chain ++ [b])) b.contract (b.number + 1) =
        .ok (live, c') ∧ live ∈ rows := by
  have accepted : setConfig keys config true = .ok configuration := rfl
  obtain ⟨_, -, runs⟩ := strict.calculateRound_eq holds (succ_pos 0)
  obtain ⟨s₀, s₁, s₂, s₃, -, chain⟩ := exists_chain 0
  obtain ⟨rows, row, live, c', restored, created, member, -, -, -, same, -⟩ :=
    validatorRounds_agree_iff accepted (by decide) ⟨_, runs⟩ chain holds holds isNewRound_three
  refine ⟨_, _, rows, live, c', chain, restored, created, ?_⟩
  rw [← same ?_]
  · exact member
  · simp [block]

/-- The first block of a round of two is forged in round 0, proposed again and committed in round 1. -/
theorem exists_validatorRounds_differ :
    ∃ chain b rows row live c', Chain keys config (chain ++ [b]) ∧
      restore configuration (chain ++ [b]) = .ok rows ∧
      createValidatorRound configuration (storeOf (chain ++ [b])) b.contract (b.number + 1) =
        .ok (live, c') ∧
      row ∈ rows ∧ row.round = live.round ∧ row.validators ≠ live.validators := by
  obtain ⟨s₀, s₁, s₂, s₃, two, chain⟩ := exists_chain 1
  obtain ⟨rows, row, live, c', restored, created, member, only, -, length, -, iff⟩ :=
    chain.agree_iff spans holds holds isNewRound_three
  refine ⟨_, _, rows, row, live, c', chain, restored, created, member, (only row member).mpr rfl, ?_⟩
  have length : live.validators.length = 2 := length.trans two
  rw [length] at iff
  rw [ne_eq, iff (by simp [block])]
  simp [delay, block]

end ApiSync.Sample

end Mainsail
