import Mainsail.BlockchainUtils.RoundCalculator
import Mainsail.Foundation.Segments

/-!
# The partition of the heights into rounds

The spans of `#getValidatorSpans` are segments of heights, and the rounds are their blocks. Where the
heights of the milestones are strictly increasing and the calculator does not throw, a span ends with a
whole round, so the heights with the same round number are one whole round.
-/

namespace Mainsail

open Configuration Segment List Option Nat

variable {κ ν : Type}

namespace RoundCalculator

def isNewRound (c : Configuration κ ν) (height : Nat) :
    Except ConfigurationError (Bool × Configuration κ ν) := do
  let (info, c) ← calculateRound c height
  return (info.roundHeight == some height, c)

/-! ## Spans as segments -/

/-- The milestones that change the number in force. -/
def changes (current : Nat) : List ValidatorMilestone → List (Nat × Nat)
  | [] => []
  | m :: milestones =>
    if m.roundValidators = current then changes current milestones
    else (m.height, m.roundValidators) :: changes m.roundValidators milestones

/-- The spans that the segments are. -/
def spansOf : Segment → List (Nat × Nat) → List ValidatorSpan
  | s, [] => [⟨s.start, none, s.index, some s.length⟩]
  | s, (height, number) :: changes =>
    ⟨s.start, some (height - 1), s.index, some s.length⟩ :: spansOf (s.next height number) changes

/-- The result of `calculateRound` for a height in a span. -/
def infoOf (s : Segment) (height : Nat) : RoundInfo where
  maxValidators := some s.length
  nextRound := some (if (height - s.start + 1) % s.length = 0 then s.block height + 1 else s.block height)
  round := some (s.block height)
  roundHeight := some (s.first height)

section Changes

variable {start current height : Nat} {s : Segment} {milestones : List ValidatorMilestone}

theorem lt_of_mem_changes (above : ∀ m ∈ milestones, height < m.height) :
    ∀ change ∈ changes current milestones, height < change.1 := by
  induction milestones generalizing current with
  | nil => simp [changes]
  | cons m milestones ih =>
    obtain ⟨here, rest⟩ := forall_mem_cons.mp above
    rw [changes]
    split
    · exact ih rest
    · exact forall_mem_cons.mpr ⟨here, ih rest⟩

/-- The number in force is the length of the rounds. -/
theorem inForce_eq_length (sorted : milestones.Pairwise (fun a b => a.height ≤ b.height)) :
    (inForce height milestones).getD s.length =
      (s.locate (changes s.length milestones) height).length := by
  induction milestones generalizing s with
  | nil => rfl
  | cons m milestones ih =>
    obtain ⟨le, rest⟩ := pairwise_cons.mp sorted
    by_cases reached : m.height ≤ height
    · rw [inForce_cons, if_pos reached]
      have carried : ((inForce height milestones).or (some m.roundValidators)).getD s.length =
          (inForce height milestones).getD m.roundValidators := by
        cases inForce height milestones <;> rfl
      rw [carried, changes]
      split
      next same =>
        rw [same]
        exact ih rest
      next =>
        rw [locate, if_neg (not_lt.mpr reached)]
        exact ih (s := s.next m.height m.roundValidators) rest
    · have above : ∀ e ∈ m :: milestones, height < e.height := by
        have first := Nat.lt_of_not_le reached
        exact forall_mem_cons.mpr ⟨first, fun e member => first.trans_le (le e member)⟩
      rw [inForce_of_lt above, locate_of_lt (lt_of_mem_changes above)]
      rfl

/-- If the number changes only after whole rounds, the segments are whole. -/
theorem whole_of_spansOnRounds (sorted : milestones.Pairwise (fun a b => a.height < b.height))
    (above : ∀ m ∈ milestones, s.start < m.height) (positive : ∀ m ∈ milestones, 0 < m.roundValidators)
    (counted : 0 < s.length) (whole : SpansOnRounds s.start s.length s.length milestones) :
    s.Whole (changes s.length milestones) := by
  induction milestones generalizing s with
  | nil => exact counted
  | cons m milestones ih =>
    obtain ⟨lt, sorted⟩ := pairwise_cons.mp sorted
    obtain ⟨here, above⟩ := forall_mem_cons.mp above
    obtain ⟨number, positive⟩ := forall_mem_cons.mp positive
    rw [SpansOnRounds, if_neg here.ne'] at whole
    rw [changes]
    by_cases same : m.roundValidators = s.length
    · rw [if_pos same] at whole ⊢
      exact ih sorted above positive counted whole
    · rw [if_neg same] at whole ⊢
      refine ⟨counted, here, whole.1, ?_⟩
      exact ih (s := s.next m.height m.roundValidators) sorted lt positive number whole.2

/-- The span that is found for a height is the segment it is in. -/
theorem find?_spansOf {changes : List (Nat × Nat)} (whole : s.Whole changes) :
    ∃ span, (spansOf s changes).find? (fun span => span.endHeight.all (height ≤ ·)) = some span ∧
      span.startHeight = (s.locate changes height).start ∧
      span.startRound = (s.locate changes height).index ∧
      span.roundValidators = some (s.locate changes height).length := by
  induction changes generalizing s with
  | nil => exact ⟨_, rfl, rfl, rfl, rfl⟩
  | cons change changes ih =>
    obtain ⟨next, number⟩ := change
    obtain ⟨-, after, -, rest⟩ := whole
    rw [spansOf, locate]
    by_cases here : height < next
    · have inside : height ≤ next - 1 := by omega
      rw [if_pos here, find?_cons_of_pos (by simpa using inside)]
      exact ⟨_, rfl, rfl, rfl, rfl⟩
    · have outside : ¬ height ≤ next - 1 := by omega
      rw [if_neg here, find?_cons_of_neg (by simpa using outside)]
      exact ih rest

end Changes

section Spans

variable {keys : OtherKeys κ ν} {config : NetworkConfig κ ν} {c : Configuration κ ν} {s : Segment}

theorem spansFrom_eq_of_found {c' c'' : Configuration κ ν} {start startRound count height number : Nat}
    {spans : List ValidatorSpan}
    (search : c.getNextMilestoneWithNewKey start Milestone.roundValidators =
      .ok (⟨some number, true, height⟩, c'))
    (even : remainder (height - start) (some count) = some 0)
    (rest : spansFrom c' height (startRound + (height - start) / count) (some number) =
      .ok (spans, c'')) :
    spansFrom c start startRound (some count) =
      .ok (⟨start, some (height - 1), startRound, some count⟩ :: spans, c'') := by
  rw [spansFrom]
  split
  · simp_all
  · simp_all
  next found =>
    rw [search] at found
    cases found
    rw [if_neg (not_not.mpr even)]
    simp only [getD_some, rest, bind, Except.bind]

/-- The spans that the loop finds. -/
theorem spansFrom_eq {before after : List ValidatorMilestone} (holds : c.Holds keys config)
    (walk : Passed config s.start s.length before after) (above : ∀ m ∈ after, s.start < m.height)
    (sorted : after.Pairwise (fun a b => a.height < b.height))
    (positive : ∀ m ∈ after, 0 < m.roundValidators) (whole : s.Whole (changes s.length after)) :
    ∃ c', c'.Holds keys config ∧ spansFrom c s.start s.index (some s.length) =
      .ok (spansOf s (changes s.length after), c') := by
  induction after generalizing before s c with
  | nil =>
    have all := walk.all
    rw [append_nil] at all
    obtain ⟨c', holds', search⟩ := holds.getNextMilestoneWithNewKey (all ▸ walk.known)
    rw [all, walk.find?_before] at search
    exact ⟨c', holds', spansFrom_of_not_found search⟩
  | cons m after ih =>
    obtain ⟨lt, sorted⟩ := pairwise_cons.mp sorted
    obtain ⟨here, later⟩ := forall_mem_cons.mp above
    obtain ⟨number, positive⟩ := forall_mem_cons.mp positive
    rw [changes] at whole ⊢
    by_cases same : m.roundValidators = s.length
    · rw [if_pos same] at whole ⊢
      exact ih holds (walk.repeated here.ne' same) later sorted positive whole
    rw [if_neg same] at whole ⊢
    have known : inForce s.start config.validatorMilestones = some s.length := by
      rw [walk.all, inForce_append, inForce_of_lt above, walk.known]
      rfl
    have new : m.isNew s.start s.length = true := by
      simp only [ValidatorMilestone.isNew]
      grind
    obtain ⟨c', holds', search⟩ := holds.getNextMilestoneWithNewKey known
    rw [walk.all, find?_append, walk.find?_before, none_or, find?_cons_of_pos new] at search
    obtain ⟨counted, -, divides, rest⟩ := whole
    obtain ⟨c'', holds'', spans⟩ :=
      ih (s := s.next m.height m.roundValidators) holds' walk.changed lt sorted positive rest
    exact ⟨c'', holds'', spansFrom_eq_of_found search (remainder_eq_zero.mpr ⟨counted, divides⟩) spans⟩

end Spans

/-- The segment that starts right after genesis. -/
def firstSpan (first : ValidatorMilestone) : Segment := ⟨first.height, 1, first.roundValidators⟩

/-- The span that a height is in. -/
def spanAt (first : ValidatorMilestone) (later : List ValidatorMilestone) (height : Nat) : Segment :=
  (firstSpan first).locate (changes first.roundValidators later) height

/-- What the two checks and the calculator require of strictly increasing milestones. -/
structure Strict (config : NetworkConfig κ ν) (first : ValidatorMilestone)
    (later : List ValidatorMilestone) : Prop where
  introduced : config.Introduced first later
  positive : ∀ m ∈ later, 0 < m.roundValidators
  above : ∀ m ∈ later, first.height < m.height
  sorted : later.Pairwise (fun a b => a.height < b.height)
  whole : (firstSpan first).Whole (changes first.roundValidators later)

namespace Strict

variable {keys : OtherKeys κ ν} {config : NetworkConfig κ ν} {c : Configuration κ ν}
  {first : ValidatorMilestone} {later : List ValidatorMilestone} {height : Nat}
  (strict : Strict config first later)

include strict

theorem start_le (reached : config.genesisHeight < height) : (firstSpan first).start ≤ height := by
  show first.height ≤ height
  rw [strict.introduced.2]
  exact reached

theorem inForce_eq (reached : config.genesisHeight < height) :
    inForce height config.validatorMilestones = some (spanAt first later height).length := by
  have low : first.height ≤ height := strict.start_le reached
  have known : (inForce height later).getD first.roundValidators =
      (spanAt first later height).length :=
    inForce_eq_length (s := firstSpan first) (strict.sorted.imp le_of_lt)
  rw [strict.introduced.1, inForce_cons, inForce_cons, if_pos low, ← known]
  cases inForce height later <;> rfl

theorem getValidatorSpans_eq (holds : c.Holds keys config) : ∃ c', c'.Holds keys config ∧
      getValidatorSpans c = .ok (spansOf (firstSpan first) (changes first.roundValidators later), c') := by
  have walk := passed_first strict.introduced
  have known : inForce first.height config.validatorMilestones = some first.roundValidators := by
    rw [walk.all, inForce_append, inForce_of_lt strict.above, walk.known]
    rfl
  obtain ⟨m, c', read, holds', number⟩ := holds.getMilestone known
  rw [strict.introduced.2, ← holds.genesisHeight_eq] at read
  obtain ⟨c'', holds'', spans⟩ := spansFrom_eq (s := firstSpan first) holds' walk strict.above
    strict.sorted strict.positive strict.whole
  refine ⟨c'', holds'', ?_⟩
  simp only [getValidatorSpans, read, bind, Except.bind, number]
  rw [holds.genesisHeight_eq, ← strict.introduced.2]
  exact spans

/-- The round of a height is the block of its span. -/
theorem calculateRound_eq (holds : c.Holds keys config) (reached : config.genesisHeight < height) :
    ∃ c', c'.Holds keys config ∧
      calculateRound c height = .ok (infoOf (spanAt first later height) height, c') := by
  obtain ⟨c', holds', spans⟩ := strict.getValidatorSpans_eq holds
  obtain ⟨span, found, start, index, length⟩ := @find?_spansOf height _ _ strict.whole
  have pos : 0 < (spanAt first later height).length := (strict.whole.locate (strict.start_le reached)).1
  refine ⟨c', holds', ?_⟩
  rw [← holds.genesisHeight_eq] at reached
  have other : height ≠ c.genesisHeight := reached.ne'
  have notBelow : ¬ height < c.genesisHeight := not_lt.mpr reached.le
  simp only [calculateRound, getValidatorSpan, other, notBelow, if_false, spans, found, bind, Except.bind,
    pure, Except.pure, start, index, length]
  rw [← spanAt]
  obtain ⟨n, eq⟩ := exists_eq_succ_of_ne_zero pos.ne'
  simp only [infoOf, Segment.block, Segment.first, eq, quotient, remainder, map_some,
    bind_some, some.injEq]
  split <;> rfl

theorem start_eq : (firstSpan first).start = config.genesisHeight + 1 := strict.introduced.2

theorem spanAt_genesis : spanAt first later (config.genesisHeight + 1) = firstSpan first := by
  rw [← strict.start_eq]
  exact locate_of_lt (lt_of_mem_changes strict.above)

/-- Every round is after genesis. -/
theorem genesisHeight_lt_first (reached : config.genesisHeight < height) :
    config.genesisHeight < (spanAt first later height).first height := by
  have start := (strict.whole.locate (strict.start_le reached)).2.1
  rw [strict.start_eq] at start
  exact start.trans (le_add_right _ _)

theorem block_pos (reached : config.genesisHeight < height) :
    0 < (spanAt first later height).block height := by
  have index : 1 ≤ (spanAt first later height).index :=
    (strict.whole.locate (strict.start_le reached)).2.2.2
  exact index.trans (le_add_right _ _)

/-- A new round starts at the next height exactly if the number of the next round is greater. -/
theorem isNewRound_succ (holds : c.Holds keys config) (reached : config.genesisHeight < height) :
    ∃ c', isNewRound c (height + 1) = .ok (decide ((spanAt first later height).block height <
        if (height - (spanAt first later height).start + 1) % (spanAt first later height).length = 0
        then (spanAt first later height).block height + 1
        else (spanAt first later height).block height), c') := by
  obtain ⟨c', -, result⟩ := strict.calculateRound_eq holds (lt_succ_of_lt reached)
  have starts := (strict.whole.block_succ (strict.start_le reached)).2
  rw [← spanAt, ← spanAt] at starts
  refine ⟨c', ?_⟩
  simp only [isNewRound, result, bind, Except.bind, pure, Except.pure, infoOf]
  by_cases ends : (height - (spanAt first later height).start + 1) %
      (spanAt first later height).length = 0
  · simp [ends, starts.mpr ends]
  · have inside : ¬ (spanAt first later (height + 1)).first (height + 1) = height + 1 :=
      fun eq => ends (starts.mp eq)
    simp [ends, inside]

end Strict

/-- Milestones that are accepted and at which the calculator does not throw are as required. -/
theorem exists_strict {keys : OtherKeys κ ν} {config : NetworkConfig κ ν} {verify : Bool}
    {c : Configuration κ ν} (accepted : setConfig keys config verify = .ok c)
    (increasing : config.milestones.Pairwise (fun a b => a.height < b.height))
    (ok : ∃ out, calculateRound c (config.genesisHeight + 1) = .ok out) :
    ∃ first later, Strict config first later := by
  obtain ⟨checked, -, rfl⟩ := setConfig_eq_ok.mp accepted
  obtain ⟨positive, first, later, introduced, -⟩ := checkRoundValidators_eq_ok.mp checked
  obtain ⟨here, rest⟩ := forall_mem_cons.mp (introduced.positive_iff.mp positive)
  have sorted : config.validatorMilestones.Pairwise (fun a b => a.height < b.height) := by
    have same : sortByHeight config.milestones = config.milestones :=
      Pairwise.insertionSort_eq (increasing.imp le_of_lt)
    unfold NetworkConfig.validatorMilestones
    rw [same]
    refine Pairwise.filterMap _ ?_ increasing
    intro a b lt e he f hf
    rw [← (Milestone.toValidatorMilestone_eq_some.mp he).1,
      ← (Milestone.toValidatorMilestone_eq_some.mp hf).1]
    exact lt
  rw [introduced.1] at sorted
  obtain ⟨above, sorted⟩ := pairwise_cons.mp (pairwise_cons.mp sorted).2
  -- no other milestone is at the start of the first span
  have settled : settle first.height first.roundValidators later = (first.roundValidators, later) := by
    cases later with
    | nil => rfl
    | cons m later => exact if_neg (above m (mem_cons_self ..)).ne'
  have holds : Configuration.Holds keys config ⟨buildConfig keys config, 1⟩ := by
    refine ⟨rfl, ?_⟩
    show 1 ≤ (buildMilestones keys config).length
    have some : config.validatorMilestones ≠ [] := by simp [introduced.1]
    unfold buildMilestones
    unfold NetworkConfig.validatorMilestones at some
    cases all : sortByHeight config.milestones with
    | nil => simp [all] at some
    | cons m milestones => simp [length_scanl]
  have spans := (calculateRound_ok_iff (lt_succ_self _)).mp ok
  rw [getValidatorSpans_ok_iff holds positive introduced, settled] at spans
  refine ⟨first, later, introduced, rest, above, sorted, ?_⟩
  exact whole_of_spansOnRounds (s := firstSpan first) sorted above rest here spans

/-- The calculator returns `info` for the height, whichever milestone was read last. -/
def Returns (keys : OtherKeys κ ν) (config : NetworkConfig κ ν) (height : Nat) (info : RoundInfo) : Prop :=
  ∀ c : Configuration κ ν, c.Holds keys config → ∃ c', calculateRound c height = .ok (info, c')

/-- The rounds partition the heights. From genesis on there is a result for each height; for one after
genesis it is a round of `validators` heights from `start` on, which are those with its number, and the
milestone in force at each of them has this number of validators. -/
theorem rounds_partition {keys : OtherKeys κ ν} {config : NetworkConfig κ ν} {verify : Bool}
    {c : Configuration κ ν} (accepted : setConfig keys config verify = .ok c)
    (increasing : config.milestones.Pairwise (fun a b => a.height < b.height))
    (runs : ∀ height, config.genesisHeight ≤ height → ∃ out, calculateRound c height = .ok out) :
    ∃ infos : Nat → RoundInfo,
      (∀ height, config.genesisHeight ≤ height → Returns keys config height (infos height)) ∧
      (infos (config.genesisHeight + 1)).round = some 1 ∧
      ∀ height, config.genesisHeight < height →
        ∃ validators round next start, infos height = ⟨some validators, some next, some round, some start⟩ ∧
          (∀ other, config.genesisHeight ≤ other →
            ((infos other).round = some round ↔ start ≤ other ∧ other < start + validators)) ∧
          (∀ other, start ≤ other → other < start + validators →
            ∀ c : Configuration κ ν, c.Holds keys config →
              ∃ m c', c.getMilestone other = .ok (m, c') ∧ m.roundValidators = some validators) ∧
          (infos (height + 1)).round = some next ∧
          ∀ c : Configuration κ ν, c.Holds keys config →
            ∃ c', isNewRound c (height + 1) = .ok (decide (round < next), c') := by
  obtain ⟨first, later, strict⟩ := exists_strict accepted increasing (runs _ (le_succ _))
  let genesis : RoundInfo := ⟨some 0, some 1, some 0, some config.genesisHeight⟩
  let infos (height : Nat) : RoundInfo :=
    if height = config.genesisHeight then genesis else infoOf (spanAt first later height) height
  have infos_eq : ∀ {height}, config.genesisHeight < height →
      infos height = infoOf (spanAt first later height) height := fun above => if_neg above.ne'
  refine ⟨infos, ?_, ?_, ?_⟩
  · intro height le c holds
    obtain rfl | above := eq_or_lt_of_le le
    · refine ⟨c, ?_⟩
      simp [calculateRound, holds.genesisHeight_eq, pure, Except.pure, infos, genesis]
    · obtain ⟨c', -, result⟩ := strict.calculateRound_eq holds above
      exact ⟨c', result.trans (by rw [infos_eq above])⟩
  · have after : config.genesisHeight < config.genesisHeight + 1 := lt_succ_self _
    rw [infos_eq after, strict.spanAt_genesis, ← strict.start_eq]
    exact congrArg some (block_start (firstSpan first))
  · intro height above
    have reached := strict.start_le above
    have low := strict.genesisHeight_lt_first above
    refine ⟨_, _, _, _, infos_eq above, ?_, ?_, ?_, ?_⟩
    · intro other le
      obtain rfl | above' := eq_or_lt_of_le le
      · -- genesis is round zero, and below every other round
        have positive := strict.block_pos above
        have zero : (infos config.genesisHeight).round = some 0 := by simp [infos, genesis]
        rw [zero, some.injEq]
        omega
      · rw [infos_eq above']
        exact some_inj.trans (strict.whole.block_eq_iff (strict.start_le above') reached)
    · intro other le lt c holds
      have above' : config.genesisHeight < other := low.trans_le le
      have reached' := strict.start_le above'
      have same := strict.whole.locate_eq reached' reached
        ((strict.whole.block_eq_iff reached' reached).mpr ⟨le, lt⟩)
      obtain ⟨m, c', read, -, number⟩ := holds.getMilestone (strict.inForce_eq above')
      refine ⟨m, c', read, number.trans ?_⟩
      exact congrArg (fun span : Segment => some span.length) same
    · rw [infos_eq (lt_succ_of_lt above)]
      exact congrArg some (strict.whole.block_succ reached).1
    · intro c holds
      exact strict.isNewRound_succ holds above

open Sample

theorem rounds_partition_sample : ∃ infos : Nat → RoundInfo,
      (∀ height, 0 ≤ height → Returns keys (config 4 7) height (infos height)) ∧
      (infos 1).round = some 1 ∧ infos 8 = ⟨some 5, some 3, some 3, some 7⟩ ∧
      (∀ other, 0 ≤ other → ((infos other).round = some 3 ↔ 7 ≤ other ∧ other < 7 + 5)) ∧
      (∀ other, 7 ≤ other → other < 7 + 5 → ∀ c, Configuration.Holds keys (config 4 7) c →
        ∃ m c', c.getMilestone other = .ok (m, c') ∧ m.roundValidators = some 5) ∧
      ∀ c, Configuration.Holds keys (config 4 7) c → ∃ c', isNewRound c 9 = .ok (false, c') := by
  have introduced : (config 4 7).Introduced ⟨1, 3⟩ [⟨4, 3⟩, ⟨7, 5⟩] := ⟨rfl, rfl⟩
  have positive : (config 4 7).Positive := introduced.positive_iff.mpr (by decide)
  have holds : Configuration.Holds keys (config 4 7)
      ⟨buildConfig keys (config 4 7), 1⟩ := ⟨rfl, by decide⟩
  have never : NeverThrows keys (config 4 7) := by
    rw [neverThrows_iff positive introduced]
    simp [settle, SpansOnRounds]
  have accepted : setConfig keys (config 4 7) true =
      .ok ⟨buildConfig keys (config 4 7), 1⟩ := rfl
  obtain ⟨infos, returns, one, rounds⟩ := rounds_partition accepted (by decide) (never _ holds)
  obtain ⟨validators, round, next, start, eight, others, milestones, -, isNew⟩ := rounds 8 (by decide)
  obtain ⟨c', read⟩ := returns 8 (Nat.zero_le _) _ holds
  have there : infos 8 = ⟨some 5, some 3, some 3, some 7⟩ := by
    have value : (calculateRound ⟨buildConfig keys (config 4 7), 1⟩ 8).map (·.1) =
        .ok ⟨some 5, some 3, some 3, some 7⟩ := by decide +kernel
    rw [read] at value
    exact Except.ok.inj value
  have same := eight.symm.trans there
  simp only [RoundInfo.mk.injEq, some.injEq] at same
  obtain ⟨rfl, rfl, rfl, rfl⟩ := same
  exact ⟨infos, returns, one, there, others, milestones, isNew⟩

end RoundCalculator

end Mainsail
