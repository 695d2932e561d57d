import Mainsail.CryptoConfig.Configuration

/-!
# Rounds of blocks

`RoundCalculator.calculateRound` divides the heights into spans with the same number of validators,
and each span into rounds. It throws if a span is not a whole number of rounds. The configuration is
meant to rule that out, with a check of its own: there the distance of a change is taken from the
milestone before it, here from the start of the span. A milestone between the two that mentions a
number without changing it makes the difference.
-/

namespace Mainsail

open Configuration List

variable {κ ν : Type}

structure ValidatorSpan where
  startHeight : Nat
  endHeight : Option Nat
  startRound : Nat
  roundValidators : Option Nat
  deriving DecidableEq, Repr

/-- A value is `none` if it is not a finite number. -/
structure RoundInfo where
  maxValidators : Option Nat
  nextRound : Option Nat
  round : Option Nat
  roundHeight : Option Nat
  deriving DecidableEq, Repr

namespace RoundCalculator

/-- The loop of `#getValidatorSpans`, from the span that starts at `startHeight`. -/
def spansFrom (c : Configuration κ ν) (startHeight startRound : Nat) (roundValidators : Option Nat) :
    Except ConfigurationError (List ValidatorSpan × Configuration κ ν) :=
  match _found : c.getNextMilestoneWithNewKey startHeight Milestone.roundValidators with
  | .error e => .error e
  | .ok (⟨_, false, _⟩, c') => .ok ([⟨startHeight, none, startRound, roundValidators⟩], c')
  | .ok (⟨data, true, height⟩, c') =>
    let spanHeights := height - startHeight
    if remainder spanHeights roundValidators ≠ some 0 then
      .error (.invalidMilestoneConfiguration
        s!"Bad milestone at height: {height}. The number of validators can only be changed at the beginning of a new round.")
    else
      match data with
      | none => .error (.error "Expected value which is \"number\".")
      | some number => do
        let (spans, c'') ← spansFrom c' height (startRound + spanHeights / roundValidators.getD 0)
          (some number)
        .ok (⟨startHeight, some (height - 1), startRound, roundValidators⟩ :: spans, c'')
termination_by (c.milestones.filter (startHeight < ·.height)).length
decreasing_by
  -- the milestone that was found no longer counts
  obtain ⟨config, up, m, member, rfl⟩ := findNewKey_found _found
  have same : c'.milestones = c.milestones := congrArg NetworkConfig.milestones config
  have nested : c.milestones.filter (m.height < ·.height) =
      (c.milestones.filter (startHeight < ·.height)).filter (m.height < ·.height) := by
    rw [filter_filter]
    refine filter_congr fun n _ => ?_
    rw [← Bool.decide_and, decide_eq_decide]
    omega
  rw [same, nested]
  refine length_filter_lt_length_iff_exists.mpr ⟨m, ?_, by simp⟩
  exact mem_filter.mpr ⟨member, by simpa using up⟩

def getValidatorSpans (c : Configuration κ ν) :
    Except ConfigurationError (List ValidatorSpan × Configuration κ ν) := do
  let startHeight := c.genesisHeight + 1
  let (milestone, c) ← c.getMilestone startHeight
  spansFrom c startHeight 1 milestone.roundValidators

def getValidatorSpan (c : Configuration κ ν) (height : Nat) :
    Except ConfigurationError (ValidatorSpan × Configuration κ ν) := do
  let genesisHeight := c.genesisHeight
  if height < genesisHeight then
    throw (.error s!"Height {height} is below the genesis height {genesisHeight}")
  let (spans, c) ← getValidatorSpans c
  match spans.find? (fun span => span.endHeight.all (height ≤ ·)) with
  | none => .error (.error "Expected value which is \"non-null and non-undefined\".")
  | some span => .ok (span, c)

def calculateRound (c : Configuration κ ν) (height : Nat) :
    Except ConfigurationError (RoundInfo × Configuration κ ν) := do
  -- Genesis round requires special treatment
  if height = c.genesisHeight then
    return (⟨some 0, some 1, some 0, some c.genesisHeight⟩, c)
  let (span, c) ← getValidatorSpan c height
  let heightsIntoSpan := height - span.startHeight
  let roundsIntoSpan := quotient heightsIntoSpan span.roundValidators
  let round := roundsIntoSpan.map (span.startRound + ·)
  return ({
    maxValidators := span.roundValidators
    -- The next block starts a new round when this one is the last block of its round
    nextRound :=
      if remainder (heightsIntoSpan + 1) span.roundValidators = some 0 then round.map (· + 1)
      else round
    round
    roundHeight := roundsIntoSpan.bind fun rounds =>
      span.roundValidators.map fun validators => span.startHeight + rounds * validators }, c)

/-! ## When the spans are whole rounds -/

/-- The number changes only after whole rounds of the span: `start` is where the span starts and
`count` its number, `current` is the number in force so far. A milestone at the start of the span
changes what is in force, not what the span counts with. -/
def SpansOnRounds (start count current : Nat) : List ValidatorMilestone → Prop
  | [] => True
  | m :: milestones =>
    if m.height = start then SpansOnRounds start count m.roundValidators milestones
    else if m.roundValidators = current then SpansOnRounds start count current milestones
    else count ∣ m.height - start ∧
      SpansOnRounds m.height m.roundValidators m.roundValidators milestones

section Spans

variable {keys : OtherKeys κ ν} {config : NetworkConfig κ ν} {c c' : Configuration κ ν}
  {start startRound count current : Nat}

theorem spansFrom_of_not_found {roundValidators data : Option Nat} {height : Nat}
    (search : c.getNextMilestoneWithNewKey start Milestone.roundValidators =
      .ok (⟨data, false, height⟩, c')) :
    spansFrom c start startRound roundValidators =
      .ok ([⟨start, none, startRound, roundValidators⟩], c') := by
  rw [spansFrom]
  split <;> simp_all

theorem spansFrom_of_found {height number : Nat}
    (search : c.getNextMilestoneWithNewKey start Milestone.roundValidators =
      .ok (⟨some number, true, height⟩, c')) :
    (∃ out, spansFrom c start startRound (some count) = .ok out) ↔
      remainder (height - start) (some count) = some 0 ∧
      ∃ out, spansFrom c' height (startRound + (height - start) / count) (some number) = .ok out := by
  rw [spansFrom]
  split
  · simp_all
  · simp_all
  next found =>
    rw [search] at found
    cases found
    by_cases whole : remainder (height - start) (some count) = some 0
    · rw [if_neg (not_not.mpr whole)]
      simp only [whole, true_and, bind, Except.bind, Option.getD_some]
      cases spansFrom c' height (startRound + (height - start) / count) (some number) <;> simp
    · simp [whole]

/-- Of the validator milestones, those `before` have been passed: each is at or below the start of the
span, or repeats the number in force. -/
structure Passed (config : NetworkConfig κ ν) (start current : Nat)
    (before after : List ValidatorMilestone) : Prop where
  all : config.validatorMilestones = before ++ after
  known : inForce start before = some current
  passed : ∀ m ∈ before, m.height ≤ start ∨ m.roundValidators = current
  ahead : ∀ m ∈ after, start ≤ m.height

namespace Passed

variable {before after : List ValidatorMilestone} {m : ValidatorMilestone}

section

variable (h : Passed config start current before (m :: after))
include h

theorem height_le : (∀ e ∈ before, e.height ≤ m.height) ∧ ∀ e ∈ after, m.height ≤ e.height := by
  have sorted := config.sorted_validatorMilestones
  rw [h.all] at sorted
  obtain ⟨-, later, across⟩ := pairwise_append.mp sorted
  exact ⟨fun e member => across e member m (mem_cons_self ..), (pairwise_cons.mp later).1⟩

theorem all_concat : config.validatorMilestones = (before ++ [m]) ++ after := by
  rw [h.all, append_assoc, singleton_append]

/-- Another milestone at the start of the span. -/
theorem at_start (here : m.height = start) :
    Passed config start m.roundValidators (before ++ [m]) after where
  all := h.all_concat
  known := by simp [inForce_append, inForce_cons, here]
  passed e member := by
    obtain earlier | rfl := by simpa using member
    · exact .inl (here ▸ h.height_le.1 e earlier)
    · exact .inr rfl
  ahead e member := here ▸ h.height_le.2 e member

/-- A milestone that repeats the number in force. -/
theorem repeated (above : m.height ≠ start)
    (same : m.roundValidators = current) : Passed config start current (before ++ [m]) after where
  all := h.all_concat
  known := by
    have := h.ahead m (mem_cons_self ..)
    have high : ¬ m.height ≤ start := by omega
    simp [inForce_append, inForce_cons, high, h.known]
  passed e member := by
    obtain earlier | rfl := by simpa using member
    · exact h.passed e earlier
    · exact .inr same
  ahead e member := h.ahead e (mem_cons_of_mem _ member)

/-- A change starts the next span. -/
theorem changed :
    Passed config m.height m.roundValidators (before ++ [m]) after where
  all := h.all_concat
  known := by simp [inForce_append, inForce_cons]
  passed e member := by
    obtain earlier | rfl := by simpa using member
    · exact .inl (h.height_le.1 e earlier)
    · exact .inr rfl
  ahead := h.height_le.2

end

theorem find?_before (h : Passed config start current before after) :
    before.find? (·.isNew start current) = none := by
  refine find?_eq_none.mpr fun m member => ?_
  have := h.passed m member
  simp only [ValidatorMilestone.isNew]
  grind

end Passed

/-- The loop runs through when the number changes only after whole rounds. -/
theorem spansFrom_ok_iff {before after : List ValidatorMilestone} (holds : c.Holds keys config)
    (walk : Passed config start current before after)
    (positive : ∀ m ∈ after, 0 < m.roundValidators) (counted : 0 < count) :
    (∃ out, spansFrom c start startRound (some count) = .ok out) ↔
      SpansOnRounds start count current after := by
  induction after generalizing before start count current startRound c with
  | nil =>
    have all := walk.all
    rw [append_nil] at all
    obtain ⟨c', -, search⟩ := holds.getNextMilestoneWithNewKey (all ▸ walk.known)
    rw [all, walk.find?_before] at search
    simp [SpansOnRounds, spansFrom_of_not_found search]
  | cons m after ih =>
    obtain ⟨here, later⟩ := forall_mem_cons.mp positive
    rw [SpansOnRounds]
    by_cases begins : m.height = start
    · rw [if_pos begins]
      exact ih holds (walk.at_start begins) later counted
    rw [if_neg begins]
    by_cases same : m.roundValidators = current
    · rw [if_pos same]
      exact ih holds (walk.repeated begins same) later counted
    rw [if_neg same]
    have above : ∀ e ∈ m :: after, start < e.height := by
      have first : start < m.height :=
        Nat.lt_of_le_of_ne (walk.ahead m (mem_cons_self ..)) (Ne.symm begins)
      exact forall_mem_cons.mpr ⟨first, fun e member => first.trans_le (walk.height_le.2 e member)⟩
    have known : inForce start config.validatorMilestones = some current := by
      rw [walk.all, inForce_append, inForce_of_lt above, walk.known]
      rfl
    have new : m.isNew start current = true := by
      have := above m (mem_cons_self ..)
      simp only [ValidatorMilestone.isNew]
      grind
    obtain ⟨c', holds', search⟩ := holds.getNextMilestoneWithNewKey known
    rw [walk.all, find?_append, walk.find?_before, Option.none_or, find?_cons_of_pos new] at search
    rw [spansFrom_of_found search, remainder_eq_zero]
    simp only [counted, true_and]
    exact and_congr_right fun _ => ih holds' walk.changed later here

/-- The last span is open. -/
theorem exists_open_span {roundValidators : Option Nat} {spans : List ValidatorSpan}
    (h : spansFrom c start startRound roundValidators = .ok (spans, c')) :
    ∃ span ∈ spans, span.endHeight = none := by
  fun_induction spansFrom c start startRound roundValidators generalizing spans c' with
  | case1 => cases h
  | case2 =>
    cases h
    exact ⟨_, mem_singleton_self _, rfl⟩
  | case3 => cases h
  | case4 => cases h
  | case5 _ _ startRound roundValidators height c₁ spanHeights _ number =>
    rename_i ih
    cases rest : spansFrom c₁ height (startRound + spanHeights / roundValidators.getD 0)
        (some number) with
    | error e =>
      rw [rest] at h
      cases h
    | ok out =>
      rw [rest] at h
      cases h
      obtain ⟨span, member, isOpen⟩ := ih rest
      exact ⟨span, mem_cons_of_mem _ member, isOpen⟩

end Spans

/-- Above genesis, a round is calculated whenever the spans are. -/
theorem calculateRound_ok_iff {c : Configuration κ ν} {height : Nat} (above : c.genesisHeight < height) :
    (∃ out, calculateRound c height = .ok out) ↔ ∃ out, getValidatorSpans c = .ok out := by
  have other : height ≠ c.genesisHeight := Nat.ne_of_gt above
  have notBelow : ¬ height < c.genesisHeight := Nat.not_lt.mpr above.le
  cases spans : getValidatorSpans c with
  | error e =>
    simp [calculateRound, getValidatorSpan, other, notBelow, spans, bind, Except.bind]
  | ok out =>
    have isOpen : ∃ span ∈ out.1, span.endHeight = none := by
      simp only [getValidatorSpans, bind, Except.bind] at spans
      split at spans
      · cases spans
      · exact exists_open_span spans
    have found : (out.1.find? (fun span => span.endHeight.all (height ≤ ·))).isSome := by
      obtain ⟨span, member, last⟩ := isOpen
      exact find?_isSome.mpr ⟨span, member, by simp [last]⟩
    obtain ⟨span, found⟩ := Option.isSome_iff_exists.mp found
    simp [calculateRound, getValidatorSpan, other, notBelow, spans, found, bind, Except.bind, pure,
      Except.pure]

/-! ## The two checks compared -/

/-- The number that the milestones at `start` leave, and the milestones after them. -/
def settle (start : Nat) : Nat → List ValidatorMilestone → Nat × List ValidatorMilestone
  | count, [] => (count, [])
  | count, m :: milestones =>
    if m.height = start then settle start m.roundValidators milestones else (count, m :: milestones)

/-- A number that is repeated before it changes is repeated after whole rounds, counted from the start
of its span. It is the last milestone before the change that matters, at `last`. Of milestones at one
height the calculator goes by the first one and the configuration by the last one. If their numbers
differ, the next change comes after whole rounds of both or of neither. -/
def InStep (start count current last : Nat) : List ValidatorMilestone → Prop
  | [] => True
  | m :: milestones =>
    if m.height = start then InStep start count m.roundValidators start milestones
    else if m.roundValidators = current then InStep start count current m.height milestones
    else (if current = count then current ∣ last - start
        else (current ∣ m.height - last ↔ count ∣ m.height - start)) ∧
      InStep m.height m.roundValidators m.roundValidators m.height milestones

instance decidableInStep : (start count current last : Nat) → (milestones : List ValidatorMilestone) →
    Decidable (InStep start count current last milestones)
  | _, _, _, _, [] => .isTrue trivial
  | start, count, current, _, m :: milestones =>
    have := decidableInStep start count m.roundValidators start milestones
    have := decidableInStep start count current m.height milestones
    have := decidableInStep m.height m.roundValidators m.roundValidators m.height milestones
    inferInstanceAs (Decidable (ite _ _ _))

section Compare

variable {start count current last : Nat} {milestones : List ValidatorMilestone}

variable (above : start ≤ last) (sorted : (last :: milestones.map (·.height)).Pairwise (· ≤ ·))
include above sorted

theorem changesOnRounds_iff_of_inStep (inStep : InStep start count current last milestones) :
    ChangesOnRounds ⟨last, current⟩ milestones ↔ SpansOnRounds start count current milestones := by
  induction milestones generalizing start count current last with
  | nil => exact Iff.rfl
  | cons m milestones ih =>
    obtain ⟨le, rest⟩ := pairwise_cons.mp sorted
    have next : last ≤ m.height := le m.height (mem_cons_self ..)
    simp only [ChangesOnRounds, SpansOnRounds, InStep] at inStep ⊢
    by_cases begins : m.height = start
    · subst begins
      have zero : m.height - last = 0 := by omega
      simp only [if_true, zero, Nat.dvd_zero, or_true, true_and] at inStep ⊢
      exact ih le_rfl rest inStep
    by_cases same : m.roundValidators = current
    · subst same
      simp only [if_neg begins, if_true, true_or, true_and] at inStep ⊢
      exact ih (above.trans next) rest inStep
    · simp only [if_neg begins, if_neg same, Ne.symm same, false_or] at inStep ⊢
      refine and_congr ?_ (ih le_rfl rest inStep.2)
      by_cases once : current = count
      · have boundary := inStep.1
        rw [if_pos once] at boundary
        rw [← once, ← Nat.sub_add_sub_cancel next above]
        exact Nat.dvd_add_left boundary |>.symm
      · simpa only [if_neg once] using inStep.1

theorem inStep_of_onRounds (changes : ChangesOnRounds ⟨last, current⟩ milestones)
    (spans : SpansOnRounds start count current milestones) :
    InStep start count current last milestones := by
  induction milestones generalizing start count current last with
  | nil => trivial
  | cons m milestones ih =>
    obtain ⟨le, rest⟩ := pairwise_cons.mp sorted
    have next : last ≤ m.height := le m.height (mem_cons_self ..)
    simp only [ChangesOnRounds, SpansOnRounds, InStep] at changes spans ⊢
    obtain ⟨change, changes⟩ := changes
    by_cases begins : m.height = start
    · rw [if_pos begins] at spans ⊢
      exact ih le_rfl (begins ▸ rest) (begins ▸ changes) spans
    rw [if_neg begins] at spans ⊢
    by_cases same : m.roundValidators = current
    · rw [if_pos same] at spans ⊢
      exact ih (above.trans next) rest (same ▸ changes) spans
    · rw [if_neg same] at spans ⊢
      have change := change.resolve_left (Ne.symm same)
      refine ⟨?_, ih le_rfl rest changes spans.2⟩
      split
      · next once =>
          have whole := spans.1
          rw [← once, ← Nat.sub_add_sub_cancel next above] at whole
          exact (Nat.dvd_add_right change).mp whole
      · exact iff_of_true change spans.1

end Compare

/-- Milestones at the height where the validators are introduced are not checked against each other. -/
theorem changesOnRounds_settle {first : ValidatorMilestone} {later : List ValidatorMilestone} :
    ChangesOnRounds first later ↔
      ChangesOnRounds ⟨first.height, (settle first.height first.roundValidators later).1⟩
        (settle first.height first.roundValidators later).2 := by
  induction later generalizing first with
  | nil => exact Iff.rfl
  | cons m later ih =>
    rw [settle]
    by_cases begins : m.height = first.height
    · simp only [ChangesOnRounds, begins, Nat.sub_self, Nat.dvd_zero, or_true, true_and]
      exact begins ▸ ih
    · rw [if_neg begins]

/-- Once the milestones at the start of the span have been passed, the others are above it. -/
theorem Passed.settle {config : NetworkConfig κ ν} {start count : Nat}
    {before later : List ValidatorMilestone} (walk : Passed config start count before later) :
    (∃ before', Passed config start (settle start count later).1 before' (settle start count later).2) ∧
      ∀ m ∈ (RoundCalculator.settle start count later).2, start < m.height := by
  induction later generalizing count before with
  | nil => exact ⟨⟨before, walk⟩, fun m member => nomatch member⟩
  | cons m later ih =>
    rw [RoundCalculator.settle]
    by_cases begins : m.height = start
    · rw [if_pos begins]
      exact ih (walk.at_start begins)
    · rw [if_neg begins]
      have first : start < m.height :=
        Nat.lt_of_le_of_ne (walk.ahead m (mem_cons_self ..)) (Ne.symm begins)
      refine ⟨⟨before, walk⟩, forall_mem_cons.mpr ⟨first, fun e member => ?_⟩⟩
      exact first.trans_le (walk.height_le.2 e member)

/-- The calculator does not throw at any height from genesis on, whichever milestone was read last. -/
def NeverThrows (keys : OtherKeys κ ν) (config : NetworkConfig κ ν) : Prop :=
  ∀ c : Configuration κ ν, c.Holds keys config →
    ∀ height, config.genesisHeight ≤ height → ∃ out, calculateRound c height = .ok out

end RoundCalculator

/-- Repeated numbers lie on the round boundaries of their spans, from the height on where the validators
are introduced. -/
def NetworkConfig.InStep (config : NetworkConfig κ ν) : Prop :=
  match config.validatorMilestones with
  | _ :: first :: later =>
    let (count, later) := RoundCalculator.settle first.height first.roundValidators later
    RoundCalculator.InStep first.height count count first.height later
  | _ => True

namespace RoundCalculator

section Checks

variable {keys : OtherKeys κ ν} {config : NetworkConfig κ ν} {first : ValidatorMilestone}
  {later : List ValidatorMilestone}

theorem inStep_iff (introduced : config.Introduced first later) : config.InStep ↔
      InStep first.height (settle first.height first.roundValidators later).1
        (settle first.height first.roundValidators later).1 first.height
        (settle first.height first.roundValidators later).2 := by
  rw [NetworkConfig.InStep, introduced.1]

theorem passed_first (introduced : config.Introduced first later) :
    Passed config first.height first.roundValidators [⟨config.genesisHeight, 0⟩, first] later where
  all := introduced.1
  known := by simp [inForce_cons]
  passed m member := by
    obtain rfl | rfl := by simpa using member
    · exact .inl (by rw [introduced.2]; exact Nat.le_succ _)
    · exact .inr rfl
  ahead := (pairwise_cons.mp introduced.sorted).1

theorem settle_positive {start count : Nat} {milestones : List ValidatorMilestone} (here : 0 < count)
    (positive : ∀ m ∈ milestones, 0 < m.roundValidators) :
    0 < (settle start count milestones).1 ∧
      ∀ m ∈ (settle start count milestones).2, 0 < m.roundValidators := by
  induction milestones generalizing count with
  | nil => exact ⟨here, positive⟩
  | cons m milestones ih =>
    obtain ⟨next, rest⟩ := forall_mem_cons.mp positive
    rw [settle]
    split
    · exact ih next rest
    · exact ⟨here, positive⟩

/-- With positive numbers, the spans are found exactly if all of them are whole rounds. -/
theorem getValidatorSpans_ok_iff {c : Configuration κ ν} (holds : c.Holds keys config)
    (positive : config.Positive) (introduced : config.Introduced first later) :
    (∃ out, getValidatorSpans c = .ok out) ↔
      SpansOnRounds first.height (settle first.height first.roundValidators later).1
        (settle first.height first.roundValidators later).1
        (settle first.height first.roundValidators later).2 := by
  obtain ⟨here, rest⟩ := forall_mem_cons.mp (introduced.positive_iff.mp positive)
  obtain ⟨counted, rest⟩ := @settle_positive first.height _ _ here rest
  obtain ⟨⟨before, walk⟩, above⟩ := (passed_first introduced).settle
  generalize (settle first.height first.roundValidators later).1 = count at *
  generalize (settle first.height first.roundValidators later).2 = after at *
  have known : inForce first.height config.validatorMilestones = some count := by
    rw [walk.all, inForce_append, inForce_of_lt above, walk.known]
    rfl
  obtain ⟨m, c', read, holds', number⟩ := holds.getMilestone known
  rw [introduced.2, ← holds.genesisHeight_eq] at read
  have run : getValidatorSpans c = spansFrom c' (c.genesisHeight + 1) 1 (some count) := by
    simp only [getValidatorSpans, read, bind, Except.bind, number]
  rw [run, holds.genesisHeight_eq, ← introduced.2]
  exact spansFrom_ok_iff holds' walk rest counted

theorem neverThrows_iff (positive : config.Positive) (introduced : config.Introduced first later) :
    NeverThrows keys config ↔
      SpansOnRounds first.height (settle first.height first.roundValidators later).1
        (settle first.height first.roundValidators later).1
        (settle first.height first.roundValidators later).2 := by
  constructor
  · intro never
    have holds : Configuration.Holds keys config ⟨buildConfig keys config, 0⟩ := ⟨rfl, Nat.zero_le _⟩
    rw [← getValidatorSpans_ok_iff holds positive introduced]
    exact (calculateRound_ok_iff (Nat.lt_succ_self _)).mp (never _ holds _ (Nat.le_succ _))
  · intro whole c holds height le
    obtain rfl | above := Nat.eq_or_lt_of_le le
    · simp [calculateRound, holds.genesisHeight_eq, pure, Except.pure]
    · rw [← holds.genesisHeight_eq] at above
      rw [calculateRound_ok_iff above, getValidatorSpans_ok_iff holds positive introduced]
      exact whole

theorem sorted_settle (introduced : config.Introduced first later) :
    (first.height :: (settle first.height first.roundValidators later).2.map
      (·.height)).Pairwise (· ≤ ·) := by
  obtain ⟨⟨before, walk⟩, above⟩ := (passed_first introduced).settle
  have sorted := config.sorted_validatorMilestones
  rw [walk.all] at sorted
  refine pairwise_cons.mpr ⟨?_, pairwise_map.mpr (pairwise_append.mp sorted).2.1⟩
  intro height member
  obtain ⟨m, inside, rfl⟩ := mem_map.mp member
  exact (above m inside).le

/-- On what the configuration accepts, the calculator never throws exactly if repeated numbers are in
step with the rounds. Where the calculator never throws and the validators are introduced as required,
the configuration is accepted exactly if they are and no later number is zero. -/
theorem roundValidators_checked (keys : OtherKeys κ ν) (config : NetworkConfig κ ν) (verify : Bool) :
    ((∃ c, setConfig keys config verify = .ok c) → (NeverThrows keys config ↔ config.InStep)) ∧
    ((verify = true → verifyConfig keys (buildConfig keys config) = .ok ()) →
      (∃ first later, config.Introduced first later) → NeverThrows keys config →
      ((∃ c, setConfig keys config verify = .ok c) ↔ config.Positive ∧ config.InStep)) := by
  have agree : ∀ {first later}, config.Introduced first later → config.Positive → config.InStep →
      (ChangesOnRounds first later ↔ NeverThrows keys config) := by
    intro first later introduced positive inStep
    rw [neverThrows_iff positive introduced, changesOnRounds_settle]
    exact changesOnRounds_iff_of_inStep le_rfl (sorted_settle introduced)
      ((inStep_iff introduced).mp inStep)
  have inStep : ∀ {first later}, config.Introduced first later → config.Positive →
      ChangesOnRounds first later → NeverThrows keys config → config.InStep := by
    intro first later introduced positive changes never
    rw [inStep_iff introduced]
    exact inStep_of_onRounds le_rfl (sorted_settle introduced) (changesOnRounds_settle.mp changes)
      ((neverThrows_iff positive introduced).mp never)
  constructor
  · rintro ⟨c, accepted⟩
    obtain ⟨positive, first, later, introduced, changes⟩ :=
      checkRoundValidators_eq_ok.mp (setConfig_eq_ok.mp accepted).1
    exact ⟨inStep introduced positive changes, fun step => (agree introduced positive step).mp changes⟩
  · rintro schema ⟨first, later, introduced⟩ never
    constructor
    · rintro ⟨c, accepted⟩
      obtain ⟨positive, first, later, introduced, changes⟩ :=
        checkRoundValidators_eq_ok.mp (setConfig_eq_ok.mp accepted).1
      exact ⟨positive, inStep introduced positive changes never⟩
    · rintro ⟨positive, step⟩
      refine ⟨_, setConfig_eq_ok.mpr ⟨checkRoundValidators_eq_ok.mpr ?_, schema, rfl⟩⟩
      exact ⟨positive, first, later, introduced, (agree introduced positive step).mpr never⟩

end Checks

namespace Sample

/-- The other keys are as the schema wants them. -/
def keys : OtherKeys Unit Unit := ⟨fun _ _ => (), fun _ => true, fun _ => true⟩

/-- No validators at genesis, three from the next block on, again three at the height `again` and five
from `change` on. -/
def config (again change : Nat) : NetworkConfig Unit Unit where
  genesisHeight := 0
  milestones :=
    [⟨0, some 0, ⟨some 30000000, some 2097152, some 1⟩, ()⟩, ⟨1, some 3, ⟨none, none, none⟩, ()⟩,
      ⟨again, some 3, ⟨none, none, none⟩, ()⟩, ⟨change, some 5, ⟨none, none, none⟩, ()⟩]
  network := ()

end Sample

open Sample

theorem roundValidators_checked_sample :
    (∃ c, setConfig keys (config 4 7) true = .ok c) ∧
      (NeverThrows keys (config 4 7) ↔ (config 4 7).InStep) ∧
      verifyConfig keys (buildConfig keys (config 4 7)) = .ok () ∧
      (∃ first later, (config 4 7).Introduced first later) ∧
      NeverThrows keys (config 4 7) ∧
      ((∃ c, setConfig keys (config 4 7) true = .ok c) ↔
        (config 4 7).Positive ∧ (config 4 7).InStep) := by
  have accepted : ∃ c, setConfig keys (config 4 7) true = .ok c := ⟨_, rfl⟩
  have introduced : (config 4 7).Introduced ⟨1, 3⟩ [⟨4, 3⟩, ⟨7, 5⟩] := ⟨rfl, rfl⟩
  have step : (config 4 7).InStep := by
    rw [inStep_iff introduced]
    decide
  have checked := roundValidators_checked keys (config 4 7) true
  have never := (checked.1 accepted).mpr step
  exact ⟨accepted, checked.1 accepted, rfl, ⟨_, _, introduced⟩, never,
    checked.2 (fun _ => rfl) ⟨_, _, introduced⟩ never⟩

/-- With a repeated number out of step, a change is accepted that makes the calculator throw at each
height after genesis, and one is rejected at which it never does. -/
theorem roundValidators_out_of_step :
    (∃ c, setConfig keys (config 2 5) true = .ok c ∧
      ∀ height, 0 < height → ∃ e, calculateRound c height = .error e) ∧
    verifyConfig keys (buildConfig keys (config 2 4)) = .ok () ∧
    (∃ first later, (config 2 4).Introduced first later) ∧ (config 2 4).Positive ∧
    NeverThrows keys (config 2 4) ∧
    ∃ e, setConfig keys (config 2 4) true = .error e := by
  have accepted : (config 2 5).Introduced ⟨1, 3⟩ [⟨2, 3⟩, ⟨5, 5⟩] := ⟨rfl, rfl⟩
  have rejected : (config 2 4).Introduced ⟨1, 3⟩ [⟨2, 3⟩, ⟨4, 5⟩] := ⟨rfl, rfl⟩
  have positive : (config 2 5).Positive := accepted.positive_iff.mpr (by decide)
  have positive' : (config 2 4).Positive := rejected.positive_iff.mpr (by decide)
  refine ⟨⟨_, rfl, fun height above => ?_⟩, rfl, ⟨_, _, rejected⟩, positive', ?_, _, rfl⟩
  · have holds : Configuration.Holds keys (config 2 5)
        ⟨buildConfig keys (config 2 5), 1⟩ := ⟨rfl, by decide⟩
    cases result : calculateRound ⟨buildConfig keys (config 2 5), 1⟩ height with
    | error e => exact ⟨e, rfl⟩
    | ok out =>
      have spans := (calculateRound_ok_iff above).mp ⟨out, result⟩
      rw [getValidatorSpans_ok_iff holds positive accepted] at spans
      simp [settle, SpansOnRounds] at spans
  · rw [neverThrows_iff positive' rejected]
    simp [settle, SpansOnRounds]

end RoundCalculator

end Mainsail
