import Mainsail.Foundation.Seek
import Mathlib.Data.List.Sort

/-!
# The network configuration

`Configuration.setConfig` sorts the milestones of a network by height, checks the number of
validators that they set, merges each milestone into the one before it and has the result checked
against the schema. A key that a milestone does not mention is carried over from the one before.

Of the keys of a milestone, the height, the number of validators and the block limits are modelled.
How the others are merged, and what the schema says about them and about the network, is left to
`OtherKeys`. The schema allows no negative and no fractional number for the modelled keys.
-/

namespace Mainsail

open Seek List Option Nat

/-- The remainder of two numbers. It is not a number if the divisor is zero or undefined. -/
def remainder (a : Nat) : Option Nat → Option Nat
  | some (b + 1) => some (a % (b + 1))
  | _ => none

/-- The quotient, rounded down. It is not finite if the divisor is zero or undefined. -/
def quotient (a : Nat) : Option Nat → Option Nat
  | some (b + 1) => some (a / (b + 1))
  | _ => none

theorem remainder_eq_zero {a b : Nat} : remainder a (some b) = some 0 ↔ 0 < b ∧ b ∣ a := by
  cases b with
  | zero => simp [remainder]
  | succ b => simp [remainder, dvd_iff_mod_eq_zero]

inductive ConfigurationError
  | invalidNumberOfRoundValidators (message : String)
  | invalidMilestoneConfiguration (message : String)
  | messageSchema (type : String)
  | error (message : String)
  | typeError
  deriving DecidableEq, Repr

structure MilestoneBlock where
  maxGasLimit : Option Nat
  maxPayload : Option Nat
  version : Option Nat
  deriving DecidableEq, Repr

/-- A milestone. A key that it does not mention is `none`. -/
structure Milestone (κ : Type) where
  height : Nat
  roundValidators : Option Nat
  block : MilestoneBlock
  others : κ
  deriving DecidableEq, Repr

/-- The keys that are not modelled: those of a milestone, and the network. -/
structure OtherKeys (κ ν : Type) where
  merge : κ → κ → κ
  verifyMilestone : κ → Bool
  verifyNetwork : ν → Bool

/-- The genesis block is given by its number. -/
structure NetworkConfig (κ ν : Type) where
  genesisHeight : Nat
  milestones : List (Milestone κ)
  network : ν

variable {κ ν : Type}

namespace MilestoneBlock

def merge (a b : MilestoneBlock) : MilestoneBlock where
  maxGasLimit := b.maxGasLimit.or a.maxGasLimit
  maxPayload := b.maxPayload.or a.maxPayload
  version := b.version.or a.version

def verify (b : MilestoneBlock) : Bool :=
  b.maxGasLimit.isSome && b.maxPayload.isSome && b.version.isSome

end MilestoneBlock

namespace Milestone

/-- `deepmerge`: the keys of the second milestone over those of the first. -/
def merge (keys : OtherKeys κ ν) (a b : Milestone κ) : Milestone κ where
  height := b.height
  roundValidators := b.roundValidators.or a.roundValidators
  block := a.block.merge b.block
  others := keys.merge a.others b.others

/-- The schema of a merged milestone. -/
def verify (keys : OtherKeys κ ν) (m : Milestone κ) : Bool :=
  m.roundValidators.any (· ≤ 64) && m.block.verify && keys.verifyMilestone m.others

@[simp] theorem merge_height (keys : OtherKeys κ ν) (a b : Milestone κ) :
    (merge keys a b).height = b.height := rfl

@[simp] theorem merge_roundValidators (keys : OtherKeys κ ν) (a b : Milestone κ) :
    (merge keys a b).roundValidators = b.roundValidators.or a.roundValidators := rfl

instance trans_height : IsTrans (Milestone κ) (fun a b => a.height ≤ b.height) :=
  ⟨fun _ _ _ => le_trans⟩

instance total_height : Std.Total (fun a b : Milestone κ => a.height ≤ b.height) :=
  ⟨fun a b => le_total a.height b.height⟩

end Milestone

/-- A milestone that mentions the number of validators. -/
structure ValidatorMilestone where
  height : Nat
  roundValidators : Nat
  deriving DecidableEq, Repr

def Milestone.toValidatorMilestone (m : Milestone κ) : Option ValidatorMilestone :=
  m.roundValidators.map (⟨m.height, ·⟩)

open ValidatorMilestone

variable {m : Milestone κ} {initialHeight : Nat}

theorem Milestone.toValidatorMilestone_eq_some {e : ValidatorMilestone} :
    m.toValidatorMilestone = some e ↔ m.height = e.height ∧ m.roundValidators = some e.roundValidators := by
  cases m with
  | mk height roundValidators block others =>
    cases e with
    | mk h n =>
      simp only [toValidatorMilestone, map_eq_some_iff, ValidatorMilestone.mk.injEq]
      constructor
      · rintro ⟨_, rfl, rfl, rfl⟩
        exact ⟨rfl, rfl⟩
      · rintro ⟨rfl, rfl⟩
        exact ⟨n, rfl, rfl, rfl⟩

/-- The sort by height keeps the order of milestones at the same height. -/
def sortByHeight (milestones : List (Milestone κ)) : List (Milestone κ) :=
  milestones.insertionSort (fun a b => a.height ≤ b.height)

theorem sorted_sortByHeight (milestones : List (Milestone κ)) :
    (sortByHeight milestones).Pairwise (fun a b => a.height ≤ b.height) :=
  pairwise_insertionSort _ _

namespace NetworkConfig

/-- The milestones that mention the number of validators, by height. -/
def validatorMilestones (config : NetworkConfig κ ν) : List ValidatorMilestone :=
  (sortByHeight config.milestones).filterMap Milestone.toValidatorMilestone

theorem sorted_validatorMilestones (config : NetworkConfig κ ν) :
    config.validatorMilestones.Pairwise (fun a b => a.height ≤ b.height) := by
  refine Pairwise.filterMap _ ?_ (sorted_sortByHeight config.milestones)
  intro a b le e he f hf
  rw [← (Milestone.toValidatorMilestone_eq_some.mp he).1,
    ← (Milestone.toValidatorMilestone_eq_some.mp hf).1]
  exact le

end NetworkConfig

/-! ## The check of the numbers of validators -/

/-- After genesis there is always a validator. -/
def checkPositive (initialHeight : Nat) : List ValidatorMilestone → Except ConfigurationError Unit
  | [] => .ok ()
  | milestone :: milestones =>
    if initialHeight < milestone.height ∧ milestone.roundValidators = 0 then
      .error (.invalidNumberOfRoundValidators
        s!"Bad milestone at height: {milestone.height}. The number of validators must be greater than 0.")
    else checkPositive initialHeight milestones

/-- The last loop of `#checkRoundValidators`, from the second milestone on. -/
def checkChanges : ValidatorMilestone → List ValidatorMilestone → Except ConfigurationError Unit
  | _, [] => .ok ()
  | previous, current :: milestones =>
    -- Skip on no change
    if previous.roundValidators = current.roundValidators then
      checkChanges current milestones
    else if remainder (current.height - previous.height) (some previous.roundValidators) ≠ some 0 then
      .error (.invalidMilestoneConfiguration
        s!"Bad milestone at height: {current.height}. The number of validators can only be changed at the beginning of a new round.")
    else checkChanges current milestones

/-- The first milestone sets no validators at genesis, the second one introduces them. -/
def checkFirstTwo (initialHeight : Nat) : List ValidatorMilestone → Except ConfigurationError Unit
  | [] => .error (badGenesis initialHeight)
  | genesis :: milestones =>
    if genesis.height ≠ initialHeight ∨ genesis.roundValidators ≠ 0 then
      .error (badGenesis initialHeight)
    else
      match milestones with
      | [] => .error (badFirst initialHeight)
      | first :: milestones =>
        if first.height ≠ initialHeight + 1 then .error (badFirst initialHeight)
        else checkChanges first milestones
where
  badGenesis (initialHeight : Nat) : ConfigurationError := .invalidNumberOfRoundValidators
    s!"Bad milestones. The genesis milestone at height {initialHeight} must set the number of validators to 0."
  badFirst (initialHeight : Nat) : ConfigurationError := .invalidNumberOfRoundValidators
    s!"Bad milestones. The milestone at height {initialHeight + 1} must introduce the number of validators."

def checkRoundValidators (config : NetworkConfig κ ν) : Except ConfigurationError Unit := do
  checkPositive config.genesisHeight config.validatorMilestones
  checkFirstTwo config.genesisHeight config.validatorMilestones

/-- Each change of the number is a whole number of rounds after the milestone before it. -/
def ChangesOnRounds : ValidatorMilestone → List ValidatorMilestone → Prop
  | _, [] => True
  | previous, current :: milestones =>
    (previous.roundValidators = current.roundValidators ∨
      previous.roundValidators ∣ current.height - previous.height) ∧
    ChangesOnRounds current milestones

namespace NetworkConfig

/-- The first two validator milestones are as the check requires: one at the genesis height, which
sets no validators, and one right after it. -/
def Introduced (config : NetworkConfig κ ν) (first : ValidatorMilestone)
    (later : List ValidatorMilestone) : Prop :=
  config.validatorMilestones = ⟨config.genesisHeight, 0⟩ :: first :: later ∧
    first.height = config.genesisHeight + 1

/-- No milestone after genesis sets the number to zero. -/
def Positive (config : NetworkConfig κ ν) : Prop :=
  ∀ m ∈ config.validatorMilestones, config.genesisHeight < m.height → 0 < m.roundValidators

variable {config : NetworkConfig κ ν} {first : ValidatorMilestone} {later : List ValidatorMilestone}

namespace Introduced

variable (introduced : config.Introduced first later)
include introduced

theorem sorted : (first :: later).Pairwise (fun a b => a.height ≤ b.height) := by
  have all := config.sorted_validatorMilestones
  rw [introduced.1] at all
  exact (pairwise_cons.mp all).2

theorem height_le {m : ValidatorMilestone} (h : m ∈ first :: later) :
    config.genesisHeight + 1 ≤ m.height := by
  rw [← introduced.2]
  obtain rfl | member := mem_cons.mp h
  · exact le_rfl
  · exact (pairwise_cons.mp introduced.sorted).1 m member

theorem positive_iff : config.Positive ↔ ∀ m ∈ first :: later, 0 < m.roundValidators := by
  constructor
  · intro positive m member
    apply positive
    · rw [introduced.1]
      exact mem_cons_of_mem _ member
    · exact introduced.height_le member
  · intro positive m member above
    rw [introduced.1] at member
    obtain rfl | member := mem_cons.mp member
    · exact absurd above (lt_irrefl _)
    · exact positive m member

end Introduced

end NetworkConfig

theorem checkPositive_eq_ok {milestones : List ValidatorMilestone} :
    checkPositive initialHeight milestones = .ok () ↔
      ∀ m ∈ milestones, initialHeight < m.height → 0 < m.roundValidators := by
  induction milestones with
  | nil => simp [checkPositive]
  | cons m milestones ih =>
    simp only [checkPositive]
    by_cases bad : initialHeight < m.height ∧ m.roundValidators = 0
    · rw [if_pos bad]
      constructor
      · exact fun h => nomatch h
      · intro positive
        have := positive m (mem_cons_self ..) bad.1
        omega
    · rw [if_neg bad, ih, forall_mem_cons]
      constructor
      · exact fun rest => ⟨by omega, rest⟩
      · exact And.right

theorem checkChanges_eq_ok {previous : ValidatorMilestone} {milestones : List ValidatorMilestone}
    (positive : ∀ m ∈ previous :: milestones, 0 < m.roundValidators) :
    checkChanges previous milestones = .ok () ↔ ChangesOnRounds previous milestones := by
  induction milestones generalizing previous with
  | nil => simp [checkChanges, ChangesOnRounds]
  | cons current milestones ih =>
    obtain ⟨here, rest⟩ := forall_mem_cons.mp positive
    simp only [checkChanges, ChangesOnRounds, ne_eq, remainder_eq_zero, ite_not]
    by_cases same : previous.roundValidators = current.roundValidators
    · simp only [same, if_true, true_or, true_and]
      exact ih rest
    · simp only [same, if_false, false_or, here, true_and]
      by_cases divides : previous.roundValidators ∣ current.height - previous.height
      · simp only [divides, if_true, true_and]
        exact ih rest
      · simp [divides]

theorem checkFirstTwo_eq_ok {milestones : List ValidatorMilestone} :
    checkFirstTwo initialHeight milestones = .ok () ↔
      ∃ first later, milestones = ⟨initialHeight, 0⟩ :: first :: later ∧
        first.height = initialHeight + 1 ∧ checkChanges first later = .ok () := by
  cases milestones with
  | nil => simp [checkFirstTwo]
  | cons genesis milestones =>
    cases genesis with
    | mk height number =>
      by_cases zero : height = initialHeight ∧ number = 0
      · obtain ⟨rfl, rfl⟩ := zero
        cases milestones with
        | nil => simp [checkFirstTwo]
        | cons first later =>
          by_cases next : first.height = height + 1
          · simp [checkFirstTwo, next]
          · simp [checkFirstTwo, next]
      · have bad : height ≠ initialHeight ∨ number ≠ 0 := by omega
        simp only [checkFirstTwo, if_pos bad, cons.injEq, mk.injEq]
        simp [zero]

/-- What the check accepts. -/
theorem checkRoundValidators_eq_ok {config : NetworkConfig κ ν} :
    checkRoundValidators config = .ok () ↔
      config.Positive ∧ ∃ first later, config.Introduced first later ∧ ChangesOnRounds first later := by
  unfold checkRoundValidators
  cases check : checkPositive config.genesisHeight config.validatorMilestones with
  | error e =>
    have failed : ¬ config.Positive := by
      intro positive
      rw [checkPositive_eq_ok.mpr positive] at check
      cases check
    simp [bind, Except.bind, failed]
  | ok =>
    have positive : config.Positive := checkPositive_eq_ok.mp check
    show checkFirstTwo _ _ = _ ↔ _
    rw [checkFirstTwo_eq_ok]
    simp only [positive, true_and, NetworkConfig.Introduced, and_assoc]
    refine exists_congr fun first => exists_congr fun later => ?_
    refine and_congr_right fun all => and_congr_right fun next => ?_
    have introduced : config.Introduced first later := ⟨all, next⟩
    exact checkChanges_eq_ok (introduced.positive_iff.mp positive)

/-! ## Building the configuration -/

def buildMilestones (keys : OtherKeys κ ν) (config : NetworkConfig κ ν) : List (Milestone κ) :=
  match sortByHeight config.milestones with
  | [] => []
  | first :: milestones => milestones.scanl (Milestone.merge keys) first

def verifyConfig (keys : OtherKeys κ ν) (config : NetworkConfig κ ν) : Except ConfigurationError Unit :=
  if config.milestones.all (Milestone.verify keys) && keys.verifyNetwork config.network then .ok ()
  else .error (.messageSchema "cryptoConfig")

/-- The configuration in use, with the number of milestones up to the one read last:
`milestone.index + 1` in the source. -/
structure Configuration (κ ν : Type) where
  config : NetworkConfig κ ν
  next : Nat

def buildConfig (keys : OtherKeys κ ν) (config : NetworkConfig κ ν) : NetworkConfig κ ν :=
  { config with milestones := buildMilestones keys config }

/-- `#buildConstants`. -/
def setConfig (keys : OtherKeys κ ν) (config : NetworkConfig κ ν) (verify : Bool) :
    Except ConfigurationError (Configuration κ ν) := do
  checkRoundValidators config
  let buildConfig := buildConfig keys config
  if verify then verifyConfig keys buildConfig
  return ⟨buildConfig, 1⟩

theorem setConfig_eq_ok {keys : OtherKeys κ ν} {config : NetworkConfig κ ν} {verify : Bool}
    {c : Configuration κ ν} :
    setConfig keys config verify = .ok c ↔ checkRoundValidators config = .ok () ∧
      (verify = true → verifyConfig keys (buildConfig keys config) = .ok ()) ∧
      c = ⟨buildConfig keys config, 1⟩ := by
  unfold setConfig
  cases checkRoundValidators config with
  | error e => simp [bind, Except.bind]
  | ok =>
    cases verify with
    | false => simp [bind, Except.bind, pure, Except.pure, eq_comm]
    | true =>
      cases checked : verifyConfig keys (buildConfig keys config) with
      | error e => simp [bind, Except.bind, checked]
      | ok => simp [bind, Except.bind, pure, Except.pure, checked, eq_comm]

namespace Configuration

def genesisHeight (c : Configuration κ ν) : Nat := c.config.genesisHeight

def milestones (c : Configuration κ ν) : List (Milestone κ) := c.config.milestones

/-- The two loops move the index up and then down. Below the first milestone there is none to read. -/
def getMilestone (c : Configuration κ ν) (height : Nat) :
    Except ConfigurationError (Milestone κ × Configuration κ ν) :=
  let next := seek Milestone.height c.milestones height c.next
  match next with
  | 0 => .error .typeError
  | index + 1 =>
    match c.milestones[index]? with
    | none => .error .typeError
    | some milestone => .ok (milestone, { c with next })

structure MilestoneSearchResult where
  data : Option Nat
  found : Bool
  height : Nat
  deriving DecidableEq, Repr

/-- The loop of `getNextMilestoneWithNewKey` over the milestones that are left. A value of zero is
falsy, like one that is missing. -/
def findNewKey (key : Milestone κ → Option Nat) (previousMilestone : Nat) :
    List (Milestone κ) → Configuration κ ν →
      Except ConfigurationError (MilestoneSearchResult × Configuration κ ν)
  | [], c => .ok (⟨none, false, previousMilestone⟩, c)
  | milestone :: milestones, c =>
    match key milestone with
    | some (value + 1) => do
      let (current, c) ← c.getMilestone previousMilestone
      if some (value + 1) ≠ key current ∧ previousMilestone < milestone.height then
        .ok (⟨some (value + 1), true, milestone.height⟩, c)
      else findNewKey key previousMilestone milestones c
    | _ => findNewKey key previousMilestone milestones c

def getNextMilestoneWithNewKey (c : Configuration κ ν) (previousMilestone : Nat)
    (key : Milestone κ → Option Nat) :
    Except ConfigurationError (MilestoneSearchResult × Configuration κ ν) :=
  findNewKey key previousMilestone c.milestones c

/-! ## What is read from merged milestones -/

section Reading

variable {c c' : Configuration κ ν} {height : Nat}

theorem config_of_getMilestone (h : c.getMilestone height = .ok (m, c')) :
    c'.config = c.config := by
  simp only [getMilestone] at h
  split at h
  · cases h
  · split at h
    · cases h
    · cases h
      rfl

/-- A search goes up. -/
theorem findNewKey_found {key : Milestone κ → Option Nat} {previousMilestone : Nat}
    {milestones : List (Milestone κ)} {data : Option Nat}
    (h : findNewKey key previousMilestone milestones c = .ok (⟨data, true, height⟩, c')) :
    c'.config = c.config ∧ previousMilestone < height ∧ ∃ m ∈ milestones, m.height = height := by
  induction milestones generalizing c with
  | nil => cases h
  | cons m milestones ih =>
    have later : ∀ {c}, findNewKey key previousMilestone milestones c = .ok (⟨data, true, height⟩, c') →
        c'.config = c.config ∧ previousMilestone < height ∧ ∃ n ∈ m :: milestones, n.height = height := by
      intro c rest
      obtain ⟨config, up, n, member, same⟩ := ih rest
      exact ⟨config, up, n, mem_cons_of_mem _ member, same⟩
    simp only [findNewKey] at h
    split at h
    · cases read : c.getMilestone previousMilestone with
      | error e =>
        rw [read] at h
        cases h
      | ok now =>
        simp only [read, bind, Except.bind] at h
        have same := config_of_getMilestone read
        split at h
        next new =>
          cases h
          exact ⟨same, new.2, m, mem_cons_self .., rfl⟩
        next =>
          obtain ⟨config, up⟩ := later h
          exact ⟨config.trans same, up⟩
    · exact later h

/-- The milestone that is read does not depend on the one that was read last. -/
theorem getMilestone_eq (sorted : c.milestones.Pairwise (fun a b => a.height ≤ b.height))
    (inside : c.next ≤ c.milestones.length)
    (last : (c.milestones.takeWhile (·.height ≤ height)).getLast? = some m) :
    c.getMilestone height =
      .ok (m, { c with next := position Milestone.height height c.milestones }) := by
  unfold getMilestone
  rw [seek_eq sorted inside]
  cases count : position Milestone.height height c.milestones with
  | zero =>
    rw [eq_nil_of_length_eq_zero count] at last
    cases last
  | succ index =>
    rw [← getElem?_pred_position count] at last
    simp only [last]

end Reading

end Configuration

/-- The number of validators that the milestones up to `height` leave in force. -/
def inForce (height : Nat) (milestones : List ValidatorMilestone) : Option Nat :=
  ((milestones.filter (·.height ≤ height)).getLast?).map (·.roundValidators)

@[simp] theorem inForce_nil (height : Nat) : inForce height [] = none := rfl

theorem inForce_cons (height : Nat) (m : ValidatorMilestone) (milestones : List ValidatorMilestone) :
    inForce height (m :: milestones) =
      (inForce height milestones).or (if m.height ≤ height then some m.roundValidators else none) := by
  by_cases low : m.height ≤ height
  · cases last : (milestones.filter (·.height ≤ height)).getLast? with
    | none | some => simp_all [inForce, getLast?_cons]
  · simp [inForce, low]

theorem inForce_append (height : Nat) (before after : List ValidatorMilestone) :
    inForce height (before ++ after) = (inForce height after).or (inForce height before) := by
  simp only [inForce, filter_append, getLast?_append]
  cases (after.filter (·.height ≤ height)).getLast? <;> rfl

theorem inForce_of_lt {height : Nat} {milestones : List ValidatorMilestone}
    (above : ∀ m ∈ milestones, height < m.height) : inForce height milestones = none := by
  induction milestones with
  | nil => rfl
  | cons m milestones ih =>
    obtain ⟨here, rest⟩ := forall_mem_cons.mp above
    rw [inForce_cons, ih rest, if_neg (not_le.mpr here)]
    rfl

/-- A milestone that sets a new number, as `getNextMilestoneWithNewKey` looks for it. -/
def ValidatorMilestone.isNew (height current : Nat) (m : ValidatorMilestone) : Bool :=
  m.roundValidators ≠ 0 && m.roundValidators ≠ current && height < m.height

section Merged

variable {keys : OtherKeys κ ν} {height current : Nat} {carried : Milestone κ}
  {milestones : List (Milestone κ)}

theorem sorted_scanl (sorted : (carried :: milestones).Pairwise (fun a b => a.height ≤ b.height)) :
    (milestones.scanl (Milestone.merge keys) carried).Pairwise (fun a b => a.height ≤ b.height) := by
  have heights : (milestones.scanl (Milestone.merge keys) carried).map Milestone.height =
      (carried :: milestones).map Milestone.height := by
    clear sorted
    induction milestones generalizing carried with
    | nil => rfl
    | cons m milestones ih => simp [scanl_cons, ih]
  rw [← pairwise_map (f := Milestone.height) (R := (· ≤ ·))] at sorted ⊢
  rwa [heights]

theorem lt_height_of_mem_filterMap (above : ∀ m ∈ milestones, height < m.height) :
    ∀ e ∈ milestones.filterMap Milestone.toValidatorMilestone, height < e.height := by
  intro e member
  obtain ⟨m, inside, same⟩ := mem_filterMap.mp member
  rw [← (Milestone.toValidatorMilestone_eq_some.mp same).1]
  exact above m inside

variable {x : Milestone κ}

theorem above_of_sorted (sorted : (x :: milestones).Pairwise (fun a b => a.height ≤ b.height))
    (above : height < x.height) : ∀ m ∈ x :: milestones, height < m.height := by
  intro m member
  obtain rfl | later := mem_cons.mp member
  · exact above
  · exact above.trans_le ((pairwise_cons.mp sorted).1 m later)

/-- Merging the first of the remaining milestones leaves them sorted. -/
theorem sorted_merge
    (sorted : (carried :: x :: milestones).Pairwise (fun a b => a.height ≤ b.height)) :
    (Milestone.merge keys carried x :: milestones).Pairwise (fun a b => a.height ≤ b.height) :=
  pairwise_cons.mpr (pairwise_cons.mp (pairwise_cons.mp sorted).2)

/-- The number that is carried over a milestone. -/
theorem inForce_merge (below : x.height ≤ height) :
    (inForce height (milestones.filterMap Milestone.toValidatorMilestone)).or
        (Milestone.merge keys carried x).roundValidators =
      (inForce height ((x :: milestones).filterMap Milestone.toValidatorMilestone)).or
        carried.roundValidators := by
  rw [Milestone.merge_roundValidators]
  cases mention : x.roundValidators with
  | none => simp [Milestone.toValidatorMilestone, mention]
  | some n => simp [Milestone.toValidatorMilestone, mention, inForce_cons, below]

/-- The last merged milestone up to a height has the number in force there. -/
theorem getLast?_takeWhile_scanl (low : carried.height ≤ height)
    (sorted : (carried :: milestones).Pairwise (fun a b => a.height ≤ b.height)) :
    ∃ m, ((milestones.scanl (Milestone.merge keys) carried).takeWhile
        (·.height ≤ height)).getLast? = some m ∧
      m.roundValidators =
        (inForce height (milestones.filterMap Milestone.toValidatorMilestone)).or
          carried.roundValidators := by
  induction milestones generalizing carried with
  | nil => exact ⟨carried, by simp [low], rfl⟩
  | cons x milestones ih =>
    by_cases below : x.height ≤ height
    · obtain ⟨m, last, number⟩ := @ih (Milestone.merge keys carried x) below (sorted_merge sorted)
      refine ⟨m, ?_, number.trans (inForce_merge below)⟩
      rw [scanl_cons, takeWhile_cons_of_pos (by simpa using low), getLast?_cons, last]
      rfl
    · have above := above_of_sorted sorted.of_cons (Nat.lt_of_not_le below)
      refine ⟨carried, ?_, ?_⟩
      · cases milestones <;> simp [scanl_cons, low, below]
      · rw [inForce_of_lt (lt_height_of_mem_filterMap above)]
        rfl

theorem findSome?_scanl_cons (f : Milestone κ → Option ValidatorMilestone)
    (silent : f carried = none) :
    ((x :: milestones).scanl (Milestone.merge keys) carried).findSome? f =
      (f (Milestone.merge keys carried x)).or
        ((milestones.scanl (Milestone.merge keys) (Milestone.merge keys carried x)).findSome? f) := by
  rw [scanl_cons, findSome?_cons, silent]
  cases new : f (Milestone.merge keys carried x) with
  | none => rfl
  | some e => cases milestones <;> simp [scanl_cons, new]

theorem filter_isNew_eq_none :
    m.toValidatorMilestone.filter (·.isNew height current) = none ↔
      (height < m.height → ∀ n, m.roundValidators = some n → n = 0 ∨ n = current) := by
  cases mention : m.roundValidators with
  | none => simp [Milestone.toValidatorMilestone, mention]
  | some n =>
    simp only [Milestone.toValidatorMilestone, mention, map_some, filter_eq_none_iff,
      some.injEq, forall_eq', isNew]
    grind

/-- Looking for a new number in the merged milestones finds the milestone that mentions it: at
`height` the number in force is the current one, and above it what is carried over is not new. -/
theorem findSome?_scanl (sorted : (carried :: milestones).Pairwise (fun a b => a.height ≤ b.height))
    (known : carried.height ≤ height →
      (inForce height (milestones.filterMap Milestone.toValidatorMilestone)).or
        carried.roundValidators = some current)
    (old : height < carried.height → ∀ n, carried.roundValidators = some n → n = 0 ∨ n = current) :
    (milestones.scanl (Milestone.merge keys) carried).findSome?
        (fun m => m.toValidatorMilestone.filter (·.isNew height current)) =
      milestones.findSome? (fun m => m.toValidatorMilestone.filter (·.isNew height current)) := by
  induction milestones generalizing carried with
  | nil => simp [filter_isNew_eq_none.mpr old]
  | cons x milestones ih =>
    rw [findSome?_scanl_cons _ (filter_isNew_eq_none.mpr old), findSome?_cons]
    cases found : x.toValidatorMilestone.filter (·.isNew height current) with
    | some e =>
      -- the milestone mentions the number itself
      have mentions : (Milestone.merge keys carried x).toValidatorMilestone = x.toValidatorMilestone := by
        cases mention : x.roundValidators with
        | none => simp [Milestone.toValidatorMilestone, mention] at found
        | some n => simp [Milestone.toValidatorMilestone, mention]
      rw [mentions, found]
      rfl
    | none =>
      have old' : height < x.height →
          ∀ n, (Milestone.merge keys carried x).roundValidators = some n → n = 0 ∨ n = current := by
        intro above n number
        cases mention : x.roundValidators with
        | some k =>
          rw [Milestone.merge_roundValidators, mention, some_or] at number
          exact filter_isNew_eq_none.mp found above n (mention.trans number)
        | none =>
          rw [Milestone.merge_roundValidators, mention, none_or] at number
          obtain high | low := lt_or_ge height carried.height
          · exact old high n number
          · have := known low
            rw [inForce_of_lt (lt_height_of_mem_filterMap (above_of_sorted sorted.of_cons above)),
              none_or, number] at this
            exact .inr (some.inj this)
      rw [filter_isNew_eq_none.mpr old', none_or]
      refine ih (sorted_merge sorted) (fun below => ?_) old'
      rw [Milestone.merge_height] at below
      rw [inForce_merge below]
      exact known (((pairwise_cons.mp sorted).1 x (mem_cons_self ..)).trans below)

theorem findSome?_toValidatorMilestone (p : ValidatorMilestone → Bool) :
    milestones.findSome? (fun m => m.toValidatorMilestone.filter p) =
      (milestones.filterMap Milestone.toValidatorMilestone).find? p := by
  induction milestones with
  | nil => rfl
  | cons m milestones ih =>
    rw [findSome?_cons, ih]
    cases mention : m.toValidatorMilestone with
    | none => simp [mention]
    | some e => by_cases found : p e <;> simp [mention, Option.filter, found]

end Merged

namespace Configuration

/-- The configuration was set from `config`, and any milestone may have been read last. -/
structure Holds (keys : OtherKeys κ ν) (config : NetworkConfig κ ν) (c : Configuration κ ν) : Prop where
  config_eq : c.config = buildConfig keys config
  next_le : c.next ≤ c.milestones.length

namespace Holds

variable {keys : OtherKeys κ ν} {config : NetworkConfig κ ν} {c : Configuration κ ν}
  {height current : Nat} (holds : c.Holds keys config)

include holds

theorem genesisHeight_eq : c.genesisHeight = config.genesisHeight := by
  rw [genesisHeight, holds.config_eq]
  rfl

theorem milestones_eq : c.milestones = buildMilestones keys config := by
  rw [milestones, holds.config_eq]
  rfl

/-- Where a number is in force, there is a first milestone, and it is not above. -/
theorem exists_first (known : inForce height config.validatorMilestones = some current) :
    ∃ first later, c.milestones = later.scanl (Milestone.merge keys) first ∧
      (first :: later).Pairwise (fun a b => a.height ≤ b.height) ∧ first.height ≤ height ∧
      config.validatorMilestones = (first :: later).filterMap Milestone.toValidatorMilestone ∧
      (inForce height (later.filterMap Milestone.toValidatorMilestone)).or first.roundValidators =
        some current := by
  have sorted := sorted_sortByHeight config.milestones
  rw [holds.milestones_eq]
  unfold buildMilestones
  unfold NetworkConfig.validatorMilestones at known ⊢
  cases all : sortByHeight config.milestones with
  | nil =>
    rw [all] at known
    cases known
  | cons first later =>
    rw [all] at known sorted
    have low : first.height ≤ height := by
      by_contra above
      rw [inForce_of_lt (lt_height_of_mem_filterMap
        (above_of_sorted sorted (Nat.lt_of_not_le above)))] at known
      cases known
    refine ⟨first, later, rfl, sorted, low, rfl, ?_⟩
    rw [← known]
    cases mention : first.roundValidators with
    | none => simp [Milestone.toValidatorMilestone, mention]
    | some n => simp [Milestone.toValidatorMilestone, mention, inForce_cons, low]

theorem sorted : c.milestones.Pairwise (fun a b => a.height ≤ b.height) := by
  have order := sorted_sortByHeight config.milestones
  rw [holds.milestones_eq]
  unfold buildMilestones
  cases all : sortByHeight config.milestones with
  | nil => exact .nil
  | cons first later =>
    rw [all] at order
    exact sorted_scanl order

open Configuration

/-- What is read does not depend on what was read before. -/
theorem getMilestone_fst {c' : Configuration κ ν} (holds' : c'.Holds keys config) (height : Nat) :
    (c.getMilestone height).map Prod.fst = (c'.getMilestone height).map Prod.fst := by
  have same : c.milestones = c'.milestones := holds.milestones_eq.trans holds'.milestones_eq.symm
  have order := holds'.sorted
  unfold getMilestone
  rw [seek_eq holds.sorted holds.next_le, seek_eq order holds'.next_le, same]
  cases position Milestone.height height c'.milestones with
  | zero => rfl
  | succ index =>
    dsimp only
    cases c'.milestones[index]? <;> rfl

theorem getMilestone (known : inForce height config.validatorMilestones = some current) :
    ∃ m c', c.getMilestone height = .ok (m, c') ∧ c'.Holds keys config ∧
      m.roundValidators = some current := by
  obtain ⟨first, later, all, sorted, low, -, carried⟩ := holds.exists_first known
  obtain ⟨m, last, number⟩ := @getLast?_takeWhile_scanl κ ν keys _ _ _ low sorted
  rw [← all] at last
  exact ⟨m, _, getMilestone_eq holds.sorted holds.next_le last,
    ⟨holds.config_eq, position_le_length⟩, number.trans carried⟩

/-- The result of a search that has found the given milestone. -/
def searchResult (previousMilestone : Nat) : Option ValidatorMilestone → MilestoneSearchResult
  | none => ⟨none, false, previousMilestone⟩
  | some e => ⟨some e.roundValidators, true, e.height⟩

variable (known : inForce height config.validatorMilestones = some current)
include known

theorem findNewKey (milestones : List (Milestone κ)) :
    ∃ c', c'.Holds keys config ∧
      findNewKey Milestone.roundValidators height milestones c =
        .ok (searchResult height (milestones.findSome?
          (fun m => m.toValidatorMilestone.filter (·.isNew height current))), c') := by
  induction milestones generalizing c with
  | nil => exact ⟨c, holds, rfl⟩
  | cons m milestones ih =>
    rw [findSome?_cons]
    cases mention : m.roundValidators with
    | none =>
      obtain ⟨c', holds', result⟩ := ih holds
      refine ⟨c', holds', ?_⟩
      simpa [findNewKey, Milestone.toValidatorMilestone, mention] using result
    | some n =>
      cases n with
      | zero =>
        obtain ⟨c', holds', result⟩ := ih holds
        refine ⟨c', holds', ?_⟩
        simpa [findNewKey, Milestone.toValidatorMilestone, mention, Option.filter,
          isNew] using result
      | succ value =>
        obtain ⟨now, c', read, holds', number⟩ := holds.getMilestone known
        by_cases new : value + 1 ≠ current ∧ height < m.height
        · refine ⟨c', holds', ?_⟩
          simp [findNewKey, Milestone.toValidatorMilestone, mention, read, number, new,
            bind, Except.bind, Option.filter, isNew, searchResult]
        · obtain ⟨c'', holds'', result⟩ := ih holds'
          refine ⟨c'', holds'', ?_⟩
          have passed : (⟨m.height, value + 1⟩ : ValidatorMilestone).isNew height current = false := by
            simp only [isNew]
            grind
          have kept : ¬ (some (value + 1) ≠ now.roundValidators ∧ height < m.height) := by
            simpa [number] using new
          simp only [findNewKey, mention, read, bind, Except.bind, if_neg kept]
          simpa [Milestone.toValidatorMilestone, mention, Option.filter, passed] using result

/-- The search finds the first milestone after `height` that mentions a number other than the one
in force there. -/
theorem getNextMilestoneWithNewKey :
    ∃ c', c'.Holds keys config ∧ c.getNextMilestoneWithNewKey height Milestone.roundValidators =
        .ok (searchResult height (config.validatorMilestones.find? (·.isNew height current)), c') := by
  obtain ⟨first, later, all, sorted, low, mentions, carried⟩ := holds.exists_first known
  obtain ⟨c', holds', result⟩ := holds.findNewKey known c.milestones
  refine ⟨c', holds', result.trans ?_⟩
  have old : height < first.height → ∀ n, first.roundValidators = some n → n = 0 ∨ n = current :=
    fun above => absurd low (not_le.mpr above)
  rw [all, findSome?_scanl sorted (fun _ => carried) old, mentions, ← findSome?_toValidatorMilestone,
    findSome?_cons, filter_isNew_eq_none.mpr old]

end Holds

end Configuration

end Mainsail
