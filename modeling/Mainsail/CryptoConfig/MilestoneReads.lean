import Mainsail.Foundation.DeepMerge
import Mainsail.CryptoConfig.Configuration

/-!
# What a milestone lookup returns

`getMilestone` moves an index that all its callers share, forwards and backwards from wherever the
call before left it. The list it moves over was merged once, each milestone into the next one.

The keys that the configuration leaves open are merged by `deepmerge`, with an `arrayMerge` that takes
the later array. `deepmerge` is a library: what is assumed of it is `DeepMerge.Merges`, at the keys that
it merges. A key that every object inherits, such as `toString`, is skipped unless the object before has
it as its own, so nothing is said about such keys.
-/

namespace Mainsail

open DeepMerge Milestone List

variable {κ ν β : Type}

namespace NetworkConfig

/-- The milestones up to a height, in height order. -/
def milestonesUpTo (config : NetworkConfig κ ν) (height : Nat) : List (Milestone κ) :=
  (sortByHeight config.milestones).filter (·.height ≤ height)

/-- The height is not below the first milestone. -/
def Reaches (config : NetworkConfig κ ν) (height : Nat) : Prop :=
  ∃ m ∈ config.milestones, m.height ≤ height

end NetworkConfig

/-! ## Merging many milestones -/

namespace Milestone

/-- All milestones of a list, each merged over those before it. -/
def mergeAll (keys : OtherKeys κ ν) : List (Milestone κ) → Option (Milestone κ)
  | [] => none
  | m :: milestones => some (milestones.foldl (merge keys) m)

/-- What merging leaves of a list of milestones. Of each key the last mention wins, also where it is
an array. Objects at one key are merged in the same way. -/
structure MergedFrom (s : Fields String κ β) (merged : String → Prop) (mergeValue : β → β → β)
    (milestones : List (Milestone κ)) (m : Milestone κ) : Prop where
  height : milestones.getLast?.map (·.height) = some m.height
  roundValidators : m.roundValidators = (milestones.filterMap (·.roundValidators)).getLast?
  maxGasLimit : m.block.maxGasLimit = (milestones.filterMap (·.block.maxGasLimit)).getLast?
  maxPayload : m.block.maxPayload = (milestones.filterMap (·.block.maxPayload)).getLast?
  version : m.block.version = (milestones.filterMap (·.block.version)).getLast?
  others : ∀ key, merged key → s.field m.others key =
    mergeValues mergeValue (milestones.filterMap (s.field ·.others key))
  replaced : ∀ key value, merged key →
    (milestones.filterMap (s.field ·.others key)).getLast? = some value →
    s.asObject value = none → s.field m.others key = some value
  nested : ∀ key object objects, merged key →
    (milestones.filterMap (s.field ·.others key)).map s.asObject = (object :: objects).map some →
    ∃ value fields, s.field m.others key = some value ∧ s.asObject value = some fields ∧
      ∀ inner, merged inner → s.field fields inner =
        mergeValues mergeValue ((object :: objects).filterMap (s.field · inner))

/-- A key that merging carries over has its last mention. -/
theorem foldl_merge_key {keys : OtherKeys κ ν} {β : Type} (key : Milestone κ → Option β)
    (carried : ∀ a b, key (merge keys a b) = (key b).or (key a)) (m : Milestone κ)
    (milestones : List (Milestone κ)) :
    key (milestones.foldl (merge keys) m) = ((m :: milestones).filterMap key).getLast? := by
  induction milestones using reverseRecOn with
  | nil => cases mention : key m <;> simp [mention]
  | append_singleton milestones last ih =>
    rw [foldl_append, foldl_cons, foldl_nil, carried, ih, ← cons_append,
      filterMap_append, getLast?_append]
    cases mention : key last <;> simp [mention]

theorem foldl_merge_height {keys : OtherKeys κ ν} (m : Milestone κ) (milestones : List (Milestone κ)) :
    (m :: milestones).getLast?.map (·.height) = some (milestones.foldl (merge keys) m).height := by
  induction milestones using reverseRecOn with
  | nil => rfl
  | append_singleton milestones last ih =>
    rw [← cons_append, getLast?_append, foldl_append]
    rfl

theorem foldl_merge_others {keys : OtherKeys κ ν} (m : Milestone κ) (milestones : List (Milestone κ)) :
    (milestones.foldl (merge keys) m).others =
      (milestones.map (·.others)).foldl keys.merge m.others := by
  induction milestones generalizing m with
  | nil => rfl
  | cons next milestones ih => exact ih _

theorem mergedFrom_of_mergeAll {keys : OtherKeys κ ν} {s : Fields String κ β}
    {merged : String → Prop} {mergeValue : β → β → β} {milestones : List (Milestone κ)}
    {m : Milestone κ} (deepmerge : Merges s merged keys.merge mergeValue)
    (all : mergeAll keys milestones = some m) : m.MergedFrom s merged mergeValue milestones := by
  cases milestones with
  | nil => cases all
  | cons first milestones =>
    cases all
    have others (key : String) (here : merged key) :
        s.field (milestones.foldl (merge keys) first).others key =
          mergeValues mergeValue ((first :: milestones).filterMap (s.field ·.others key)) := by
      rw [foldl_merge_others, deepmerge.field_foldl here, ← map_cons, filterMap_map]
      rfl
    exact {
      height := foldl_merge_height first milestones
      roundValidators := foldl_merge_key _ (fun _ _ => rfl) first milestones
      maxGasLimit := foldl_merge_key (·.block.maxGasLimit) (fun _ _ => rfl) first milestones
      maxPayload := foldl_merge_key (·.block.maxPayload) (fun _ _ => rfl) first milestones
      version := foldl_merge_key (·.block.version) (fun _ _ => rfl) first milestones
      others := others
      replaced := fun key value here last other =>
        (others key here).trans (deepmerge.mergeValues_of_not_object last other)
      nested := by
        intro key object objects here values
        obtain ⟨value, merged, isObject⟩ := deepmerge.mergeValues_objects values
        exact ⟨value, _, (others key here).trans merged, isObject,
          fun inner here => deepmerge.field_foldl here object objects⟩ }

end Milestone

/-! ## Reading the merged list -/

section Merged

variable {keys : OtherKeys κ ν} {height : Nat} {carried : Milestone κ}

/-- The last merged milestone up to a height is the merge of those up to it. -/
theorem getLast?_scanl_merge (milestones : List (Milestone κ)) (low : carried.height ≤ height) :
    ((milestones.scanl (merge keys) carried).takeWhile (·.height ≤ height)).getLast? =
      some ((milestones.takeWhile (·.height ≤ height)).foldl (merge keys) carried) := by
  induction milestones generalizing carried with
  | nil => simp [low]
  | cons x milestones ih =>
    by_cases below : x.height ≤ height
    · have rest := @ih (merge keys carried x) below
      rw [scanl_cons, takeWhile_cons_of_pos (by simpa using low), getLast?_cons,
        rest, takeWhile_cons_of_pos (by simpa using below)]
      rfl
    · rw [takeWhile_cons_of_neg (by simpa using below)]
      cases milestones <;> simp [scanl_cons, low, below]

theorem takeWhile_eq_filter {milestones : List (Milestone κ)}
    (sorted : milestones.Pairwise (fun a b => a.height ≤ b.height)) :
    milestones.takeWhile (·.height ≤ height) = milestones.filter (·.height ≤ height) := by
  induction milestones with
  | nil => rfl
  | cons x milestones ih =>
    obtain ⟨first, rest⟩ := pairwise_cons.mp sorted
    by_cases below : x.height ≤ height
    · rw [takeWhile_cons_of_pos (by simpa using below),
        filter_cons_of_pos (by simpa using below), ih rest]
    · have none_below : milestones.filter (·.height ≤ height) = [] := by
        rw [filter_eq_nil_iff]
        intro m member
        have := first m member
        simp only [decide_eq_true_eq]
        omega
      rw [takeWhile_cons_of_neg (by simpa using below),
        filter_cons_of_neg (by simpa using below), none_below]

end Merged

namespace Configuration

/-- The calls of `getMilestone` that were made before, one after the other. -/
def readAll (c : Configuration κ ν) : List Nat → Except ConfigurationError (Configuration κ ν)
  | [] => .ok c
  | height :: heights =>
    match c.getMilestone height with
    | .ok (_, c) => c.readAll heights
    | .error e => .error e

namespace Holds

variable {keys : OtherKeys κ ν} {config : NetworkConfig κ ν} {c : Configuration κ ν} {height : Nat}
  (holds : c.Holds keys config)

include holds

/-- One call: it reads the merge of the milestones up to the height, wherever the index was, and
leaves it inside the list. -/
theorem getMilestone_merged (reaches : config.Reaches height) :
    ∃ m c', c.getMilestone height = .ok (m, c') ∧ c'.Holds keys config ∧
      mergeAll keys (config.milestonesUpTo height) = some m := by
  have order := sorted_sortByHeight config.milestones
  obtain ⟨low, member, below⟩ := reaches
  have here : low ∈ sortByHeight config.milestones := (mem_insertionSort _).mpr member
  rw [NetworkConfig.milestonesUpTo]
  cases all : sortByHeight config.milestones with
  | nil => rw [all] at here; cases here
  | cons first later =>
    rw [all] at order here
    have start : first.height ≤ height := by
      obtain rfl | deeper := mem_cons.mp here
      · exact below
      · exact ((pairwise_cons.mp order).1 low deeper).trans below
    have merged : c.milestones = later.scanl (merge keys) first := by
      rw [holds.milestones_eq, buildMilestones, all]
    have last : (c.milestones.takeWhile (·.height ≤ height)).getLast? = _ :=
      merged ▸ getLast?_scanl_merge later start
    refine ⟨_, _, getMilestone_eq holds.sorted holds.next_le last,
      ⟨holds.config_eq, Seek.position_le_length⟩, ?_⟩
    rw [filter_cons_of_pos (by simpa using start), mergeAll,
      takeWhile_eq_filter (pairwise_cons.mp order).2]

theorem readAll {heights : List Nat} (reaches : ∀ height ∈ heights, config.Reaches height) :
    ∃ c', c.readAll heights = .ok c' ∧ c'.Holds keys config := by
  induction heights generalizing c with
  | nil => exact ⟨c, rfl, holds⟩
  | cons height heights ih =>
    obtain ⟨first, rest⟩ := forall_mem_cons.mp reaches
    obtain ⟨m, c', read, holds', -⟩ := holds.getMilestone_merged first
    obtain ⟨c'', later, holds''⟩ := ih holds' rest
    refine ⟨c'', ?_, holds''⟩
    rw [Configuration.readAll, read]
    exact later

end Holds

/-- An accepted configuration starts with its index on the first milestone. -/
theorem holds_of_setConfig {keys : OtherKeys κ ν} {config : NetworkConfig κ ν} {verify : Bool}
    {c : Configuration κ ν} (accepted : setConfig keys config verify = .ok c) :
    c.Holds keys config := by
  obtain ⟨checked, -, rfl⟩ := setConfig_eq_ok.mp accepted
  obtain ⟨-, first, later, introduced, -⟩ := checkRoundValidators_eq_ok.mp checked
  refine ⟨rfl, ?_⟩
  show 1 ≤ (buildMilestones keys config).length
  rw [buildMilestones]
  cases all : sortByHeight config.milestones with
  | nil =>
    have none_left := introduced.1
    rw [NetworkConfig.validatorMilestones, all] at none_left
    cases none_left
  | cons first later => simp

/-- Whatever was read before, a lookup returns the merge of all milestones up to the height. -/
theorem getMilestone_history {keys : OtherKeys κ ν} {s : Fields String κ β}
    {merged : String → Prop} {mergeValue : β → β → β} {config : NetworkConfig κ ν} {verify : Bool}
    {c : Configuration κ ν} {earlier : List Nat} {height : Nat}
    (deepmerge : Merges s merged keys.merge mergeValue)
    (accepted : setConfig keys config verify = .ok c)
    (before : ∀ h ∈ earlier, config.Reaches h) (reaches : config.Reaches height) :
    ∃ c' m c'', c.readAll earlier = .ok c' ∧ c'.getMilestone height = .ok (m, c'') ∧
      mergeAll keys (config.milestonesUpTo height) = some m ∧
      m.MergedFrom s merged mergeValue (config.milestonesUpTo height) := by
  obtain ⟨c', read, holds⟩ := (holds_of_setConfig accepted).readAll before
  obtain ⟨m, c'', now, -, all⟩ := holds.getMilestone_merged reaches
  exact ⟨c', m, c'', read, now, all, mergedFrom_of_mergeAll deepmerge all⟩

namespace LaterVersions

/-- The value of a key, with `missing` for a key that an object does not have. -/
inductive Value
  | missing
  | number (n : Nat)
  | array (elements : List Nat)
  | object (fields : String → Value)

def Value.present : Value → Option Value
  | missing => none
  | value => some value

def Value.asObject : Value → Option (String → Value)
  | object fields => some fields
  | _ => none

def fields : Fields String (String → Value) Value where
  field object key := (object key).present
  asObject := Value.asObject

/-- A value over the one before it. The key `toString`, which every object inherits, is skipped. -/
def Value.merge : Value → Value → Value
  | object a, object b => object fun key =>
    if key = "toString" then a key
    else match b key with
      | missing => a key
      | value => merge (a key) value
  | _, value => value

def mergeObjects (a b : String → Value) : String → Value :=
  ((Value.object a).merge (.object b)).asObject.getD a

theorem merges : Merges fields (· ≠ "toString") mergeObjects Value.merge where
  field {key} here a b := by
    have step : mergeObjects a b key = match b key with
        | .missing => a key
        | value => (a key).merge value := if_neg here
    show (mergeObjects a b key).present = mergeOption Value.merge (a key).present (b key).present
    rw [step]
    cases a key <;> cases b key <;> rfl
  replace {y} other x := by
    cases y with
    | object b => cases other
    | _ => cases x <;> rfl
  objects {x y a b} left right := by
    cases x <;> cases left
    cases y <;> cases right
    rfl

/-- A milestone with nested keys. -/
def milestone (height : Nat) (roundValidators : Option Nat) (others : List (String × Value)) :
    Milestone (String → Value) :=
  ⟨height, roundValidators, ⟨some 1, some 1, some 1⟩, fun key => (others.lookup key).getD .missing⟩

def timeouts (blockTime tolerance : Value) : Value :=
  .object fun key =>
    if key = "blockTime" then blockTime else if key = "tolerance" then tolerance else .missing

/-- The second milestone is given last. It replaces an array and one of two timeouts. -/
def config : NetworkConfig (String → Value) Unit where
  genesisHeight := 0
  milestones :=
    [milestone 0 (some 0) [("timeouts", timeouts (.number 8) (.number 2)),
        ("minimumVersions", .array [1, 2])],
      milestone 9 none [],
      milestone 1 (some 3) [("timeouts", timeouts (.number 4) .missing),
        ("minimumVersions", .array [3])]]
  network := ()

def keys : OtherKeys (String → Value) Unit := ⟨mergeObjects, fun _ => true, fun _ => true⟩

end LaterVersions

theorem getMilestone_history_laterVersions :
    ∃ c c' m c'', setConfig LaterVersions.keys LaterVersions.config true = .ok c ∧
      c.readAll [9, 0, 12] = .ok c' ∧ c'.getMilestone 5 = .ok (m, c'') ∧
      m.MergedFrom LaterVersions.fields (· ≠ "toString") LaterVersions.Value.merge
        (LaterVersions.config.milestonesUpTo 5) ∧
      m.others "minimumVersions" = .array [3] := by
  have reaches (height : Nat) : LaterVersions.config.Reaches height :=
    ⟨_, mem_cons_self .., Nat.zero_le height⟩
  have accepted : setConfig LaterVersions.keys LaterVersions.config true =
      .ok ⟨buildConfig LaterVersions.keys LaterVersions.config, 1⟩ := rfl
  have before : ∀ height ∈ [9, 0, 12], LaterVersions.config.Reaches height :=
    fun height _ => reaches height
  obtain ⟨c', m, c'', read, now, all, merged⟩ :=
    getMilestone_history LaterVersions.merges accepted before (reaches 5)
  refine ⟨_, c', m, c'', accepted, read, now, merged, ?_⟩
  cases all
  rfl

end Configuration

end Mainsail
