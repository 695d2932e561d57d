import Mathlib.Data.List.Basic

/-!
# Logs of sparse changes

A state gives each key a value, and a change gives new values to some keys. A log keeps the last
changes. To read a key as it was in the past one looks for the newest change of the key up to then,
and if the log has none one may fall back to the state as it is now. This is right just when the
log has such a change, or the key has had the same value then and now.
-/

namespace DeltaLog

open Option List

variable {κ ν : Type} {past later kept l l' : List (κ → Option ν)} {k : κ}

/-- The newest value that a list of changes, the oldest first, gives to a key. -/
def latest (l : List (κ → Option ν)) (k : κ) : Option ν := l.reverse.findSome? (· k)

def apply (s : κ → ν) (change : κ → Option ν) : κ → ν := fun k => (change k).getD (s k)

theorem latest_append : latest (l ++ l') k = (latest l' k).or (latest l k) := by
  simp only [latest, reverse_append, findSome?_append]

theorem latest_isSome : (latest l k).isSome ↔ ∃ change ∈ l, (change k).isSome := by
  simp [latest, findSome?_isSome_iff]

/-- The state after some changes. -/
theorem foldl_apply (l : List (κ → Option ν)) (s : κ → ν) (k : κ) :
    l.foldl apply s k = (latest l k).getD (s k) := by
  induction l generalizing s with
  | nil => rfl
  | cons change l ih =>
    rw [foldl_cons, ih, ← singleton_append, latest_append]
    cases latest l k <;> simp [latest, apply]

/-- A read of the past from the changes that a log has kept, which falls back to the present. -/
theorem read_eq_iff (s : κ → ν) (newest : kept <:+ past) :
    (latest kept k).getD ((past ++ later).foldl apply s k) = past.foldl apply s k ↔
      (∃ change ∈ kept, (change k).isSome) ∨
        (past ++ later).foldl apply s k = past.foldl apply s k := by
  rw [← latest_isSome]
  cases found : latest kept k with
  | none => simp
  | some value =>
    obtain ⟨older, rfl⟩ := newest
    have last : latest (older ++ kept) k = some value := by rw [latest_append, found, some_or]
    simp [foldl_apply (older ++ kept), last]

/-! ## Changes from lists -/

variable {μ : Type} [DecidableEq κ]

/-- The last value that a list of keys and values gives to a key. -/
def ofList : List (κ × ν) → κ → Option ν
  | [], _ => none
  | e :: l, k => (ofList l k).or (if k = e.1 then some e.2 else none)

theorem ofList_isSome {l : List (κ × ν)} {k : κ} : (ofList l k).isSome ↔ k ∈ l.map Prod.fst := by
  induction l with
  | nil => simp [ofList]
  | cons e l ih =>
    rw [ofList, isSome_or, Bool.or_eq_true, ih, map_cons, mem_cons, or_comm]
    split_ifs with here <;> simp [here]

theorem ofList_eq_some_iff {l : List (κ × ν)} (nodup : (l.map Prod.fst).Nodup) {k : κ} {v : ν} :
    ofList l k = some v ↔ (k, v) ∈ l := by
  induction l with
  | nil => simp [ofList]
  | cons e l ih =>
    obtain ⟨fresh, nodup⟩ := nodup_cons.mp nodup
    have rest := ih nodup
    rw [ofList, or_eq_some_iff, rest, mem_cons, ite_none_right_eq_some]
    constructor
    · rintro (member | ⟨-, rfl, same⟩)
      · exact .inr member
      · exact .inl (Prod.ext rfl (some.inj same).symm)
    · rintro (rfl | member)
      · have none : ofList l k = none := by
          rw [← not_isSome_iff_eq_none, ofList_isSome]
          exact fresh
        exact .inr ⟨none, rfl, rfl⟩
      · exact .inl member

theorem ofList_map (f : ν → μ) (l : List (κ × ν)) (k : κ) :
    ofList (l.map fun e => (e.1, f e.2)) k = (ofList l k).map f := by
  induction l with
  | nil => rfl
  | cons e l ih =>
    rw [map_cons, ofList, ofList, ih, map_or]
    split_ifs <;> rfl

theorem foldl_update (l : List (κ × ν)) (t : κ → ν) (k : κ) :
    l.foldl (fun t e => Function.update t e.1 e.2) t k = (ofList l k).getD (t k) := by
  induction l generalizing t with
  | nil => rfl
  | cons e l ih =>
    rw [foldl_cons, ih, ofList, Function.update_apply]
    cases ofList l k with
    | some value => rfl
    | none => split_ifs <;> rfl

end DeltaLog
