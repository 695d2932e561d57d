import Mathlib.Logic.Function.Basic

/-!
# Calls that share a computation

The first call for a key leads: it enters the key and computes. The calls that come for the same key
meanwhile follow it. When the leader is done it takes the entry, and all of them go on with its result.
The entries are kept by key, with the followers of each; the calls only know their own role.
-/

namespace SharedCalls

open Function

universe u v

/-- What a call does at the moment. -/
inductive Role (κ : Type u)
  | free
  | leads (key : κ)
  | follows (key : κ)

/-- Every entry has one leader, and its followers are the calls that follow. -/
structure Sound {κ : Type u} {ι : Type v} (entries : κ → Option (List ι)) (role : ι → Role κ) : Prop where
  exists_leader : ∀ key, entries key ≠ none → ∃ i, role i = .leads key
  leader_unique : ∀ i j key, role i = .leads key → role j = .leads key → i = j
  leader_entry : ∀ i key, role i = .leads key → entries key ≠ none
  follower_entry : ∀ i key, role i = .follows key → entries key ≠ none
  mem_iff : ∀ key followers, entries key = some followers → ∀ i, i ∈ followers ↔ role i = .follows key

namespace Sound

variable {κ : Type u} {ι : Type v}

theorem empty : Sound (fun _ : κ => none) (fun _ : ι => .free) := by
  constructor <;> intros <;> contradiction

variable [DecidableEq κ] [DecidableEq ι]
variable {entries : κ → Option (List ι)} {role : ι → Role κ} {i : ι} {key : κ} {followers : List ι}

variable (h : Sound entries role)
include h

/-- A call for a key without an entry leads. -/
theorem lead (free : role i = .free) (vacant : entries key = none) :
    Sound (update entries key (some [])) (update role i (.leads key)) := by
  obtain ⟨exists_leader, leader_unique, leader_entry, follower_entry, mem_iff⟩ := h
  constructor
  · intro key' entry
    by_cases same : key' = key
    · exact ⟨i, by rw [update_self, same]⟩
    · rw [update_of_ne same] at entry
      obtain ⟨j, leads⟩ := exists_leader key' entry
      refine ⟨j, ?_⟩
      rw [update_of_ne (by grind)]
      exact leads
  all_goals grind [update_apply]

/-- A call for a key with an entry follows. -/
theorem follow (free : role i = .free) (entry : entries key = some followers) :
    Sound (update entries key (some (followers ++ [i]))) (update role i (.follows key)) := by
  obtain ⟨exists_leader, leader_unique, leader_entry, follower_entry, mem_iff⟩ := h
  constructor
  · intro key' entry'
    obtain ⟨j, leads⟩ := exists_leader key' (by grind [update_apply])
    refine ⟨j, ?_⟩
    rw [update_of_ne (by grind)]
    exact leads
  all_goals grind [update_apply]

/-- The leader takes the entry, and it and its followers are free. -/
theorem take (leads : role i = .leads key) (entry : entries key = some followers) :
    Sound (update entries key none) (fun j => if j = i ∨ j ∈ followers then .free else role j) := by
  obtain ⟨exists_leader, leader_unique, leader_entry, follower_entry, mem_iff⟩ := h
  constructor
  · intro key' entry'
    obtain ⟨j, leads'⟩ := exists_leader key' (by grind [update_apply])
    refine ⟨j, ?_⟩
    rw [if_neg (by grind)]
    exact leads'
  all_goals grind [update_apply]

end Sound

end SharedCalls
