import Mathlib.Data.List.Induction

/-!
# Merging objects

Objects have values at keys, and some of the values are objects again. Nothing is said about how two
objects are merged, except what it comes to at the keys that are merged: a value replaces the one
before it, unless both are objects, which are merged in the same way.

Over a list of objects, the value that ends up at such a key is what the values at that key merge to,
whatever the objects hold at other keys.
-/

namespace DeepMerge

open List

/-- Objects `κ` and the values `β` that they have at keys `ι`. -/
structure Fields (ι κ β : Type) where
  field : κ → ι → Option β
  /-- The object that a value is, if it is one. -/
  asObject : β → Option κ

variable {ι κ β : Type}

/-- Merging where a value may be missing. -/
def mergeOption (mergeValue : β → β → β) : Option β → Option β → Option β
  | some x, some y => some (mergeValue x y)
  | some x, none => some x
  | none, y => y

/-- All values of a list, each over those before it. -/
def mergeValues (mergeValue : β → β → β) (values : List β) : Option β :=
  values.foldl (fun merged value => mergeOption mergeValue merged (some value)) none

/-- What merging two objects, and two values at a key, comes to at the keys `merged`. -/
structure Merges (s : Fields ι κ β) (merged : ι → Prop) (merge : κ → κ → κ)
    (mergeValue : β → β → β) : Prop where
  field {k : ι} : merged k → ∀ a b,
    s.field (merge a b) k = mergeOption mergeValue (s.field a k) (s.field b k)
  /-- A value that is not an object replaces the one before it. -/
  replace {y : β} : s.asObject y = none → ∀ x, mergeValue x y = y
  objects {x y : β} {a b : κ} : s.asObject x = some a → s.asObject y = some b →
    s.asObject (mergeValue x y) = some (merge a b)

theorem mergeValues_append_singleton (mergeValue : β → β → β) (values : List β) (value : β) :
    mergeValues mergeValue (values ++ [value]) =
      mergeOption mergeValue (mergeValues mergeValue values) (some value) := by
  rw [mergeValues, foldl_append]
  rfl

namespace Merges

variable {s : Fields ι κ β} {merged : ι → Prop} {merge : κ → κ → κ} {mergeValue : β → β → β}
  (merges : Merges s merged merge mergeValue)

include merges

/-- The last value wins, unless it is an object. -/
theorem mergeValues_of_not_object {values : List β} {value : β}
    (last : values.getLast? = some value) (other : s.asObject value = none) :
    mergeValues mergeValue values = some value := by
  obtain ⟨before, rfl⟩ := getLast?_eq_some_iff.mp last
  rw [mergeValues_append_singleton]
  cases mergeValues mergeValue before with
  | none => rfl
  | some x => exact congrArg some (merges.replace other x)

/-- The value at a key is what the values at that key merge to. -/
theorem field_foldl {k : ι} (here : merged k) (a : κ) (objects : List κ) :
    s.field (objects.foldl merge a) k =
      mergeValues mergeValue ((a :: objects).filterMap (s.field · k)) := by
  induction objects using reverseRecOn with
  | nil => cases mentioned : s.field a k <;> simp [mentioned] <;> rfl
  | append_singleton objects b ih =>
    rw [foldl_append, foldl_cons, foldl_nil, merges.field here, ih, ← cons_append, filterMap_append]
    cases mentioned : s.field b k with
    | none =>
      simp only [filterMap_cons, mentioned, filterMap_nil, append_nil]
      cases mergeValues mergeValue _ <;> rfl
    | some value =>
      simp only [filterMap_cons (a := b), mentioned, filterMap_nil]
      rw [mergeValues_append_singleton]

/-- Objects merge to an object. -/
theorem mergeValues_objects {a : κ} {objects : List κ} {values : List β}
    (all : values.map s.asObject = (a :: objects).map some) :
    ∃ value, mergeValues mergeValue values = some value ∧
      s.asObject value = some (objects.foldl merge a) := by
  induction objects using reverseRecOn generalizing values with
  | nil =>
    obtain ⟨value, rfl, here⟩ := map_eq_singleton_iff.mp all
    exact ⟨value, rfl, here⟩
  | append_singleton objects b ih =>
    rw [← cons_append, map_append] at all
    obtain ⟨before, last, rfl, first, rest⟩ := map_eq_append_iff.mp all
    obtain ⟨value, rfl, here⟩ := map_eq_singleton_iff.mp rest
    obtain ⟨x, earlier, isObject⟩ := ih first
    refine ⟨mergeValue x value, ?_, ?_⟩
    · rw [mergeValues_append_singleton, earlier]
      rfl
    · rw [foldl_append]
      exact merges.objects isObject here

end Merges

end DeepMerge
