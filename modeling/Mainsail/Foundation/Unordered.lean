import Mathlib.Data.List.AList
import Mathlib.Data.List.Sort

/-!
# Hash maps and unstable sorts

The order in which a program goes through a hash map is not determined, and neither is the order
that an unstable sort gives to elements with the same key. A schedule makes these choices, at each
place of a program, in some way. What does not depend on the schedule is what the program computes.

A hash map is an `AList`, of which only the lookups and the entries up to order mean something.
-/

namespace Unordered

open List

variable {ι α κ : Type}

/-- The choices of a run at the places `ι` of a program. -/
structure Schedule (ι : Type) where
  iterate : {α : Type} → ι → List α → List α
  iterate_perm : ∀ {α : Type} (site : ι) (l : List α), (iterate site l).Perm l
  sort : {α κ : Type} → [LinearOrder κ] → ι → (α → κ) → List α → List α
  sort_perm : ∀ {α κ : Type} [LinearOrder κ] (site : ι) (key : α → κ) (l : List α),
    (sort site key l).Perm l
  sort_pairwise : ∀ {α κ : Type} [LinearOrder κ] (site : ι) (key : α → κ) (l : List α),
    (sort site key l).Pairwise fun a b => key a ≤ key b

/-- Maps are gone through as they are kept, and sorts are stable. -/
def Schedule.plain : Schedule ι where
  iterate _ l := l
  iterate_perm _ _ := .refl _
  sort _ key l := l.insertionSort fun a b => key a ≤ key b
  sort_perm _ _ l := l.perm_insertionSort _
  sort_pairwise _ key l := by
    have : Std.Total fun a b => key a ≤ key b := ⟨fun a b => le_total (key a) (key b)⟩
    have : IsTrans _ fun a b => key a ≤ key b := ⟨fun _ _ _ => le_trans⟩
    exact l.pairwise_insertionSort _

variable {key : α → κ}

/-- With a key for each element, there is one sorted order. -/
theorem Schedule.sort_eq [LinearOrder κ] (σ σ' : Schedule ι) (site : ι)
    {l l' : List α} (perm : l.Perm l') (unique : ∀ a ∈ l, ∀ b ∈ l, key a = key b → a = b) :
    σ.sort site key l = σ'.sort site key l' := by
  have same : (σ.sort site key l).Perm (σ'.sort site key l') :=
    (σ.sort_perm ..).trans (perm.trans (σ'.sort_perm ..).symm)
  refine same.eq_of_pairwise ?_ (σ.sort_pairwise ..) (σ'.sort_pairwise ..)
  intro a b first second le ge
  have first := (σ.sort_perm site key l).mem_iff.mp first
  have second := perm.mem_iff.mpr ((σ'.sort_perm site key l').mem_iff.mp second)
  exact unique a first b second (le_antisymm le ge)

theorem Schedule.iterate_perm_iterate (σ σ' : Schedule ι) (site site' : ι) {l l' : List α}
    (perm : l.Perm l') : (σ.iterate site l).Perm (σ'.iterate site' l') :=
  (σ.iterate_perm ..).trans (perm.trans (σ'.iterate_perm ..).symm)

/-! ## Building a map -/

section

variable {ν : Type} {l l' : List (Sigma fun _ : κ => ν)}

/-- No two entries have the same key and different values. -/
def Consistent (l : List (Sigma fun _ : κ => ν)) : Prop :=
  ∀ e ∈ l, ∀ e' ∈ l, e.1 = e'.1 → e = e'

theorem Consistent.of_nodupKeys (h : l.NodupKeys) : Consistent l := by
  rintro ⟨k, v⟩ first ⟨k', v'⟩ second (rfl : k = k')
  rw [h.eq_of_mk_mem first second]

variable {m : AList fun _ : κ => ν} {g : (Sigma fun _ : κ => ν) → Option α}

/-- The entries of a map, sorted by their keys. -/
theorem Schedule.sort_filterMap [LinearOrder κ] (σ σ' : Schedule ι) (site site' : ι)
    {m' : AList fun _ : κ => ν} (perm : m.entries.Perm m'.entries)
    (keyed : ∀ e a, g e = some a → key a = e.1) :
    σ.sort site key ((σ.iterate site' m.entries).filterMap g) =
      σ'.sort site key ((σ'.iterate site' m'.entries).filterMap g) := by
  refine σ.sort_eq σ' site ((σ.iterate_perm_iterate σ' site' site' perm).filterMap g) ?_
  intro a first b second same
  obtain ⟨e, member, found⟩ := mem_filterMap.mp first
  obtain ⟨e', member', found'⟩ := mem_filterMap.mp second
  rw [keyed e a found, keyed e' b found'] at same
  obtain rfl := Consistent.of_nodupKeys m.nodupKeys
    e ((σ.iterate_perm ..).mem_iff.mp member) e' ((σ.iterate_perm ..).mem_iff.mp member') same
  exact Option.some.inj (found.symm.trans found')

/-- What is made of the entries of a map, in any order, has each key once. -/
theorem Schedule.nodup_filterMap (σ : Schedule ι) (site : ι) (m : AList fun _ : κ => ν)
    (keyed : ∀ e a, g e = some a → key a = e.1) :
    (((σ.iterate site m.entries).filterMap g).map key).Nodup := by
  have nodup : ((σ.iterate site m.entries).map Sigma.fst).Nodup :=
    ((σ.iterate_perm site m.entries).map Sigma.fst).nodup_iff.mpr m.nodupKeys
  generalize σ.iterate site m.entries = entries at nodup
  refine List.Nodup.sublist ?_ nodup
  induction entries with
  | nil => exact .slnil
  | cons e entries ih =>
    have rest := ih (nodup_cons.mp nodup).2
    cases found : g e with
    | none =>
      rw [filterMap_cons_none found]
      exact rest.cons _
    | some a =>
      rw [filterMap_cons_some found, map_cons, map_cons, keyed e a found]
      exact rest.cons_cons _

variable [DecidableEq κ]

/-- Insert the entries one after the other. -/
def insertAll (m : AList fun _ : κ => ν) (l : List (Sigma fun _ : κ => ν)) :
    AList fun _ : κ => ν :=
  l.foldl (fun m e => m.insert e.1 e.2) m

theorem mem_lookup_insertAll (consistent : Consistent l) {k : κ} {v : ν} :
    v ∈ (insertAll m l).lookup k ↔ ⟨k, v⟩ ∈ l ∨ (∀ e ∈ l, e.1 ≠ k) ∧ v ∈ m.lookup k := by
  induction l generalizing m with
  | nil => simp [insertAll]
  | cons e l ih =>
    obtain ⟨k', v'⟩ := e
    have rest : Consistent l := fun e first e' second =>
      consistent e (.tail _ first) e' (.tail _ second)
    refine (ih (m := m.insert k' v') rest).trans ?_
    by_cases same : k' = k
    · subst same
      rw [AList.lookup_insert]
      constructor
      · rintro (member | ⟨-, equal⟩)
        · exact .inl (.tail _ member)
        · obtain rfl := Option.mem_some_iff.mp equal
          exact .inl (.head _)
      · rintro (member | ⟨other, -⟩)
        · -- The entry is the last with its key, or one that comes again has the same value.
          obtain rfl : v = v' := by
            have := consistent _ member _ (.head _) rfl
            simpa using this
          by_cases again : ∃ e ∈ l, e.1 = k'
          · obtain ⟨e, member', key⟩ := again
            have := consistent e (.tail _ member') ⟨k', v⟩ (.head _) key
            exact .inl (this ▸ member')
          · exact .inr ⟨fun e member key => again ⟨e, member, key⟩, rfl⟩
        · exact absurd rfl (other _ (.head _))
    · rw [AList.lookup_insert_ne (Ne.symm same)]
      simp [same, Ne.symm same]

/-- A map that is built from the same entries in another order has the same entries. -/
theorem insertAll_perm (consistent : Consistent l) (perm : l.Perm l') :
    (insertAll ∅ l).entries.Perm (insertAll ∅ l').entries := by
  have consistent' : Consistent l' := fun e first e' second =>
    consistent e (perm.mem_iff.mpr first) e' (perm.mem_iff.mpr second)
  refine lookup_ext (AList.nodupKeys _) (AList.nodupKeys _) ?_
  intro k v
  refine (mem_lookup_insertAll (m := ∅) consistent).trans
    (Iff.trans ?_ (mem_lookup_insertAll (m := ∅) consistent').symm)
  simp [perm.mem_iff]

end

end Unordered
