import Mathlib.Data.List.Sort

/-!
# Tables with sorted duplicates

A table keeps several data items under one key, in the order of a comparator that looks at a part
of the item, its rank. No two items under one key have the same rank. A cursor stands on an item,
or nowhere, and the writes of the table go through it. This is the part of LMDB that a table with
`DUPSORT` offers.
-/

namespace DupSort

open List

variable {κ δ ρ : Type} [LinearOrder ρ] {rank : δ → ρ}

structure Table (κ δ : Type) {ρ : Type} [LinearOrder ρ] (rank : δ → ρ) where
  dups : κ → List δ
  sorted : ∀ k, (dups k).Pairwise fun d e => rank d < rank e

def Table.empty : Table κ δ rank := ⟨fun _ => [], fun _ => .nil⟩

structure Cursor (κ δ : Type) {ρ : Type} [LinearOrder ρ] (rank : δ → ρ) where
  table : Table κ δ rank
  current : Option (κ × δ) := none

/-! ## Moving -/

namespace Cursor

/-- To the first item of a key. -/
def moveOnKey (c : Cursor κ δ rank) (k : κ) : Cursor κ δ rank × Bool :=
  match c.table.dups k with
  | [] => ({ c with current := none }, false)
  | d :: _ => ({ c with current := some (k, d) }, true)

/-- To the first item of a key whose rank is not less, which is returned. -/
def moveOnKeyDup (c : Cursor κ δ rank) (k : κ) (d : δ) : Cursor κ δ rank × Option δ :=
  let found := (c.table.dups k).find? fun e => rank d ≤ rank e
  ({ c with current := found.map (k, ·) }, found)

variable {c : Cursor κ δ rank} {k : κ} {d e : δ}

theorem moveOnKey_table (k : κ) : (c.moveOnKey k).1.table = c.table := by
  unfold moveOnKey
  split <;> rfl

/-- A key that has items becomes the current one. -/
theorem moveOnKey_spec (k : κ) : c.table.dups k = [] ∧ (c.moveOnKey k).2 = false ∨
      (c.moveOnKey k).2 = true ∧ ∃ d, (c.moveOnKey k).1.current = some (k, d) := by
  unfold moveOnKey
  split
  · next empty => exact .inl ⟨empty, rfl⟩
  · next d _ _ => exact .inr ⟨rfl, d, rfl⟩

theorem moveOnKeyDup_current (k : κ) (d : δ) :
    (c.moveOnKeyDup k d).1.current = (c.moveOnKeyDup k d).2.map (k, ·) := rfl

theorem mem_of_moveOnKeyDup (h : (c.moveOnKeyDup k d).2 = some e) : e ∈ c.table.dups k :=
  mem_of_find?_eq_some h

/-- An item of the rank that is looked for is found. -/
theorem moveOnKeyDup_eq_some (member : e ∈ c.table.dups k) (same : rank e = rank d) :
    (c.moveOnKeyDup k d).2 = some e := by
  have sorted := c.table.sorted k
  change (c.table.dups k).find? _ = _
  generalize c.table.dups k = items at member sorted
  induction items with
  | nil => cases member
  | cons e' items ih =>
    obtain ⟨less, rest⟩ := pairwise_cons.mp sorted
    obtain rfl | tail := mem_cons.mp member
    · simp [same]
    · -- The items before it have a smaller rank.
      have before : ¬ rank d ≤ rank e' := not_le.mpr (same ▸ less e tail)
      simpa [before] using ih tail rest

end Cursor

/-! ## Writing -/

variable [DecidableEq κ]

/-- The items under one key are replaced. -/
def Table.set (t : Table κ δ rank) (k : κ) (items : List δ)
    (sorted : items.Pairwise fun d e => rank d < rank e) : Table κ δ rank where
  dups := Function.update t.dups k items
  sorted k' := by
    by_cases same : k' = k
    · rwa [same, Function.update_self]
    · rw [Function.update_of_ne same]
      exact t.sorted k'

theorem Table.mem_set {t : Table κ δ rank} {k k' : κ} {e : δ} {items : List δ}
    (sorted : items.Pairwise fun d e => rank d < rank e) :
    e ∈ (t.set k items sorted).dups k' ↔ k' = k ∧ e ∈ items ∨ k' ≠ k ∧ e ∈ t.dups k' := by
  by_cases same : k' = k
  · subst same
    simp [set]
  · simp [set, same]

namespace Cursor

variable (c : Cursor κ δ rank)

/-- Delete the current item. -/
def delCurrent : Cursor κ δ rank × Bool :=
  match c.current with
  | none => (c, false)
  | some (k, d) =>
    ({ table := c.table.set k ((c.table.dups k).filter fun e => rank e ≠ rank d)
        ((c.table.sorted k).filter _) }, true)

/-- Delete all items of the current key, with the flag `NO_DUP_DATA`. -/
def delCurrentNoDupData : Cursor κ δ rank × Bool :=
  match c.current with
  | none => (c, false)
  | some (k, _) => ({ table := c.table.set k [] .nil }, true)

/-- Overwrite the current item, by one of the same key and rank. -/
def putCurrent (k : κ) (d : δ) : Cursor κ δ rank × Bool :=
  match c.current with
  | none => (c, false)
  | some (k', d') =>
    if k = k' ∧ rank d = rank d' then
      ({ table := c.table.set k ((c.table.dups k).map fun e => if rank e = rank d then d else e) (by
            refine (c.table.sorted k).map _ ?_
            intro e e' less
            split_ifs with first second second <;> simp_all)
         current := some (k, d) }, true)
    else (c, false)

/-- Insert an item with the flag `NO_DUP_DATA`, which fails if there is one of its rank. -/
def putNoDupData (k : κ) (d : δ) : Option (Cursor κ δ rank) :=
  if ∀ e ∈ c.table.dups k, rank e ≠ rank d then
    some
      { table := c.table.set k
          ((c.table.dups k).filter (fun e => rank e < rank d) ++
            d :: (c.table.dups k).filter fun e => rank d < rank e)
          (by
            refine pairwise_append.mpr ⟨(c.table.sorted k).filter _, ?_, ?_⟩
            · refine pairwise_cons.mpr ⟨?_, (c.table.sorted k).filter _⟩
              intro e member
              simpa using (mem_filter.mp member).2
            · intro e member e' member'
              have less : rank e < rank d := by simpa using (mem_filter.mp member).2
              obtain rfl | member' := mem_cons.mp member'
              · exact less
              · exact less.trans (by simpa using (mem_filter.mp member').2))
        current := some (k, d) }
  else none

variable {c} {k k' : κ} {d e : δ}

section

variable (at_ : c.current = some (k, d))
include at_

theorem delCurrent_success : c.delCurrent.2 = true := by
  unfold delCurrent
  rw [at_]

theorem mem_delCurrent :
    e ∈ c.delCurrent.1.table.dups k' ↔ e ∈ c.table.dups k' ∧ ¬ (k' = k ∧ rank e = rank d) := by
  unfold delCurrent
  rw [at_]
  dsimp only
  rw [Table.mem_set]
  by_cases same : k' = k
  · subst same
    simp
  · simp [same]

theorem mem_delCurrentNoDupData :
    e ∈ c.delCurrentNoDupData.1.table.dups k' ↔ e ∈ c.table.dups k' ∧ k' ≠ k := by
  unfold delCurrentNoDupData
  rw [at_]
  dsimp only
  rw [Table.mem_set]
  simp [and_comm]

end

theorem putCurrent_success {d' : δ} (at_ : c.current = some (k, d')) (same : rank d = rank d') :
    (c.putCurrent k d).2 = true := by
  unfold putCurrent
  rw [at_]
  dsimp only
  rw [if_pos ⟨rfl, same⟩]

theorem mem_putCurrent {d' : δ} (at_ : c.current = some (k, d')) (member : d' ∈ c.table.dups k)
    (same : rank d = rank d') :
    e ∈ (c.putCurrent k d).1.table.dups k' ↔
      k' = k ∧ e = d ∨ e ∈ c.table.dups k' ∧ ¬ (k' = k ∧ rank e = rank d) := by
  unfold putCurrent
  rw [at_]
  dsimp only
  rw [if_pos ⟨rfl, same⟩, Table.mem_set]
  by_cases here : k' = k
  · subst here
    simp only [true_and, ne_eq, not_true, false_and, or_false, mem_map]
    constructor
    · rintro ⟨e', found, rfl⟩
      split_ifs with equal
      · exact .inl rfl
      · exact .inr ⟨found, equal⟩
    · rintro (rfl | ⟨found, other⟩)
      · exact ⟨d', member, if_pos same.symm⟩
      · exact ⟨e, found, if_neg other⟩
  · simp [here]

theorem putNoDupData_spec (absent : ∀ e ∈ c.table.dups k, rank e ≠ rank d) :
    ∃ c', c.putNoDupData k d = some c' ∧
      ∀ e k', e ∈ c'.table.dups k' ↔ k' = k ∧ e = d ∨ e ∈ c.table.dups k' := by
  unfold putNoDupData
  rw [if_pos absent]
  refine ⟨_, rfl, ?_⟩
  intro e k'
  rw [Table.mem_set]
  by_cases here : k' = k
  · subst here
    simp only [true_and, ne_eq, not_true, false_and, or_false, mem_append, mem_cons,
      mem_filter, decide_eq_true_eq]
    constructor
    · rintro (⟨found, -⟩ | rfl | ⟨found, -⟩)
      · exact .inr found
      · exact .inl rfl
      · exact .inr found
    · rintro (rfl | found)
      · exact .inr (.inl rfl)
      · obtain less | more := lt_or_gt_of_ne (absent e found)
        · exact .inl ⟨found, less⟩
        · exact .inr (.inr ⟨found, more⟩)
  · simp [here]

end Cursor

end DupSort
