import Mathlib.Data.List.Lex
import Mainsail.Foundation.DupSort
import Mainsail.Evm.Data

/-!
# The storage table

The part of `commit_to_db` in `db.rs` that writes storage slots, and `storage_ref`. The slots of an
account are duplicates under its address: an item is a slot and its value, and the comparator looks
at the slot alone. A slot that is zero is not kept.

The table represents a function from addresses and slots to values, and a commit changes the
function as the change set says.
-/

namespace Mainsail.Evm

open DupSort.Cursor Endian List

/-! ## Entries -/

/-- The 64 bytes of a slot and its value. -/
def entryBytes (slot value : Word) : Bytes := little 32 slot ++ little 32 value

def decodeEntry (bytes : Bytes) : Except DbError (Word × Word) :=
  if bytes.length ≠ 64 then .error .storageEntry
  else .ok (Fin.ofNat _ (ofLittle (bytes.take 32)), Fin.ofNat _ (ofLittle (bytes.drop 32)))

/-- The bytes that the comparator looks at. An entry that has fewer is compared as a whole. -/
def slotRank (bytes : Bytes) : List Nat := (bytes.take 32).map UInt8.toNat

abbrev StorageTable := DupSort.Table Address Bytes slotRank

abbrev StorageCursor := DupSort.Cursor Address Bytes slotRank

/-! ## Commits -/

/-- A slot that the cursor did not find. -/
def insertSlot (address : Address) (c : StorageCursor) (slot present : Word) :
    Except DbError StorageCursor :=
  if present ≠ 0 then
    match c.putNoDupData address (entryBytes slot present) with
    | some c => .ok c
    | none => .error .keyExist
  else .ok c

def commitSlot (address : Address) (c : StorageCursor) (slot present : Word) :
    Except DbError StorageCursor :=
  let (c, found) := c.moveOnKeyDup address (entryBytes slot present)
  match found with
  | none => insertSlot address c slot present
  | some entry => do
      let (slot', value) ← decodeEntry entry
      if slot' = slot then
        if present = 0 then
          let (c, success) := c.delCurrent
          if success then return c else .error .assertion
        else if present ≠ value then
          let (c, success) := c.putCurrent address (entryBytes slot present)
          if success then return c else .error .assertion
        else return c
      else insertSlot address c slot present

def commitSlots (address : Address) (c : StorageCursor) (storage : List (Word × StorageSlot)) :
    Except DbError StorageCursor :=
  storage.foldlM (fun c entry => commitSlot address c entry.1 entry.2.presentValue) c

def commitStorageChange (t : StorageTable) (change : StorageChangeset) :
    Except DbError StorageTable := do
  let (c, found) := { table := t : StorageCursor }.moveOnKey change.address
  let c := if found && change.wipeStorage then c.delCurrentNoDupData.1 else c
  let c ← commitSlots change.address c change.storage
  return c.table

def commitStorage (t : StorageTable) (storage : List StorageChangeset) :
    Except DbError StorageTable :=
  storage.foldlM commitStorageChange t

def storageRef (t : StorageTable) (address : Address) (index : Word) : Except DbError Word :=
  match ({ table := t : StorageCursor }.moveOnKeyDup address (entryBytes index 0)).2 with
  | none => .ok 0
  | some entry => do
      let (slot, value) ← decodeEntry entry
      return if slot = index then value else 0

/-! ## What the bytes say -/

theorem length_entryBytes (slot value : Word) : (entryBytes slot value).length = 64 := by
  simp [entryBytes, length_little]

theorem decodeEntry_entryBytes (slot value : Word) :
    decodeEntry (entryBytes slot value) = .ok (slot, value) := by
  have take : (entryBytes slot value).take 32 = little 32 slot :=
    take_left' (length_little ..)
  have drop : (entryBytes slot value).drop 32 = little 32 value :=
    drop_left' (length_little ..)
  unfold decodeEntry
  rw [if_neg (not_not.mpr (length_entryBytes slot value)), take, drop,
    ofLittle_little slot.isLt, ofLittle_little value.isLt]
  simp

theorem slotRank_entryBytes {slot slot' value value' : Word} :
    slotRank (entryBytes slot value) = slotRank (entryBytes slot' value') ↔ slot = slot' := by
  have rank : ∀ slot value : Word, slotRank (entryBytes slot value) =
      (little 32 slot).map UInt8.toNat := fun slot value =>
    congrArg _ (take_left' (length_little ..))
  rw [rank, rank]
  constructor
  · intro same
    have same := (map_injective_iff.mpr fun _ _ => UInt8.toNat_inj.mp) same
    have := congrArg ofLittle same
    rw [ofLittle_little slot.isLt, ofLittle_little slot'.isLt] at this
    exact Fin.ext this
  · rintro rfl
    rfl

/-! ## The table as a function -/

/-- The values of all slots of all accounts. -/
abbrev Slots := Address → Word → Word

def Slots.set (f : Slots) (address : Address) (slot value : Word) : Slots :=
  Function.update f address (Function.update (f address) slot value)

def Slots.wipe (f : Slots) (address : Address) : Slots := Function.update f address fun _ => 0

theorem Slots.set_apply (f : Slots) (address a : Address) (slot s value : Word) :
    f.set address slot value a s = if a = address ∧ s = slot then value else f a s := by
  unfold set
  by_cases here : a = address
  · subst here
    by_cases same : s = slot <;> simp [same]
  · simp [here]

/-- The entries of the table are those of the slots that are not zero. -/
def Represents (t : StorageTable) (f : Slots) : Prop :=
  ∀ a entry, entry ∈ t.dups a ↔ ∃ slot, f a slot ≠ 0 ∧ entry = entryBytes slot (f a slot)

theorem Represents.empty : Represents .empty fun _ _ => 0 := by
  intro a entry
  simp [DupSort.Table.empty]

section

variable {c : StorageCursor} {f : Slots} {address : Address} {slot present : Word}

/-- The cursor finds the entry of a slot, or one of another slot. -/
theorem Represents.moveOnKeyDup (rep : Represents c.table f) (address : Address)
    (slot value : Word) :
    f address slot ≠ 0 ∧ (c.moveOnKeyDup address (entryBytes slot value)).2 =
        some (entryBytes slot (f address slot)) ∨
      f address slot = 0 ∧ ∀ entry, (c.moveOnKeyDup address (entryBytes slot value)).2 = some entry →
        ∃ slot' value', slot' ≠ slot ∧ entry = entryBytes slot' value' := by
  by_cases zero : f address slot = 0
  · refine .inr ⟨zero, ?_⟩
    intro entry found
    obtain ⟨slot', nonzero, rfl⟩ := (rep _ _).mp (mem_of_moveOnKeyDup found)
    refine ⟨slot', _, ?_, rfl⟩
    rintro rfl
    exact nonzero zero
  · exact .inl ⟨zero, moveOnKeyDup_eq_some ((rep _ _).mpr ⟨slot, zero, rfl⟩)
      (slotRank_entryBytes.mpr rfl)⟩

/-- A read gives the value of the slot. -/
theorem Represents.storageRef {t : StorageTable} (rep : Represents t f) (address : Address)
    (index : Word) : storageRef t address index = .ok (f address index) := by
  unfold Evm.storageRef
  obtain ⟨-, found⟩ | ⟨zero, other⟩ :=
    Represents.moveOnKeyDup (c := { table := t }) rep address index 0
  · rw [found]
    simp [decodeEntry_entryBytes, bind, Except.bind, pure, Except.pure]
  · split
    · rw [zero]
    · next entry found =>
        obtain ⟨slot', value', ne, rfl⟩ := other entry found
        simp [decodeEntry_entryBytes, bind, Except.bind, pure, Except.pure, ne, zero]

variable (rep : Represents c.table f)
include rep

/-- What an entry that is not the one of the slot says. -/
theorem Represents.entries_set (value : Word) (a : Address) (entry : Bytes) :
    (∃ s, f.set address slot value a s ≠ 0 ∧ entry = entryBytes s (f.set address slot value a s)) ↔
      (value ≠ 0 ∧ a = address ∧ entry = entryBytes slot value) ∨
        entry ∈ c.table.dups a ∧
          ¬ (a = address ∧ slotRank entry = slotRank (entryBytes slot value)) := by
  simp only [Slots.set_apply]
  rw [rep]
  constructor
  · rintro ⟨s, nonzero, rfl⟩
    split_ifs at nonzero ⊢ with here
    · exact .inl ⟨nonzero, here.1, by rw [here.2]⟩
    · refine .inr ⟨⟨s, nonzero, rfl⟩, ?_⟩
      rintro ⟨same, rank⟩
      exact here ⟨same, slotRank_entryBytes.mp rank⟩
  · rintro (⟨nonzero, rfl, rfl⟩ | ⟨⟨s, nonzero, rfl⟩, other⟩)
    · exact ⟨slot, by simpa using nonzero, by simp⟩
    · have here : ¬ (a = address ∧ s = slot) := fun here =>
        other ⟨here.1, slotRank_entryBytes.mpr here.2⟩
      exact ⟨s, by rwa [if_neg here], by rw [if_neg here]⟩

theorem Represents.insertSlot (zero : f address slot = 0) (present : Word) :
    ∃ c', insertSlot address c slot present = .ok c' ∧
      Represents c'.table (f.set address slot present) := by
  have absent : ∀ entry ∈ c.table.dups address,
      slotRank entry ≠ slotRank (entryBytes slot present) := by
    intro entry member rank
    obtain ⟨s, nonzero, rfl⟩ := (rep _ _).mp member
    obtain rfl := slotRank_entryBytes.mp rank
    exact nonzero zero
  unfold Evm.insertSlot
  split_ifs with nonzero
  · obtain ⟨c', put, members⟩ := putNoDupData_spec absent
    refine ⟨c', by rw [put], ?_⟩
    intro a entry
    rw [members, rep.entries_set]
    constructor
    · rintro (⟨rfl, rfl⟩ | member)
      · exact .inl ⟨nonzero, rfl, rfl⟩
      · exact .inr ⟨member, fun ⟨here, rank⟩ => absent entry (here ▸ member) rank⟩
    · rintro (⟨-, rfl, rfl⟩ | ⟨member, -⟩)
      · exact .inl ⟨rfl, rfl⟩
      · exact .inr member
  · obtain rfl : present = 0 := not_not.mp nonzero
    refine ⟨c, rfl, ?_⟩
    intro a entry
    rw [rep.entries_set]
    constructor
    · intro member
      exact .inr ⟨member, fun ⟨here, rank⟩ => absent entry (here ▸ member) rank⟩
    · rintro (⟨wrong, -⟩ | ⟨member, -⟩)
      · exact absurd rfl wrong
      · exact member

/-- A slot is set, and no error or failed assertion comes up. -/
theorem Represents.commitSlot (address : Address) (slot present : Word) :
    ∃ c', commitSlot address c slot present = .ok c' ∧
      Represents c'.table (f.set address slot present) := by
  have moved : Represents (c.moveOnKeyDup address (entryBytes slot present)).1.table f := rep
  unfold Evm.commitSlot
  obtain ⟨nonzero, found⟩ | ⟨zero, other⟩ := rep.moveOnKeyDup address slot present
  · have current : (c.moveOnKeyDup address (entryBytes slot present)).1.current =
        some (address, entryBytes slot (f address slot)) := by
      rw [moveOnKeyDup_current, found, Option.map_some]
    generalize c.moveOnKeyDup address (entryBytes slot present) = moving at moved found current
    obtain ⟨c₁, found₁⟩ := moving
    obtain rfl : found₁ = some (entryBytes slot (f address slot)) := found
    simp only [decodeEntry_entryBytes, bind, Except.bind, if_true]
    have rank : slotRank (entryBytes slot present) =
        slotRank (entryBytes slot (f address slot)) := slotRank_entryBytes.mpr rfl
    split_ifs with absent success change success
    · obtain rfl := absent
      refine ⟨_, rfl, ?_⟩
      intro a entry
      rw [mem_delCurrent current, moved.entries_set, rank]
      simp
    · exact absurd (delCurrent_success current) success
    · refine ⟨_, rfl, ?_⟩
      intro a entry
      rw [mem_putCurrent current ((moved _ _).mpr ⟨slot, nonzero, rfl⟩) rank, moved.entries_set]
      simp [absent]
    · exact absurd (putCurrent_success current rank) success
    · refine ⟨c₁, rfl, ?_⟩
      have same : f.set address slot present = f := by
        funext a s
        rw [Slots.set_apply]
        split_ifs with here
        · rw [here.1, here.2]
          exact not_not.mp change
        · rfl
      rwa [same]
  · generalize c.moveOnKeyDup address (entryBytes slot present) = moving at moved other
    obtain ⟨c₁, found₁⟩ := moving
    cases found₁ with
    | none => exact moved.insertSlot zero present
    | some entry =>
      obtain ⟨slot', value', ne, rfl⟩ := other entry rfl
      simpa [decodeEntry_entryBytes, bind, Except.bind, ne] using moved.insertSlot zero present

theorem Represents.commitSlots (address : Address) (storage : List (Word × StorageSlot)) :
    ∃ c', commitSlots address c storage = .ok c' ∧ Represents c'.table
        (storage.foldl (fun f e => f.set address e.1 e.2.presentValue) f) := by
  induction storage generalizing c f with
  | nil => exact ⟨c, rfl, rep⟩
  | cons e storage ih =>
    obtain ⟨c₁, first, rep⟩ := rep.commitSlot address e.1 e.2.presentValue
    obtain ⟨c', rest, rep⟩ := ih rep
    refine ⟨c', ?_, rep⟩
    unfold Evm.commitSlots at rest ⊢
    rw [foldlM_cons, first]
    exact rest

end

/-- The function after a change of the storage of one account. -/
def Slots.change (f : Slots) (change : StorageChangeset) : Slots :=
  change.storage.foldl (fun f e => f.set change.address e.1 e.2.presentValue)
    (if change.wipeStorage then f.wipe change.address else f)

def Slots.changes (f : Slots) (storage : List StorageChangeset) : Slots :=
  storage.foldl Slots.change f

section

variable {t : StorageTable} {f : Slots}

variable (rep : Represents t f)
include rep

theorem Represents.wipe (address : Address) (wipe : Bool) :
    Represents (if ({ table := t : StorageCursor }.moveOnKey address).2 && wipe then
        ({ table := t : StorageCursor }.moveOnKey address).1.delCurrentNoDupData.1
      else ({ table := t : StorageCursor }.moveOnKey address).1).table
      (if wipe then f.wipe address else f) := by
  have table := moveOnKey_table (c := { table := t : StorageCursor }) address
  cases wipe with
  | false =>
    simp only [Bool.and_false, Bool.false_eq_true, if_false]
    rwa [table]
  | true =>
    simp only [Bool.and_true, if_true]
    obtain ⟨none, found⟩ | ⟨found, d, current⟩ :=
      moveOnKey_spec (c := { table := t : StorageCursor }) address
    · -- The account has no storage.
      rw [found]
      simp only [Bool.false_eq_true, if_false]
      rw [table]
      intro a entry
      rw [rep]
      by_cases here : a = address
      · subst here
        have zero : ∀ slot, ¬ f a slot ≠ 0 := by
          intro slot nonzero
          have member := (rep a _).mpr ⟨slot, nonzero, rfl⟩
          rw [show t.dups a = [] from none] at member
          cases member
        simp [Slots.wipe, zero]
      · simp [Slots.wipe, here]
    · rw [found]
      simp only [if_true]
      intro a entry
      rw [mem_delCurrentNoDupData current, table, rep]
      by_cases here : a = address
      · subst here
        simp [Slots.wipe]
      · simp [Slots.wipe, here]

theorem Represents.commitStorageChange (change : StorageChangeset) :
    ∃ t', commitStorageChange t change = .ok t' ∧ Represents t' (f.change change) := by
  obtain ⟨c', done, rep⟩ :=
    (rep.wipe change.address change.wipeStorage).commitSlots change.address change.storage
  refine ⟨c'.table, ?_, rep⟩
  unfold Evm.commitStorageChange
  simp only [done, bind, Except.bind, pure, Except.pure]

/-- A commit changes the storage as the change set says, and its storage part does not fail. -/
theorem Represents.commitStorage (storage : List StorageChangeset) :
    ∃ t', commitStorage t storage = .ok t' ∧ Represents t' (f.changes storage) := by
  induction storage generalizing t f with
  | nil => exact ⟨t, rfl, rep⟩
  | cons change storage ih =>
    obtain ⟨t₁, first, rep⟩ := rep.commitStorageChange change
    obtain ⟨t', rest, rep⟩ := ih rep
    refine ⟨t', ?_, rep⟩
    unfold Evm.commitStorage at rest ⊢
    rw [foldlM_cons, first]
    exact rest

end

/-! ## What a change set lists -/

/-- No account has two changes, and no change lists a slot twice. -/
def Distinct (storage : List StorageChangeset) : Prop :=
  (storage.map (·.address)).Nodup ∧ ∀ change ∈ storage, (change.storage.map Prod.fst).Nodup

instance decidableDistinct (storage : List StorageChangeset) : Decidable (Distinct storage) :=
  inferInstanceAs (Decidable (_ ∧ _))

namespace Slots

variable {f : Slots} {a address : Address} {s : Word} {l : List (Word × StorageSlot)}
variable {change : StorageChangeset} {storage : List StorageChangeset}

theorem foldl_set_of_unlisted (unlisted : a = address → s ∉ l.map Prod.fst) :
    l.foldl (fun f e => f.set address e.1 e.2.presentValue) f a s = f a s := by
  induction l generalizing f with
  | nil => rfl
  | cons e l ih =>
    rw [foldl_cons, ih fun here => not_mem_of_not_mem_cons (unlisted here), set_apply,
      if_neg]
    rintro ⟨here, rfl⟩
    exact unlisted here mem_cons_self

variable {e : Word × StorageSlot}

theorem foldl_set_of_mem (nodup : (l.map Prod.fst).Nodup) (member : e ∈ l) :
    l.foldl (fun f e => f.set address e.1 e.2.presentValue) f address e.1 = e.2.presentValue := by
  induction l generalizing f with
  | nil => cases member
  | cons e' l ih =>
    obtain ⟨fresh, nodup⟩ := nodup_cons.mp nodup
    rw [foldl_cons]
    obtain rfl | member := mem_cons.mp member
    · rw [foldl_set_of_unlisted fun _ => fresh, set_apply, if_pos ⟨rfl, rfl⟩]
    · exact ih nodup member

theorem change_of_mem (nodup : (change.storage.map Prod.fst).Nodup)
    (member : e ∈ change.storage) : f.change change change.address e.1 = e.2.presentValue :=
  foldl_set_of_mem nodup member

theorem change_of_wipe (wipe : change.wipeStorage = true)
    (unlisted : s ∉ change.storage.map Prod.fst) : f.change change change.address s = 0 := by
  unfold Slots.change
  rw [foldl_set_of_unlisted fun _ => unlisted, if_pos wipe]
  simp [Slots.wipe]

theorem change_of_untouched
    (untouched : change.address = a → change.wipeStorage = false ∧ s ∉ change.storage.map Prod.fst) :
    f.change change a s = f a s := by
  unfold Slots.change
  rw [foldl_set_of_unlisted fun here => (untouched here.symm).2]
  split_ifs with wipe
  · have other : a ≠ change.address := by
      intro here
      rw [(untouched here.symm).1] at wipe
      cases wipe
    simp [Slots.wipe, other]
  · rfl

theorem changes_of_untouched (untouched : ∀ change ∈ storage, change.address = a →
      change.wipeStorage = false ∧ s ∉ change.storage.map Prod.fst) :
    f.changes storage a s = f a s := by
  induction storage generalizing f with
  | nil => rfl
  | cons change storage ih =>
    obtain ⟨first, rest⟩ := forall_mem_cons.mp untouched
    exact (ih rest).trans (change_of_untouched first)

/-- The last change of the storage of an account is its own. -/
theorem changes_of_mem (nodup : (storage.map (·.address)).Nodup) (member : change ∈ storage)
    (s : Word) :
    ∃ g : Slots, f.changes storage change.address s = g.change change change.address s := by
  induction storage generalizing f with
  | nil => cases member
  | cons change' storage ih =>
    obtain ⟨fresh, nodup⟩ := nodup_cons.mp nodup
    obtain rfl | member := mem_cons.mp member
    · refine ⟨f, changes_of_untouched (f := f.change change) ?_⟩
      intro change' member same
      exact absurd (mem_map.mpr ⟨change', member, same⟩) fresh
    · exact ih (f := f.change change') nodup member

end Slots

end Mainsail.Evm
