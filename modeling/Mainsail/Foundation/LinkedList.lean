import Mathlib.Data.List.Nodup

/-!
# Linked lists in mappings

A linked list is a pointer to its first node and a mapping from each node to the next, with one
value of the type of nodes that stands for no node. `Visits` says which list following the
pointers gives. The lemmas about a changed mapping ask only how it behaves on the nodes.
-/

namespace LinkedList

open List

variable {α : Type*} {next next' prev prev' : α → α} {nil a b c p t head tail : α}
variable {l x y : List α}

/-- Following `next` from a node visits the members of the list in order, and then `nil`. -/
def Visits (next : α → α) (nil : α) : α → List α → Prop
  | a, [] => a = nil
  | a, b :: l => a = b ∧ b ≠ nil ∧ Visits next nil (next b) l

namespace Visits

/-- The nodes before some place are visited as before. -/
theorem before {z : List α} (h : Visits next nil a (x ++ y)) (same : ∀ b ∈ x, next' b = next b)
    (after : ∀ b, Visits next nil b y → Visits next' nil b z) : Visits next' nil a (x ++ z) := by
  induction x generalizing a with
  | nil => exact after a h
  | cons b x ih =>
    obtain ⟨first, node, rest⟩ := h
    refine ⟨first, node, ?_⟩
    rw [same b (mem_cons_self ..)]
    exact ih rest fun b' member => same b' (mem_cons_of_mem _ member)

theorem congr (h : Visits next nil a l) (same : ∀ b ∈ l, next' b = next b) :
    Visits next' nil a l := by
  rw [← append_nil l] at h ⊢
  exact h.before same fun _ => id

theorem ne_nil (h : Visits next nil a l) (member : b ∈ l) : b ≠ nil := by
  induction l generalizing a with
  | nil => cases member
  | cons b' l ih =>
    obtain ⟨-, node, rest⟩ := h
    cases member with
    | head => exact node
    | tail _ member => exact ih rest member

/-- The pointers determine the list. -/
theorem unique (h : Visits next nil a x) (h' : Visits next nil a y) : x = y := by
  induction x generalizing a y with
  | nil =>
    cases y with
    | nil => rfl
    | cons c y => exact absurd (h'.1.symm.trans h) h'.2.1
  | cons b x ih =>
    cases y with
    | nil => exact absurd (h.1.symm.trans h') h.2.1
    | cons c y =>
      obtain ⟨rfl, -, rest⟩ := h
      obtain ⟨rfl, -, rest'⟩ := h'
      rw [ih rest rest']

theorem suffix (h : Visits next nil a (x ++ b :: y)) : Visits next nil b (b :: y) := by
  induction x generalizing a with
  | nil => exact ⟨rfl, h.2⟩
  | cons c x ih => exact ih h.2.2

section

variable (h : Visits next nil a l)
include h

/-- A node that is visited twice would be visited for ever. -/
theorem nodup : l.Nodup := by
  induction l generalizing a with
  | nil => exact nodup_nil
  | cons b l ih =>
    refine nodup_cons.mpr ⟨?_, ih h.2.2⟩
    intro again
    obtain ⟨x, y, rfl⟩ := append_of_mem again
    have shorter : b :: (x ++ b :: y) = b :: y := unique ⟨rfl, h.2⟩ (suffix h.2.2)
    have := congrArg length shorter
    simp only [length_cons, length_append] at this
    omega

/-- A node that points to itself is visited for ever. -/
theorem ne_self (node : a ≠ nil) : next a ≠ a := by
  intro loop
  cases l with
  | nil => exact node h
  | cons b l =>
    have rest := h.2.2
    rw [← h.1, loop] at rest
    have shorter : b :: l = l := unique h rest
    exact absurd (congrArg length shorter) (by simp)

theorem nil_iff : a = nil ↔ l = [] := by
  cases l with
  | nil => exact ⟨fun _ => rfl, fun _ => h⟩
  | cons b l =>
    obtain ⟨rfl, node, -⟩ := h
    simp [node]

end

/-- Put a node after the last one. -/
theorem snoc (h : Visits next nil a (x ++ [t])) (node : c ≠ nil) (same : ∀ b ∈ x, next' b = next b)
    (last : next' t = c) (new : next' c = nil) : Visits next' nil a (x ++ [t, c]) :=
  h.before same fun _ h => ⟨h.1, h.2.1, last, node, new⟩

/-- Put a node after `p`. -/
theorem insert (h : Visits next nil a (x ++ p :: y)) (node : c ≠ nil)
    (same : ∀ b ∈ x ++ y, next' b = next b) (after : next' p = c) (new : next' c = next p) :
    Visits next' nil a (x ++ p :: c :: y) := by
  refine h.before (fun b member => same b (mem_append_left _ member)) fun _ h => ?_
  obtain ⟨first, node', rest⟩ := h
  refine ⟨first, node', after, node, ?_⟩
  rw [new]
  exact rest.congr fun b member => same b (mem_append_right _ member)

/-- Unlink the node after `p`. -/
theorem unlink (h : Visits next nil a (x ++ p :: c :: y)) (same : ∀ b ∈ x ++ y, next' b = next b)
    (skip : next' p = next c) : Visits next' nil a (x ++ p :: y) := by
  refine h.before (fun b member => same b (mem_append_left _ member)) fun _ h => ?_
  obtain ⟨first, node, -, -, rest⟩ := h
  refine ⟨first, node, ?_⟩
  rw [skip]
  exact rest.congr fun b member => same b (mem_append_right _ member)

theorem next_eq (h : Visits next nil a (x ++ b :: c :: y)) : next b = c :=
  h.suffix.2.2.1

theorem next_last (h : Visits next nil a (x ++ [t])) : next t = nil :=
  h.suffix.2.2

end Visits

/-! ## Doubly linked lists -/

/-- Both ways visit the same nodes, in opposite order. -/
structure Doubly (next prev : α → α) (nil head tail : α) (l : List α) : Prop where
  forward : Visits next nil head l
  backward : Visits prev nil tail l.reverse

namespace Doubly

theorem symm (h : Doubly next prev nil head tail l) : Doubly prev next nil tail head l.reverse :=
  ⟨h.backward, by simpa using h.forward⟩

theorem empty : Doubly next prev nil nil nil [] := ⟨rfl, rfl⟩

theorem single (node : c ≠ nil) (last : next c = nil) (first : prev c = nil) :
    Doubly next prev nil c c [c] :=
  ⟨⟨rfl, node, last⟩, ⟨rfl, node, first⟩⟩

theorem head_eq_nil (h : Doubly next prev nil head tail l) : head = nil ↔ l = [] :=
  h.forward.nil_iff

theorem tail_eq_nil (h : Doubly next prev nil head tail l) : tail = nil ↔ l = [] := by
  simpa using h.backward.nil_iff

theorem tail_eq (h : Doubly next prev nil head tail (x ++ [t])) : tail = t := by
  have := h.backward
  rw [reverse_append] at this
  exact this.1

/-- A list that is not empty ends with `tail`. -/
theorem exists_snoc (h : Doubly next prev nil head tail l) (nonempty : l ≠ []) :
    ∃ x, l = x ++ [tail] := by
  obtain ⟨x, t, rfl⟩ := l.eq_nil_or_concat.resolve_left nonempty
  rw [concat_eq_append] at h ⊢
  exact ⟨x, by rw [h.tail_eq]⟩

section

variable (h : Doubly next prev nil head tail (x ++ y))
include h

theorem head_mem (nonempty : x ≠ []) : head ∈ x := by
  cases x with
  | nil => contradiction
  | cons b x =>
    rw [h.forward.1]
    exact mem_cons_self ..

theorem tail_mem (nonempty : y ≠ []) : tail ∈ y := by
  have back : Doubly prev next nil tail head (y.reverse ++ x.reverse) := by simpa using h.symm
  exact mem_reverse.mp (back.head_mem (by simpa using nonempty))

end

theorem prev_eq (h : Doubly next prev nil head tail (x ++ b :: c :: y)) : prev c = b := by
  have back := h.backward
  simp only [reverse_append, reverse_cons, append_assoc, singleton_append] at back
  exact back.next_eq

/-- A node and the one after it point to each other. -/
theorem next_eq_iff_prev_eq (h : Doubly next prev nil head tail l) (ha : a ∈ l) (hb : b ∈ l) :
    next a = b ↔ prev b = a := by
  have one : ∀ {next prev : α → α} {head tail a b : α} {l : List α},
      Doubly next prev nil head tail l → a ∈ l → b ≠ nil → next a = b → prev b = a := by
    intro next prev head tail a b l h ha node after
    obtain ⟨x, y, rfl⟩ := append_of_mem ha
    cases y with
    | nil => exact absurd (after.symm.trans h.forward.next_last) node
    | cons c y =>
      obtain rfl : c = b := h.forward.next_eq.symm.trans after
      exact h.prev_eq
  constructor
  · exact one h ha (h.forward.ne_nil hb)
  · exact one h.symm (mem_reverse.mpr hb) (h.forward.ne_nil ha)

/-- Put a node at the end of a list that is not empty. -/
theorem push (h : Doubly next prev nil head tail l) (nonempty : head ≠ nil) (node : c ≠ nil)
    (sameNext : ∀ b ∈ l, b ≠ tail → next' b = next b) (last : next' tail = c)
    (new : next' c = nil) (samePrev : ∀ b ∈ l, prev' b = prev b) (back : prev' c = tail) :
    Doubly next' prev' nil head c (l ++ [c]) := by
  obtain ⟨x, rfl⟩ := h.exists_snoc (mt h.head_eq_nil.mpr nonempty)
  have others : ∀ b ∈ x, b ≠ tail := by
    rintro b member rfl
    exact (nodup_append.mp h.forward.nodup).2.2 b member b (mem_singleton_self b) rfl
  constructor
  · rw [append_assoc]
    exact h.forward.snoc node
      (fun b member => sameNext b (mem_append_left _ member) (others b member)) last new
  · rw [reverse_append]
    refine ⟨rfl, node, ?_⟩
    rw [back]
    exact h.backward.congr fun b member => samePrev b (mem_reverse.mp member)

/-- Unlink a node between two others. -/
theorem unlink (h : Doubly next prev nil head tail (x ++ p :: c :: t :: y))
    (sameNext : ∀ b ∈ x ++ t :: y, next' b = next b) (skipNext : next' p = next c)
    (samePrev : ∀ b ∈ x ++ p :: y, prev' b = prev b) (skipPrev : prev' t = prev c) :
    Doubly next' prev' nil head tail (x ++ p :: t :: y) := by
  refine ⟨h.forward.unlink sameNext skipNext, ?_⟩
  have back := h.backward
  simp only [reverse_append, reverse_cons, append_assoc, cons_append, nil_append] at back ⊢
  refine back.unlink ?_ skipPrev
  intro b member
  refine samePrev b ?_
  simp only [mem_append, mem_reverse, mem_cons] at member ⊢
  tauto

/-- Unlink the last node of two or more. -/
theorem unlink_last (h : Doubly next prev nil head tail (x ++ [p, c]))
    (sameNext : ∀ b ∈ x, next' b = next b) (skipNext : next' p = nil)
    (samePrev : ∀ b ∈ x ++ [p], prev' b = prev b) : Doubly next' prev' nil head p (x ++ [p]) := by
  have last : next c = nil := by
    have forward : Visits next nil head ((x ++ [p]) ++ [c]) := by simpa using h.forward
    exact forward.next_last
  constructor
  · exact h.forward.unlink (by simpa using sameNext) (skipNext.trans last.symm)
  · have back := h.backward
    simp only [reverse_append, reverse_cons, reverse_nil, nil_append, cons_append] at back ⊢
    obtain ⟨-, -, rest⟩ := back
    obtain rfl : prev c = p := rest.1
    exact rest.congr fun b member => samePrev b (by simpa [or_comm] using member)

/-- Unlink the first node of two or more. -/
theorem unlink_first (h : Doubly next prev nil head tail (c :: t :: y))
    (sameNext : ∀ b ∈ t :: y, next' b = next b) (skipPrev : prev' t = nil)
    (samePrev : ∀ b ∈ y, prev' b = prev b) : Doubly next' prev' nil t tail (t :: y) := by
  have back := h.symm
  simp only [reverse_cons, append_assoc, singleton_append] at back
  have removed : Doubly prev' next' nil tail t (y.reverse ++ [t]) := back.unlink_last
    (fun b member => samePrev b (mem_reverse.mp member)) skipPrev
    (fun b member => sameNext b (by simpa [or_comm] using member))
  simpa using removed.symm

end Doubly

end LinkedList
