import Mathlib.Data.List.Basic

/-!
# Ordered durable writes

A store takes writes into a queue and makes them durable one after the other, in the
order in which they were issued. A crash keeps an initial part of the queue and loses the
rest. `Always` says that a property holds of every content the store can be left with,
and `After` says the same once the first `k` queued writes are durable. A program that
waits for its `k`-th write before it goes on may rely on `After`.

Both are kept by issuing a further write, if the content that this write leads to has the
property, and by the store making its oldest write durable.
-/

namespace WriteQueue

open List

variable {τ ω : Type*} (apply : τ → ω → τ)

/-- The content once the whole queue is durable. -/
def settle (t : τ) (queue : List ω) : τ := queue.foldl apply t

/-- The property holds after no, some or all of the queued writes. -/
def Always (P : τ → Prop) : τ → List ω → Prop
  | t, [] => P t
  | t, w :: queue => P t ∧ Always P (apply t w) queue

/-- The property holds from the `k`-th queued write on. -/
def After (P : τ → Prop) (k : Nat) (t : τ) (queue : List ω) : Prop :=
  Always apply P (settle apply t (queue.take k)) (queue.drop k)

variable {apply} {P Q : τ → Prop} {t : τ} {w : ω} {queue : List ω} {k : Nat}

@[simp] theorem settle_nil : settle apply t [] = t := rfl

@[simp] theorem settle_cons : settle apply t (w :: queue) = settle apply (apply t w) queue := rfl

@[simp] theorem settle_append {queue' : List ω} :
    settle apply t (queue ++ queue') = settle apply (settle apply t queue) queue' :=
  foldl_append ..

theorem Always.here (h : Always apply P t queue) : P t := by
  cases queue with
  | nil => exact h
  | cons w queue => exact h.1

theorem Always.imp (h : Always apply P t queue) (imp : ∀ t, P t → Q t) :
    Always apply Q t queue := by
  induction queue generalizing t with
  | nil => exact imp t h
  | cons w queue ih => exact ⟨imp t h.1, ih h.2⟩

theorem Always.and (hP : Always apply P t queue) (hQ : Always apply Q t queue) :
    Always apply (fun t => P t ∧ Q t) t queue := by
  induction queue generalizing t with
  | nil => exact ⟨hP, hQ⟩
  | cons w queue ih => exact ⟨⟨hP.1, hQ.1⟩, ih hP.2 hQ.2⟩

/-- Issuing one more write adds the content it leads to. -/
theorem always_append_singleton : Always apply P t (queue ++ [w]) ↔
    Always apply P t queue ∧ P (apply (settle apply t queue) w) := by
  induction queue generalizing t with
  | nil => rfl
  | cons x queue ih =>
    simp only [cons_append, Always, settle_cons, ih, and_assoc]

theorem Always.settle (h : Always apply P t queue) : P (settle apply t queue) := by
  induction queue generalizing t with
  | nil => exact h
  | cons w queue ih => exact ih h.2

/-- A crash leaves an initial part of the queue durable. -/
theorem Always.take (h : Always apply P t queue) (k : Nat) :
    P (WriteQueue.settle apply t (queue.take k)) := by
  induction queue generalizing t k with
  | nil =>
    rw [take_nil]
    exact h
  | cons w queue ih =>
    cases k with
    | zero => exact h.1
    | succ k => exact ih h.2 k

@[simp] theorem after_zero : After apply P 0 t queue ↔ Always apply P t queue := Iff.rfl

theorem After.imp (h : After apply P k t queue) (imp : ∀ t, P t → Q t) : After apply Q k t queue :=
  Always.imp h imp

/-- A write issued now is the one that `After` counts to the end of the queue. -/
theorem after_issued : After apply P (queue.length + 1) t (queue ++ [w]) ↔
    P (apply (settle apply t queue) w) := by
  have all : (queue ++ [w]).take (queue.length + 1) = queue ++ [w] :=
    take_of_length_le (by simp)
  have rest : (queue ++ [w]).drop (queue.length + 1) = [] :=
    drop_of_length_le (by simp)
  simp only [After, all, rest, settle_append, settle_cons, settle_nil]
  rfl

theorem after_append_singleton (le : k ≤ queue.length) : After apply P k t (queue ++ [w]) ↔
      After apply P k t queue ∧ P (apply (settle apply t queue) w) := by
  have split : settle apply (settle apply t (queue.take k)) (queue.drop k) =
      settle apply t queue := by
    rw [← settle_append, take_append_drop]
  rw [After, take_append_of_le_length le, drop_append_of_le_length le,
    always_append_singleton, split]
  rfl

theorem After.settle (h : After apply P k t queue) : P (WriteQueue.settle apply t queue) := by
  have := Always.settle h
  rwa [← settle_append, take_append_drop] at this

/-- The store makes its oldest write durable. -/
theorem After.flush (h : After apply P k t (w :: queue)) :
    After apply P (k - 1) (apply t w) queue := by
  cases k with
  | zero => exact (after_zero.mp h).2
  | succ k => exact h

end WriteQueue
