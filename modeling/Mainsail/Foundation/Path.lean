import Mainsail.Foundation.Transition

/-!
# Infinite runs of a partial step function

What a system does in the end is a statement about infinite runs under an assumption on the
scheduler. The rule used here is for a condition that one event ends: if no other event takes it
away and the scheduler does not leave it standing for ever, then the event comes, and it comes
while the condition holds. Events that stop the system are an outcome of their own.
-/

namespace Transition

universe u v

/-- An infinite run: the states, and the event taken in each of them. -/
structure Path {σ : Type u} {ι : Type v} (step : σ → ι → Option σ) (s₀ : σ) where
  states : Nat → σ
  events : Nat → ι
  start : states 0 = s₀
  taken : ∀ i, step (states i) (events i) = some (states (i + 1))

namespace Path

variable {σ : Type u} {ι : Type v} {step : σ → ι → Option σ} {s₀ s₁ s : σ}

theorem reach (p : Path step s₀) (i : Nat) : Reach step (fun _ _ => True) s₀ (p.states i) := by
  induction i with
  | zero =>
    rw [p.start]
    exact .refl
  | succ i ih => exact .tail ih trivial (p.taken i)

/-- A condition that only `e` and a stop can end leads to one of them. -/
theorem leads (p : Path step s₀) {P : σ → Prop} {e : ι} {S : ι → Prop} {i : Nat}
    (keeps : ∀ j, P (p.states j) → p.events j ≠ e → ¬ S (p.events j) → P (p.states (j + 1)))
    (fair : ∃ j, i ≤ j ∧ (p.events j = e ∨ ¬ P (p.states j))) (holds : P (p.states i)) :
    ∃ j, i ≤ j ∧ (p.events j = e ∧ P (p.states j) ∨ S (p.events j)) := by
  obtain ⟨j, le, ends⟩ := fair
  obtain ⟨k, rfl⟩ := Nat.exists_eq_add_of_le le
  clear le
  -- Over the distance to the end that the scheduler grants.
  induction k generalizing i with
  | zero => exact ⟨i, Nat.le_refl i, .inl ⟨ends.resolve_right (not_not_intro holds), holds⟩⟩
  | succ k ih =>
    by_cases here : p.events i = e
    · exact ⟨i, Nat.le_refl i, .inl ⟨here, holds⟩⟩
    by_cases stops : S (p.events i)
    · exact ⟨i, Nat.le_refl i, .inr stops⟩
    have next := keeps i holds here stops
    rw [show i + (k + 1) = i + 1 + k by omega] at ends
    obtain ⟨j, le, found⟩ := ih next ends
    exact ⟨j, by omega, found⟩

/-- A step before an infinite run. -/
def cons {e : ι} (taken : step s₀ e = some s₁) (p : Path step s₁) : Path step s₀ where
  states
    | 0 => s₀
    | i + 1 => p.states i
  events
    | 0 => e
    | i + 1 => p.events i
  start := rfl
  taken
    | 0 => by simpa only [p.start] using taken
    | i + 1 => p.taken i

/-- An event that changes nothing, for ever. -/
def loop {e : ι} (taken : step s e = some s) : Path step s where
  states _ := s
  events _ := e
  start := rfl
  taken _ := taken

/-- A finite run goes on with an event that changes nothing. -/
theorem exists_of_run {es : List ι} {e : ι} (ran : run step s₀ es = some s)
    (stays : step s e = some s) :
    ∃ p : Path step s₀, (∀ i x, es[i]? = some x → p.events i = x) ∧
      (∀ i, i ≤ es.length → run step s₀ (es.take i) = some (p.states i)) ∧
      ∀ i, es.length ≤ i → p.states i = s := by
  induction es generalizing s₀ with
  | nil =>
    obtain rfl : s₀ = s := Option.some.inj ran
    refine ⟨loop stays, by simp, ?_, fun _ _ => rfl⟩
    intro i _
    rw [List.take_nil]
    rfl
  | cons x es ih =>
    rw [run] at ran
    split at ran
    · contradiction
    · next s₁ taken =>
        obtain ⟨p, events, states, rest⟩ := ih ran
        refine ⟨cons taken p, ?_, ?_, ?_⟩
        · intro i y found
          cases i with
          | zero => exact Option.some.inj found
          | succ i => exact events i y found
        · intro i le
          cases i with
          | zero => rfl
          | succ i =>
            rw [List.take_succ_cons, run, taken]
            exact states i (by simpa using le)
        · intro i le
          cases i with
          | zero => simp at le
          | succ i => exact rest i (by simpa using le)

end Path

end Transition
