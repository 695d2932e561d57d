import Mathlib.Logic.Basic

/-!
# Runs of a partial step function

A system is a partial function from a state and an event to the next state: an event
that is not enabled has no successor. A run may also be restricted by a guard on the
event and the state it is taken in, which is how an assumption about the environment
enters a statement about runs.

The induction over a run is done here once. A safety property is then two goals: it
holds at the start, and one guarded step keeps it.
-/

variable {α : Type*} {p : Prop} {a b : α}

/-- A step with a guard. -/
theorem Option.of_ite_eq_some [Decidable p]
    (h : (if p then some a else none) = some b) : p ∧ a = b := by
  simpa using h

theorem Option.of_ite_none_eq_some [Decidable p]
    (h : (if p then none else some a) = some b) : ¬ p ∧ a = b := by
  simpa using h

namespace Transition

universe u v

variable {σ : Type u} {ι : Type v}

/-- Take the events one after the other. The run stops being defined at the first event
that is not enabled. -/
def run (step : σ → ι → Option σ) : σ → List ι → Option σ
  | s, [] => some s
  | s, e :: es =>
    match step s e with
    | none => none
    | some s' => run step s' es

/-- The states that guarded steps reach from `s₀`. -/
inductive Reach (step : σ → ι → Option σ) (ok : σ → ι → Prop) (s₀ : σ) : σ → Prop
  | refl : Reach step ok s₀ s₀
  | tail {s s' : σ} {e : ι} : Reach step ok s₀ s → ok s e → step s e = some s' → Reach step ok s₀ s'

variable {step : σ → ι → Option σ} {ok ok' : σ → ι → Prop} {s₀ s s' : σ}

theorem run_append (xs ys : List ι) :
    run step s₀ (xs ++ ys) = (run step s₀ xs).bind fun s => run step s ys := by
  induction xs generalizing s₀ with
  | nil => rfl
  | cons e xs ih =>
    simp only [List.cons_append, run]
    split
    · rfl
    · exact ih

namespace Reach

/-- What holds at the start and is kept by every guarded step holds in every state
reached. -/
theorem invariant {P : σ → Prop} (h : Reach step ok s₀ s) (start : P s₀)
    (keep : ∀ s e s', P s → ok s e → step s e = some s' → P s') : P s := by
  induction h with
  | refl => exact start
  | tail _ guard taken ih => exact keep _ _ _ ih guard taken

theorem head {e : ι} (guard : ok s₀ e) (taken : step s₀ e = some s)
    (h : Reach step ok s s') : Reach step ok s₀ s' := by
  induction h with
  | refl => exact .tail .refl guard taken
  | tail _ guard' taken' ih => exact .tail ih guard' taken'

end Reach

/-- The guard holds of each event at the state the run takes it in. -/
def Guarded (step : σ → ι → Option σ) (ok : σ → ι → Prop) : σ → List ι → Prop
  | _, [] => True
  | s, e :: es => ok s e ∧ ∀ s', step s e = some s' → Guarded step ok s' es

instance decidableGuarded [∀ s e, Decidable (ok s e)] : (s : σ) → (es : List ι) →
    Decidable (Guarded step ok s es)
  | _, [] => inferInstanceAs (Decidable True)
  | s, e :: es =>
    match taken : step s e with
    | none => decidable_of_iff (ok s e) ⟨fun guard => ⟨guard, by simp [taken]⟩, And.left⟩
    | some s' =>
      haveI := decidableGuarded s' es
      decidable_of_iff (ok s e ∧ Guarded step ok s' es) (by simp [Guarded, taken])

variable {es : List ι}

/-- An evaluated run is one of the reachable ones. -/
theorem Reach.of_run (h : run step s₀ es = some s)
    (guarded : Guarded step ok s₀ es) : Reach step ok s₀ s := by
  induction es generalizing s₀ with
  | nil =>
    obtain rfl : s₀ = s := Option.some.inj h
    exact .refl
  | cons e es ih =>
    rw [run] at h
    split at h
    · contradiction
    · next next taken => exact .head guarded.1 taken (ih h (guarded.2 _ taken))

/-- What is observed of an evaluated run is observed of a state reached. -/
theorem Reach.exists_of_run {f : σ → α} {x : α} (h : (run step s₀ es).map f = some x)
    (guarded : Guarded step ok s₀ es) : ∃ s, Reach step ok s₀ s ∧ f s = x := by
  obtain ⟨s, ran, observed⟩ := Option.map_eq_some_iff.mp h
  exact ⟨s, .of_run ran guarded, observed⟩

theorem Guarded.of_forall (h : ∀ s e, e ∈ es → ok s e) : Guarded step ok s₀ es := by
  induction es generalizing s₀ with
  | nil => trivial
  | cons e es ih =>
    refine ⟨h _ _ (List.mem_cons_self ..), ?_⟩
    intro s' _
    exact ih fun s e' member => h s e' (List.mem_cons_of_mem _ member)

end Transition
