import Mathlib.Logic.Basic

/-!
# Programs that read through a cache

A program asks queries, one after the other, and goes on with the answers. A session answers them
from a cache and fetches what is missing, which may fail. What matters of a session is its view, the
answer to each query. A program that runs in a session leaves the view as it is, and its result is
the one that the view gives.
-/

namespace Reads

variable {Q : Type} {A : Q → Type} {ρ σ ε : Type}

inductive Program (Q : Type) (A : Q → Type) (ρ : Type)
  | done (result : ρ)
  | read (q : Q) (next : A q → Program Q A ρ)

/-- The result of a program under a view. -/
def eval (view : (q : Q) → A q) : Program Q A ρ → ρ
  | .done result => result
  | .read q next => eval view (next (view q))

/-- The run of a program in a session. -/
def run (read : σ → (q : Q) → σ × Except ε (A q)) : Program Q A ρ → σ → σ × Except ε ρ
  | .done result, s => (s, .ok result)
  | .read q next, s =>
    match read s q with
    | (s, .ok answer) => run read (next answer) s
    | (s, .error e) => (s, .error e)

/-- Reads keep the view, and answer according to it. -/
structure Sound (read : σ → (q : Q) → σ × Except ε (A q)) (view : σ → (q : Q) → A q) : Prop where
  view_read : ∀ s q, view (read s q).1 = view s
  answer : ∀ s q a, (read s q).2 = .ok a → a = view s q

variable {read : σ → (q : Q) → σ × Except ε (A q)} {view : σ → (q : Q) → A q}

/-- What every read keeps, a program keeps, whether it comes to its end or not. -/
theorem run_keeps {P : σ → Prop} (keep : ∀ s q, P s → P (read s q).1) (p : Program Q A ρ) {s : σ}
    (h : P s) : P (run read p s).1 := by
  induction p generalizing s with
  | done result => exact h
  | read q next ih =>
    have first := keep s q h
    unfold run
    generalize read s q = result at first
    obtain ⟨s', answer | answer⟩ := result
    · exact first
    · exact ih answer first

/-- What no read changes, a program leaves as it is. -/
theorem run_frame {τ : Type*} {f : σ → τ} (kept : ∀ s q, f (read s q).1 = f s)
    (p : Program Q A ρ) (s : σ) : f (run read p s).1 = f s :=
  run_keeps (P := fun s' => f s' = f s) (fun s' q same => (kept s' q).trans same) p rfl

theorem Sound.view_run (sound : Sound read view) (p : Program Q A ρ) (s : σ) :
    view (run read p s).1 = view s :=
  run_frame sound.view_read p s

end Reads
