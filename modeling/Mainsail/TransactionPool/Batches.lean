import Mainsail.Foundation.Transition
import Mainsail.TransactionPool.Selector

/-!
# Batches of overlapping calls

`getBatch` switches the key, waits until the list of the pool is loaded and fills its batch later still.
One list, one key and one index serve all calls, so what a call returns depends on the calls in between.
The log keeps the lists that were taken and the batches that were returned, the latest first. A call that
neither comes while a list is loaded nor switches the key under a call that waits leaves the others alone.
-/

namespace Mainsail.Selector

open Transition List

/-- A call that has not returned, and the list that it is loading. -/
structure Waiting where
  options : GetBatchOptions
  loading : Option (List Transaction)
  deriving DecidableEq, Repr

/-- The caller gets the data of the transactions of a batch. -/
inductive Entry
  | prepared (blockRound : Nat × Nat) (transactions : List Transaction)
  | returned (options : GetBatchOptions) (batch : List Transaction) (remaining : Int)
  deriving DecidableEq, Repr

structure Calls where
  selector : Selector := {}
  waiting : List Waiting := []
  log : List Entry := []
  deriving DecidableEq, Repr

/-- The query takes its list when it is made; it has been awaited when the list is loaded. -/
inductive Event
  | getBatch (options : GetBatchOptions) (pool : List Transaction)
  | loaded (call : Nat)
  | resume (call : Nat)
  | clear

namespace Calls

def step (s : Calls) : Event → Option Calls
  | .getBatch options pool =>
    if s.selector.currentBlockRound = some options.blockRound then
      some { s with waiting := s.waiting ++ [⟨options, none⟩] }
    else
      some {
        selector := { s.selector with currentBlockRound := some options.blockRound, index := 0 }
        waiting := s.waiting ++ [⟨options, some pool⟩]
        log := .prepared options.blockRound pool :: s.log }
  | .loaded call =>
    match s.waiting[call]? with
    | some ⟨options, some pool⟩ =>
      some { s with
        selector := { s.selector with transactions := pool }
        waiting := s.waiting.set call ⟨options, none⟩ }
    | _ => none
  | .resume call =>
    match s.waiting[call]? with
    | some ⟨options, none⟩ =>
      let batch := fill options.maxSize options.maxBytes 0 s.selector.left
      let index := s.selector.index + batch.length
      some {
        selector := { s.selector with index }
        waiting := s.waiting.eraseIdx call
        log := .returned options batch (s.selector.transactions.length - index) :: s.log }
    | _ => none
  | .clear => some { s with selector := {} }

/-- No call comes while a list is loaded, and the key stays while a call waits. -/
def Separate (s : Calls) : Event → Prop
  | .getBatch options _ => s.waiting = [] ∨
      s.selector.currentBlockRound = some options.blockRound ∧ ∀ call ∈ s.waiting, call.loading = none
  | .clear => s.waiting = []
  | _ => True

instance (s : Calls) : DecidablePred s.Separate
  | .getBatch .. => inferInstanceAs (Decidable (_ ∨ _))
  | .clear => inferInstanceAs (Decidable (_ = _))
  | .loaded _ | .resume _ => inferInstanceAs (Decidable True)

end Calls

/-! ## What the callers of a key have got -/

/-- The list that was taken when the key was last prepared. -/
def taken (blockRound : Nat × Nat) : List Entry → List Transaction
  | [] => []
  | .prepared key transactions :: log => if key = blockRound then transactions else taken blockRound log
  | .returned .. :: log => taken blockRound log

/-- The batches since then, one after the other. -/
def returned (blockRound : Nat × Nat) : List Entry → List Transaction
  | [] => []
  | .prepared key _ :: log => if key = blockRound then [] else returned blockRound log
  | .returned options batch _ :: log =>
    if options.blockRound = blockRound then returned blockRound log ++ batch
    else returned blockRound log

/-- Each batch is within its limits and goes on where the one before it ended, and its caller is told how
much is left. -/
def Continued : List Entry → Prop
  | [] => True
  | .prepared .. :: log => Continued log
  | .returned options batch remaining :: log =>
    Continued log ∧ batch.length ≤ max 1 options.maxSize ∧
      (batch.map fun transaction => 4 + transaction.serialized.length).sum ≤ options.maxBytes ∧
      ∃ rest, taken options.blockRound log = returned options.blockRound log ++ batch ++ rest ∧
        remaining = rest.length

theorem Continued.isPrefix {log : List Entry} (h : Continued log) (blockRound : Nat × Nat) :
    IsPrefix (returned blockRound log) (taken blockRound log) := by
  induction log with
  | nil => exact prefix_rfl
  | cons entry log ih =>
    cases entry with
    | prepared key transactions =>
      rw [returned, taken]
      split_ifs
      · exact nil_prefix
      · exact ih h
    | returned options batch remaining =>
      obtain ⟨earlier, -, -, rest, whole, -⟩ := h
      rw [returned, taken]
      split_ifs with same
      · subst same
        exact ⟨rest, whole.symm⟩
      · exact ih earlier

/-- The loop pushes a transaction before it looks at the size. -/
theorem fill_within (maxSize bytesLeft size : Nat) (rest : List Transaction) :
    (fill maxSize bytesLeft size rest).length ≤ max 1 (maxSize - size) ∧
      ((fill maxSize bytesLeft size rest).map fun transaction =>
        4 + transaction.serialized.length).sum ≤ bytesLeft := by
  induction rest generalizing bytesLeft size with
  | nil => simp [fill]
  | cons transaction rest ih =>
    rw [fill]
    split_ifs with large last
    · simp
    · simp only [length_singleton, map_cons, map_nil, sum_cons, sum_nil]
      omega
    · have next := ih (bytesLeft - 4 - transaction.serialized.length) (size + 1)
      simp only [length_cons, map_cons, sum_cons]
      omega

namespace Calls

structure Sound (s : Calls) : Prop where
  continued : Continued s.log
  position : ∀ blockRound, s.selector.currentBlockRound = some blockRound →
    returned blockRound s.log = (taken blockRound s.log).take s.selector.index ∧
      s.selector.index ≤ (taken blockRound s.log).length
  transactions : (∀ call ∈ s.waiting, call.loading = none) → ∀ blockRound,
    s.selector.currentBlockRound = some blockRound → s.selector.transactions = taken blockRound s.log
  current : ∀ call ∈ s.waiting, s.selector.currentBlockRound = some call.options.blockRound
  alone : ∀ call ∈ s.waiting, ∀ pool, call.loading = some pool →
    s.waiting = [call] ∧ taken call.options.blockRound s.log = pool

namespace Sound

variable {s s' : Calls} {options : GetBatchOptions} {pool : List Transaction} {call : Nat}

variable (h : Sound s)
include h

theorem getBatch (separate : s.Separate (.getBatch options pool))
    (done : s.step (.getBatch options pool) = some s') : Sound s' := by
  rw [step] at done
  split_ifs at done with same
  · cases done
    have none_loading : ∀ call ∈ s.waiting, call.loading = none := by
      rcases separate with free | ⟨-, loaded⟩
      · simp [free]
      · exact loaded
    refine ⟨h.continued, h.position, fun _ => h.transactions none_loading, ?_, ?_⟩
    · intro call member
      rcases mem_append.mp member with before | new
      · exact h.current call before
      · rw [mem_singleton.mp new]
        exact same
    · intro call member pool loading
      rcases mem_append.mp member with before | new
      · simp [none_loading call before] at loading
      · simp [mem_singleton.mp new] at loading
  · -- Another key is only prepared while no call waits.
    have free : s.waiting = [] := by
      rcases separate with free | ⟨same', -⟩
      · exact free
      · exact absurd same' same
    cases done
    constructor
    · exact h.continued
    · rintro blockRound ⟨⟩
      simp [returned]
    · intro loaded
      simpa using loaded ⟨options, some pool⟩ (by simp)
    · simp [free]
    · simp [free, taken]

theorem loaded (done : s.step (.loaded call) = some s') : Sound s' := by
  rw [step] at done
  split at done
  next options pool found =>
    obtain ⟨only, took⟩ := h.alone _ (List.mem_of_getElem? found) pool rfl
    obtain rfl : call = 0 := by
      have bound := (List.getElem?_eq_some_iff.mp found).1
      rw [only, List.length_singleton] at bound
      omega
    cases done
    have current := h.current _ (List.mem_of_getElem? found)
    refine ⟨h.continued, h.position, ?_, ?_, ?_⟩
    · intro _ blockRound same
      cases current.symm.trans same
      exact took.symm
    · simp [only, current]
    · simp [only]
  next => contradiction

theorem resume (done : s.step (.resume call) = some s') : Sound s' := by
  rw [step] at done
  split at done
  next options found =>
    have member := mem_of_getElem? found
    have none_loading : ∀ call ∈ s.waiting, call.loading = none := by
      intro call other
      by_contra loading
      obtain ⟨pool, loading⟩ := Option.ne_none_iff_exists'.mp loading
      rw [(h.alone call other pool loading).1, mem_singleton] at member
      simp [← member] at loading
    have current : s.selector.currentBlockRound = some options.blockRound := h.current _ member
    have transactions := h.transactions none_loading _ current
    obtain ⟨before, within⟩ := h.position _ current
    obtain ⟨-, whole⟩ := fill_append options.maxSize 0 (le_refl options.maxBytes) s.selector.left
    obtain ⟨size, bytes⟩ := fill_within options.maxSize options.maxBytes 0 s.selector.left
    cases done
    generalize fill options.maxSize options.maxBytes 0 s.selector.left = batch at whole size bytes
    -- The batch begins where the index stands.
    have split : taken options.blockRound s.log =
        returned options.blockRound s.log ++ batch ++ s.selector.left.drop batch.length := by
      rw [before, append_assoc, whole, left, transactions, take_append_drop]
    have length := congrArg length split
    simp only [length_append, before, length_take, min_eq_left within] at length
    refine ⟨⟨h.continued, size, bytes, _, split, ?_⟩, ?_, fun _ => h.transactions none_loading,
      fun call other => h.current call (mem_of_mem_eraseIdx other), ?_⟩
    · rw [transactions]
      omega
    · intro blockRound same
      cases current.symm.trans same
      simp only [returned, if_true, taken]
      refine ⟨?_, by omega⟩
      conv_rhs => rw [split]
      rw [take_left']
      simp [before, min_eq_left within]
    · intro call other pool loading
      simp [none_loading call (mem_of_mem_eraseIdx other)] at loading
  next => contradiction

theorem step {event : Event} (separate : s.Separate event)
    (done : s.step event = some s') : Sound s' := by
  cases event with
  | getBatch options pool => exact h.getBatch separate done
  | loaded call => exact h.loaded done
  | resume call => exact h.resume done
  | clear =>
    cases done
    have free : s.waiting = [] := separate
    constructor
    · exact h.continued
    all_goals simp [free]

end Sound

/-- The batches of a key since it was last prepared are one prefix of its list. -/
theorem batches_continue {s : Calls} (reached : Reach step Separate {} s) :
    Continued s.log ∧ ∀ blockRound,
      IsPrefix (returned blockRound s.log) (taken blockRound s.log) ∧
        ((taken blockRound s.log).Nodup → (returned blockRound s.log).Nodup) := by
  have sound : Sound s := by
    apply reached.invariant (P := Sound)
    · constructor <;> simp [Continued]
    · intro s event s' h separate done
      exact h.step separate done
  refine ⟨sound.continued, fun blockRound => ?_⟩
  have start := sound.continued.isPrefix blockRound
  exact ⟨start, start.sublist.nodup⟩

/-! ## Runs -/

open TransactionFactory (blank)

def request (round maxSize : Nat) : GetBatchOptions := { blockRound := (1, round), maxBytes := 100, maxSize }

/-- Two batches of one transaction each. -/
def twoBatches : List Event :=
  [.getBatch (request 1 1) [blank 10, blank 20], .loaded 0, .resume 0, .getBatch (request 1 1) [],
    .resume 0]

theorem batches_continue_sample : ∃ s, Reach step Separate {} s ∧
    returned (1, 1) s.log = [blank 10, blank 20] ∧ Continued s.log := by
  have ran : (run step {} twoBatches).map (fun s => returned (1, 1) s.log) =
      some [blank 10, blank 20] := by decide +kernel
  have separate : Guarded step Separate {} twoBatches := by decide +kernel
  obtain ⟨s, reached, got⟩ := Reach.exists_of_run ran separate
  exact ⟨s, reached, got, (batches_continue reached).1⟩

/-- The second call for a key comes while the list of the key is loaded. It gets what the round before
had. -/
def overlapping : List Event :=
  [.getBatch (request 0 1) [blank 10], .loaded 0, .resume 0, .getBatch (request 1 1) [blank 20],
    .getBatch (request 1 1) [blank 20], .resume 1]

/-- A size of zero does not stop the loop before the first transaction. -/
theorem overlapping_calls_mix :
    (∃ s, run step {} overlapping = some s ∧ taken (1, 1) s.log = [blank 20] ∧
      returned (1, 1) s.log = [blank 10]) ∧
    ∃ s, run step {} [.getBatch (request 1 0) [blank 10], .loaded 0, .resume 0] = some s ∧
      s.log.head? = some (.returned (request 1 0) [blank 10] 0) := by
  constructor
  · have ran : (run step {} overlapping).map
        (fun s => (taken (1, 1) s.log, returned (1, 1) s.log)) = some ([blank 20], [blank 10]) := by
      decide +kernel
    obtain ⟨s, run, observed⟩ := Option.map_eq_some_iff.mp ran
    exact ⟨s, run, Prod.mk.inj observed⟩
  · apply Option.map_eq_some_iff.mp
    decide +kernel

end Calls

end Mainsail.Selector
