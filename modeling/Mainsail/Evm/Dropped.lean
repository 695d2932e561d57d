import Mainsail.Evm.Cache
import Mainsail.Evm.EvmInner

/-!
# Dropped transactions

A transaction for which `process` returns an error does not enter the block. The pending commit is
as before the call, unless the reader of the execution could not be opened: by then the cache has
been moved out, and it is put back only if a cold wallet was merged for the call.
-/

namespace Mainsail.Evm

open Sample EvmInner

/-- Nothing that reaches the state root or is read has changed. -/
structure NoTrace (revm : Revm) (db : PersistentDb) (p p' : PendingCommit) : Prop where
  key : p'.key = p.key
  transitions : p'.transitions = p.transitions
  results : p'.results = p.results
  cumulativeGasUsed : p'.cumulativeGasUsed = p.cumulativeGasUsed
  legacyAttributes : p'.legacyAttributes = p.legacyAttributes
  legacyColdWallets : p'.legacyColdWallets = p.legacyColdWallets
  merged : p'.merged = p.merged
  builtCommit : p'.builtCommit = p.builtCommit
  view : revm.view db p'.cache = revm.view db p.cache

/-- The execution is reached with no cold wallet merged for it, and its reader is not opened. -/
def LosesCache (s : EvmInner) (p : PendingCommit) (tx : TxContext) (env : Circumstances) : Prop :=
  Admitted s tx env ∧ Unmerged s.db p tx env ∧ env.readerFails = true

section

variable {revm : Revm} {db : PersistentDb} {p : PendingCommit} {tx : TxContext}

theorem NoTrace.refl (p : PendingCommit) : NoTrace revm db p p :=
  ⟨rfl, rfl, rfl, rfl, rfl, rfl, rfl, rfl, rfl⟩

section

variable {env : Circumstances} {p' : PendingCommit}

theorem noTrace_of_error {e : EvmError}
    (merge : mergeColdWallet revm db p tx env = (p', .error e)) :
    ¬ Unmerged db p tx env ∧ NoTrace revm db p p' := by
  have merges := mergeColdWallet_merges revm db p tx env
  rw [merge] at merges
  cases merges with
  | failed tried kept => exact ⟨tried, rfl, rfl, rfl, rfl, rfl, rfl, rfl, rfl, kept⟩

/-- Looking for a cold wallet where there is none. -/
theorem noTrace_of_none (merge : mergeColdWallet revm db p tx env = (p', .ok none)) :
    Unmerged db p tx env ∧ NoTrace revm db p p' := by
  have merges := mergeColdWallet_merges revm db p tx env
  rw [merge] at merges
  cases merges with
  | skipped unmerged => exact ⟨unmerged, .refl p⟩
  | marked unmerged fresh =>
    exact ⟨unmerged, rfl, rfl, rfl, rfl, rfl, rfl, PendingCommit.merged_insert_none fresh, rfl, rfl⟩

theorem restore_eq {restore : PendingCommit}
    (merge : mergeColdWallet revm db p tx env = (p', .ok (some restore))) :
    ¬ Unmerged db p tx env ∧ restore = p := by
  have merges := mergeColdWallet_merges revm db p tx env
  rw [merge] at merges
  cases merges with
  | merged mergeable => exact ⟨mergeable.not_unmerged, rfl⟩

end

/-- An execution that fails after a step that leaves no trace. -/
theorem NoTrace.transactWrite {p₁ p' : PendingCommit} {txHash : Option Word} {env : Circumstances}
    {e : EvmError} (before : NoTrace revm db p p₁)
    (failed : Evm.transactWrite revm db p₁ txHash env = (p', .error e)) :
    NoTrace revm db p p' ↔ (env.readerFails = true → revm.view db {} = revm.view db p.cache) := by
  obtain ⟨key, transitions, results, gas, attributes, wallets, merged, built, view⟩ := before
  obtain ⟨fails, rfl⟩ | ⟨opens, cache, rfl, kept⟩ := transactWrite_eq_error failed
  · exact ⟨fun none _ => none.view, fun view =>
      ⟨key, transitions, results, gas, attributes, wallets, merged, built, view fails⟩⟩
  · refine ⟨fun _ fails => ?_, fun _ =>
      ⟨key, transitions, results, gas, attributes, wallets, merged, built, kept.trans view⟩⟩
    rw [opens] at fails
    cases fails

end

/-- A call that fails leaves no trace just when it does not lose the cache, or the cache reads as
the database does. Then every execution comes to what it would have come to before the call. -/
theorem process_dropped {revm : Revm} {s s' : EvmInner} {tx : TxContext} {env : Circumstances}
    {e : EvmError} (failed : s.process revm tx env = (s', .error e)) :
    s'.db = s.db ∧ s'.snapshot = s.snapshot ∧
      (∀ key ≠ tx.commitKey, s'.pendingCommits key = s.pendingCommits key) ∧
      (s.pendingCommits tx.commitKey = none → s'.pendingCommits tx.commitKey = none) ∧
      ∀ p, s.pendingCommits tx.commitKey = some p →
        ∃ p', s'.pendingCommits tx.commitKey = some p' ∧
          (NoTrace revm s.db p p' ↔
            (LosesCache s p tx env → revm.view s.db {} = revm.view s.db p.cache)) ∧
          (NoTrace revm s.db p p' → ∀ execution : Execution,
            Reads.eval (revm.view s.db p'.cache) execution =
              Reads.eval (revm.view s.db p.cache) execution) := by
  -- It is enough to say what becomes of the pending commit.
  suffices s' = s ∧ (∀ p, s.pendingCommits tx.commitKey = some p → ¬ LosesCache s p tx env) ∨
      ∃ p p', s.pendingCommits tx.commitKey = some p ∧ s' = s.setPending tx.commitKey p' ∧
        (NoTrace revm s.db p p' ↔
          (LosesCache s p tx env → revm.view s.db {} = revm.view s.db p.cache)) by
    obtain ⟨rfl, reaches⟩ | ⟨p, p', pending, rfl, iff⟩ := this
    · refine ⟨rfl, rfl, fun _ _ => rfl, id, fun p pending => ⟨p, pending, ?_, fun _ _ => rfl⟩⟩
      exact ⟨fun _ loses => absurd loses (reaches p pending), fun _ => .refl p⟩
    · refine ⟨rfl, rfl, fun key other => Function.update_of_ne other .., ?_, ?_⟩
      · rw [pending]
        rintro ⟨⟩
      · rintro p₁ pending₁
        obtain rfl := Option.some.inj (pending.symm.trans pending₁)
        exact ⟨p', Function.update_self .., iff, fun none execution => by rw [none.view]⟩
  have processed := process_processed revm s tx env
  rw [failed] at processed
  cases processed with
  | refused early =>
    refine .inl ⟨rfl, fun p pending loses => ?_⟩
    rw [early loses.1] at pending
    cases pending
  | @unmerged p p' _ admitted pending merge =>
    obtain ⟨tried, none⟩ := noTrace_of_error merge
    exact .inr ⟨p, p', pending, rfl, fun _ loses => absurd loses.2.1 tried, fun _ => none⟩
  | @failed p p₁ p' restore _ admitted pending merge execution =>
    refine .inr ⟨p, _, pending, rfl, ?_⟩
    cases restore with
    | none =>
      obtain ⟨unmerged, none⟩ := noTrace_of_none merge
      refine (none.transactWrite execution).trans ?_
      exact ⟨fun view loses => view loses.2.2, fun view fails => view ⟨admitted, unmerged, fails⟩⟩
    | some r =>
      obtain ⟨tried, rfl⟩ := restore_eq merge
      exact ⟨fun _ loses => absurd loses.2.1 tried, fun _ => .refl _⟩

namespace Sample

def key : CommitKey := ⟨1, 0, 0⟩

/-- An execution that gives an account ten units. -/
def pays : Circumstances where
  execution := .done (.ok (.success 21000 [],
    [(3, { info := some { balance := 10, codeHash := keccakEmpty }, status := .inMemoryChange })]))

/-- A block in which one transaction has been executed. -/
def block : EvmInner :=
  ((prepareNextCommit { db := {} } key).process revm
    { commitKey := key, txHash := 1, sender := 1 } pays).1

def second : TxContext where
  commitKey := key
  txHash := 2
  sender := 2

/-- The account, as the pending commit of the block has it. -/
def balance (s : EvmInner) : Option Word :=
  (s.pendingCommits key).bind fun p => Option.map (·.balance) (revm.view s.db p.cache (.basic 3))

end Sample

/-- A transaction that is not valid is dropped. -/
theorem process_dropped_sample : ∃ p p', block.pendingCommits key = some p ∧
      (block.process revm second
        { execution := .done (.error .transaction) }).1.pendingCommits key = some p' ∧
      NoTrace revm block.db p p' ∧ balance block = some 10 := by
  have pending : (block.pendingCommits key).isSome = true := by decide +kernel
  obtain ⟨p, pending⟩ := Option.isSome_iff_exists.mp pending
  have error : (block.process revm second
      { execution := .done (.error .transaction) }).2 = .error .transaction := by decide +kernel
  obtain ⟨-, -, -, -, after⟩ := process_dropped (Prod.ext rfl error)
  obtain ⟨p', pending', iff, -⟩ := after p pending
  refine ⟨p, p', pending, pending', iff.mpr fun loses => ?_, by decide +kernel⟩
  cases loses.2.2

/-- The reader of the second transaction is not opened, and what the first has done is not read any
more. -/
theorem process_dropped_reader : balance block = some 10 ∧
      (block.process revm second
        { execution := .done (.error .transaction), readerFails := true }).2 = .error .database ∧
      balance (block.process revm second
        { execution := .done (.error .transaction), readerFails := true }).1 = none := by
  decide +kernel

end Mainsail.Evm
