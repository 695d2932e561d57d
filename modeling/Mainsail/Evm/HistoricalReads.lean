import Mainsail.Foundation.DeltaLog
import Mainsail.Evm.Database

/-!
# Historical reads

`get_account_info` and `code_at` of `EvmInner` at the end of a past block, against the database as
it was then. The history has what the last blocks changed. If none of them up to the block changed
the account, the read falls back to the account as it is now, which a later block may have changed.
The commit that deploys the contracts has an entry too, which no block replaces, so the entry of a block
is deleted one block earlier than the capacity says.
-/

namespace Mainsail.Evm

open Option

open DeltaLog (latest ofList)
open PersistentDb Sample DeltaLog AccountHistory List Except

/-- What an entry of the history makes of the accounts that it has. -/
def changeOf (e : U64 × HistoricalAccounts) (address : Address) : Option AccountInfo := e.2[address]?

/-- The entry of a commit in the history. -/
def StateCommit.record (c : StateCommit) : U64 × HistoricalAccounts :=
  (c.key.blockNumber,
    collect (c.changeSet.accounts.map fun e => (e.1, e.2.getD .empty)))

theorem AccountHistory.getElem?_collect (l : List (Address × AccountInfo)) (address : Address) :
    (collect l)[address]? = ofList l address := by
  suffices ∀ data : HistoricalAccounts,
      (l.foldl (fun data e => data.insert e.1 e.2) data)[address]? =
        (ofList l address).or data[address]? by
    rw [collect, this, Std.ExtTreeMap.getElem?_empty, or_none]
  induction l with
  | nil => exact fun _ => rfl
  | cons e l ih =>
    intro data
    rw [foldl_cons, ih, ofList, Option.or_assoc, Std.ExtTreeMap.getElem?_insert]
    congr 1
    by_cases here : address = e.1
    · simp only [here, if_true, Std.ReflCmp.compare_self, some_or]
    · simp only [Std.LawfulEqCmp.compare_eq_iff_eq, Ne.symm here, here, if_false, none_or]

variable {c : StateCommit} {data : Option CommitData}

theorem PersistentDb.getAccountInfo_commit {db db' : PersistentDb}
    (done : db.commit c data = .ok db') :
    (fun a => db'.getAccountInfo a none) =
      apply (fun a => db.getAccountInfo a none) (changeOf c.record) := by
  obtain ⟨-, -, -, -, -, accounts, -⟩ := commit_eq_ok done
  funext a
  have change : changeOf c.record a = (ofList c.changeSet.accounts a).map (·.getD .empty) :=
    (getElem?_collect ..).trans (ofList_map (fun info : Option AccountInfo => info.getD .empty) _ _)
  simp only [getAccountInfo, accountAt, accounts, apply, change]
  rw [show c.changeSet.accounts.foldl putAccount db.accounts a =
    (ofList c.changeSet.accounts a).getD (db.accounts a) from foldl_update ..]
  cases ofList c.changeSet.accounts a <;> rfl

/-- A commit that a block has been built into. -/
def StateCommit.Built (c : StateCommit) : Prop := ∃ σ revm p, c = buildCommit σ revm p

theorem StateCommit.Built.contracts (built : c.Built) :
    keccakEmpty ∉ c.changeSet.contracts.map Prod.fst := by
  obtain ⟨σ, revm, p, rfl⟩ := built
  intro member
  obtain ⟨e, member, key⟩ := mem_map.mp member
  obtain ⟨e', -, found⟩ := mem_filterMap.mp ((σ.sort_perm ..).mem_iff.mp member)
  obtain ⟨other, found⟩ := ite_none_right_eq_some.mp found
  rw [← some.inj found] at key
  exact other key

/-! ## What the history keeps -/

namespace AccountHistory

variable {h h' : AccountHistory} {b n : U64} {past : List (U64 × HistoricalAccounts)}

/-- Of entries in the order of their numbers, deleting the old ones leaves the last ones. -/
theorem filter_suffix (order : past.Pairwise (·.1 < ·.1)) (m : Nat) :
    past.filter (fun e => ¬ e.1.val ≤ m) <:+ past := by
  induction past with
  | nil => exact suffix_rfl
  | cons e past ih =>
    obtain ⟨first, rest⟩ := pairwise_cons.mp order
    by_cases old : e.1.val ≤ m
    · rw [filter_cons_of_neg (by simpa using old)]
      exact (ih rest).trans (suffix_cons ..)
    · have newer : ∀ e' ∈ e :: past, m < e'.1.val := by
        refine forall_mem_cons.mpr ⟨by omega, fun e' member => ?_⟩
        have := Fin.lt_def.mp (first e' member)
        omega
      exact ⟨[], filter_eq_self.mpr fun e' member => by simpa using newer e' member⟩

theorem filter_put (table : List (U64 × HistoricalAccounts)) (data : HistoricalAccounts) :
    (put table n data).filter (·.1 ≤ b) = (table.filter (·.1 ≤ b)).filter (·.1 < n) ++
      ([(n, data)].filter (·.1 ≤ b) ++ (table.filter (·.1 ≤ b)).filter (n < ·.1)) := by
  have later := filter_comm (α := U64 × HistoricalAccounts) (·.1 ≤ b) (n < ·.1) table
  rw [put, filter_append, ← singleton_append, filter_append, filter_comm, later]

/-- An entry is inserted, above the block `b` or after all entries up to it. Of those up to it the
last ones stay. -/
theorem insert_upTo {accounts : List (Address × AccountInfo)}
    (order : past.Pairwise (·.1 < ·.1)) (newest : n ≤ b → ∀ e ∈ past, e.1 < n)
    (kept : h.table.filter (·.1 ≤ b) <:+ past) (done : h.insert n accounts = .ok h') :
    h'.table.filter (·.1 ≤ b) <:+ past ++ [(n, collect accounts)].filter (·.1 ≤ b) := by
  unfold insert at done
  split at done
  · cases done
  · obtain rfl := ok.inj done
    dsimp only
    set table := if h.capacity ≤ h.table.length then
        h.table.filter fun e => ¬ e.1.val ≤ n.val - h.capacity
      else h.table
    have left : table.filter (·.1 ≤ b) <:+ past := by
      unfold table
      split_ifs
      · rw [filter_comm]
        exact (filter_suffix (order.sublist kept.sublist) _).trans kept
      · exact kept
    have below : ∀ e ∈ table.filter (·.1 ≤ b), e.1 < n := by
      intro e member
      by_cases here : n ≤ b
      · exact newest here e (left.subset member)
      · have upTo : e.1 ≤ b := by simpa using (mem_filter.mp member).2
        exact upTo.trans_lt (not_le.mp here)
    have all : (table.filter (·.1 ≤ b)).filter (·.1 < n) = table.filter (·.1 ≤ b) :=
      filter_eq_self.mpr fun e member => by simpa using below e member
    have none : (table.filter (·.1 ≤ b)).filter (n < ·.1) = [] :=
      filter_eq_nil_iff.mpr fun e member => by simpa using (below e member).le
    rw [filter_put, all, none, append_nil]
    obtain ⟨older, rfl⟩ := left
    exact ⟨older, (append_assoc ..).symm⟩

end AccountHistory

/-! ## Runs -/

namespace PersistentDb

variable {db db' : PersistentDb} {b : U64} {past : List (U64 × HistoricalAccounts)}

def commitAll (db : PersistentDb) (commits : List (StateCommit × Option CommitData)) :
    Except DbError PersistentDb :=
  commits.foldlM (fun db e => db.commit e.1 e.2) db

variable {commits : List (StateCommit × Option CommitData)}

theorem commitAll_cons {e : StateCommit × Option CommitData} :
    db.commitAll (e :: commits) = .ok db' ↔
      ∃ middle, db.commit e.1 e.2 = .ok middle ∧ middle.commitAll commits = .ok db' := by
  rw [commitAll, foldlM_cons]
  exact bind_eq_ok

/-- The entries of the history up to a block. -/
def historyUpTo (db : PersistentDb) (b : U64) : List (U64 × HistoricalAccounts) :=
  match db.accountsHistory with
  | none => []
  | some h => h.table.filter (·.1 ≤ b)

theorem commit_upTo (order : past.Pairwise (·.1 < ·.1))
    (newest : c.key.blockNumber ≤ b → ∀ e ∈ past, e.1 < c.key.blockNumber)
    (kept : db.historyUpTo b <:+ past) (done : db.commit c data = .ok db') :
    db'.historyUpTo b <:+ past ++ [c.record].filter (·.1 ≤ b) := by
  obtain ⟨-, inserted, -⟩ := commit_eq_ok done
  unfold updateHistory at inserted
  unfold historyUpTo at kept ⊢
  cases enabled : db.accountsHistory with
  | none =>
    rw [enabled] at inserted
    rw [← ok.inj inserted]
    exact nil_suffix
  | some h =>
    rw [enabled] at inserted kept
    dsimp only at inserted kept
    cases result : h.insert c.key.blockNumber
        (c.changeSet.accounts.map fun e => (e.1, e.2.getD .empty)) with
    | error e =>
      rw [result] at inserted
      cases inserted
    | ok h' =>
      rw [result] at inserted
      rw [← ok.inj inserted]
      exact insert_upTo order newest kept result

/-- What a run of commits leaves of the entries up to a block, and the accounts that it leads to. -/
theorem commitAll_upTo
    (order : (past ++ (commits.map (·.1.record)).filter (·.1 ≤ b)).Pairwise (·.1 < ·.1))
    (kept : db.historyUpTo b <:+ past) (done : db.commitAll commits = .ok db') :
    db'.historyUpTo b <:+ past ++ (commits.map (·.1.record)).filter (·.1 ≤ b) ∧
      (fun a => db'.getAccountInfo a none) =
        (commits.map (changeOf ·.1.record)).foldl apply fun a => db.getAccountInfo a none := by
  induction commits generalizing db past with
  | nil =>
    obtain rfl : db = db' := ok.inj done
    exact ⟨by simpa using kept, rfl⟩
  | cons e commits ih =>
    obtain ⟨middle, first, rest⟩ := commitAll_cons.mp done
    rw [map_cons, ← singleton_append, filter_append, ← append_assoc] at order ⊢
    have order' := (pairwise_append.mp order).1
    have newest : e.1.key.blockNumber ≤ b → ∀ r ∈ past, r.1 < e.1.key.blockNumber := by
      intro here r member
      exact (pairwise_append.mp order').2.2 r member e.1.record
        (mem_filter.mpr ⟨mem_singleton_self _, decide_eq_true here⟩)
    have kept' := commit_upTo (pairwise_append.mp order').1 newest kept first
    obtain ⟨left, accounts⟩ := ih order kept' rest
    refine ⟨left, ?_⟩
    rw [accounts, getAccountInfo_commit first, map_cons, foldl_cons]

theorem getHistoricalAccountInfo_eq (db : PersistentDb) (b : U64) (address : Address) :
    db.getHistoricalAccountInfo b address =
      match latest ((db.historyUpTo b).map changeOf) address with
      | some info => (some info, false)
      | none => (none, !(db.historyUpTo b).isEmpty) := by
  have entries : latest ((db.historyUpTo b).map changeOf) address =
      (db.historyUpTo b).reverse.findSome? (·.2[address]?) := by
    rw [latest, ← map_reverse]
    exact findSome?_map ..
  have walked : db.getHistoricalAccountInfo b address =
      walk address false (db.historyUpTo b).reverse := by
    unfold getHistoricalAccountInfo historyUpTo
    cases db.accountsHistory <;> rfl
  rw [walked, walk_eq, entries]
  cases (db.historyUpTo b).reverse.findSome? (·.2[address]?) <;> simp

/-- A read at the end of a block takes the newest entry up to it that has the account. -/
theorem getAccountInfo_of_mem {e : U64 × HistoricalAccounts} (member : e ∈ db.historyUpTo b)
    (address : Address) :
    db.getAccountInfo address (some b) =
      (latest ((db.historyUpTo b).map changeOf) address).getD (db.getAccountInfo address none) := by
  unfold getAccountInfo accountAt
  dsimp only
  rw [getHistoricalAccountInfo_eq]
  cases latest ((db.historyUpTo b).map changeOf) address with
  | some info => rfl
  | none => rw [isEmpty_eq_false_iff.mpr (ne_nil_of_mem member)]; rfl

theorem getAccountInfo_of_nil (none : db.historyUpTo b = []) (address : Address) :
    db.getAccountInfo address (some b) = .empty := by
  unfold getAccountInfo accountAt
  dsimp only
  rw [getHistoricalAccountInfo_eq, none]
  rfl

/-- The newest entry up to a block that has an account has it as it is. -/
def Agrees (db : PersistentDb) (b : U64) : Prop :=
  ∀ address info, latest ((db.historyUpTo b).map changeOf) address = some info →
    db.getAccountInfo address none = info

/-! ## Codes -/

/-- The empty code is not written. -/
def NoEmptyCode (db : PersistentDb) : Prop := db.contracts keccakEmpty = none

theorem NoEmptyCode.commitAll (h : db.NoEmptyCode) (built : ∀ e ∈ commits, e.1.Built)
    (done : db.commitAll commits = .ok db') : db'.NoEmptyCode := by
  induction commits generalizing db with
  | nil =>
    obtain rfl : db = db' := ok.inj done
    exact h
  | cons e commits ih =>
    obtain ⟨first, rest⟩ := forall_mem_cons.mp built
    obtain ⟨middle, committed, done⟩ := commitAll_cons.mp done
    refine ih ?_ rest done
    obtain ⟨-, -, -, -, -, -, contracts, -⟩ := commit_eq_ok committed
    unfold NoEmptyCode at h ⊢
    rw [contracts, foldl_put_of_not_mem first.contracts, h]

theorem NoEmptyCode.codeAt (h : db.NoEmptyCode) (address : Address) (block : Option U64) :
    db.codeAt address block = db.codeByHash (db.getAccountInfo address block).codeHash := by
  unfold PersistentDb.codeAt PersistentDb.getAccountInfo
  cases db.accountAt address block with
  | some info => rfl
  | none =>
    unfold codeByHash
    rw [getD_none, show AccountInfo.empty.codeHash = keccakEmpty from rfl, h]
    rfl

end PersistentDb

/-- A read at the end of a block. While the history has its entry, the read is right just when one
of the entries up to it has the account, or the account was then as it is now. When the entry has been
deleted, the account is read as one that does not exist. The code is the one of the account that is
read. -/
theorem historical_reads {past later : List (StateCommit × Option CommitData)} {b : U64}
    {start then_ now : PersistentDb} (codes : start.NoEmptyCode) (agrees : start.Agrees b)
    (built : ∀ e ∈ past ++ later, e.1.Built)
    (order : ((start.historyUpTo b).map Prod.fst ++
      past.map (·.1.key.blockNumber)).Pairwise (· < ·))
    (last : past.getLast?.map (·.1.key.blockNumber) = some b)
    (above : ∀ e ∈ later, b < e.1.key.blockNumber)
    (first : start.commitAll past = .ok then_) (second : then_.commitAll later = .ok now)
    (address : Address) :
    (now.getAccountInfo address (some b) = then_.getAccountInfo address none ↔
      if b ∈ (now.historyUpTo b).map Prod.fst then
        (∃ e ∈ now.historyUpTo b, address ∈ e.2) ∨
          now.getAccountInfo address none = then_.getAccountInfo address none
      else then_.getAccountInfo address none = .empty) ∧
    now.codeAt address (some b) =
      now.codeByHash (now.getAccountInfo address (some b)).codeHash := by
  obtain ⟨builtPast, builtLater⟩ := forall_mem_append.mp built
  refine ⟨?_, ((codes.commitAll builtPast first).commitAll builtLater second).codeAt address _⟩
  set entries := start.historyUpTo b ++ past.map (·.1.record) with entries_eq
  have order : entries.Pairwise (·.1 < ·.1) := by
    rw [← pairwise_map, entries_eq, map_append, List.map_map]
    exact order
  obtain ⟨older, r, all, rfl⟩ : ∃ older r, entries = older ++ [r] ∧ r.1 = b := by
    obtain ⟨e, found, number⟩ := map_eq_some_iff.mp last
    obtain ⟨before, rfl⟩ := getLast?_eq_some_iff.mp found
    exact ⟨start.historyUpTo b ++ before.map (·.1.record), e.1.record,
      by rw [entries_eq, map_append, ← append_assoc]; rfl, number⟩
  have upTo : ∀ e ∈ entries, e.1 ≤ r.1 := by
    rw [all] at order ⊢
    refine forall_mem_append.mpr ⟨fun e member => ?_, by simp⟩
    exact ((pairwise_append.mp order).2.2 e member r (.head _)).le
  have before : (past.map (·.1.record)).filter (·.1 ≤ r.1) = past.map (·.1.record) :=
    filter_eq_self.mpr fun e member => decide_eq_true (upTo e (mem_append_right _ member))
  have after : (later.map (·.1.record)).filter (·.1 ≤ r.1) = [] := by
    refine filter_eq_nil_iff.mpr fun e member => ?_
    obtain ⟨c, here, rfl⟩ := mem_map.mp member
    exact fun le => (above c here).not_ge (of_decide_eq_true le)
  obtain ⟨kept, thenAccounts⟩ := commitAll_upTo (b := r.1) (by rwa [before]) suffix_rfl first
  obtain ⟨kept, nowAccounts⟩ := commitAll_upTo (by rwa [before, after, append_nil]) kept second
  rw [before, after, append_nil, ← entries_eq] at kept
  have unchanged : ((start.historyUpTo r.1).map changeOf).foldl apply
      (fun a => start.getAccountInfo a none) = fun a => start.getAccountInfo a none := by
    funext a
    rw [foldl_apply]
    cases found : latest ((start.historyUpTo r.1).map changeOf) a with
    | none => rfl
    | some info => exact (agrees a info found).symm
  have past_eq : (fun a => then_.getAccountInfo a none) =
      (entries.map changeOf).foldl apply (fun a => start.getAccountInfo a none) := by
    rw [thenAccounts, entries_eq, map_append, foldl_append, unchanged, List.map_map]
    rfl
  rw [past_eq, ← foldl_append] at nowAccounts
  split_ifs with retained
  · obtain ⟨e, member, -⟩ := mem_map.mp retained
    rw [getAccountInfo_of_mem member, congrFun nowAccounts address, congrFun past_eq address,
      read_eq_iff _ (kept.map changeOf)]
    simp [changeOf]
  · have none_left : now.historyUpTo r.1 = [] := by
      obtain nil | ⟨left, found, -⟩ := suffix_concat_iff.mp (all ▸ kept)
      · exact nil
      · exact absurd (by simp [found]) retained
    rw [getAccountInfo_of_nil none_left]
    exact eq_comm

namespace Sample

def committed (p : PendingCommit) : StateCommit × Option CommitData :=
  (buildCommit .plain bundling p, none)

/-- A block that changes no account. -/
def idle (blockNumber : U64) : StateCommit × Option CommitData :=
  committed { key := ⟨blockNumber, 0, 0⟩ }

/-- A block that creates an account. -/
def funds (blockNumber : U64) (balance : Word) : StateCommit × Option CommitData :=
  committed
    { key := ⟨blockNumber, 0, 0⟩
      transitions := AList.insert 3
        { info := some { balance, codeHash := keccakEmpty }
          status := .inMemoryChange
          previousInfo := none
          previousStatus := .loadedNotExisting
          storage := ∅
          storageWasDestroyed := false } ∅ }

end Sample

/-- The history has three entries. The first commit is the one that deploys the contracts. The block
that is asked for creates the account, and the entry before it is deleted. -/
theorem historical_reads_sample :
    ∃ start then_ now,
      (opened (some ⟨3, Nat.zero_lt_succ 2, []⟩)).commitAll [funds 4294967297 5] = .ok start ∧
      start.commitAll [idle 0, funds 1 10] = .ok then_ ∧ then_.commitAll [idle 2] = .ok now ∧
      now.getAccountInfo 3 (some 1) = then_.getAccountInfo 3 none ∧
      now.codeAt 3 (some 1) = now.codeByHash (now.getAccountInfo 3 (some 1)).codeHash := by
  have runs : ((opened (some ⟨3, Nat.zero_lt_succ 2, []⟩)).commitAll [funds 4294967297 5] >>=
      fun start => start.commitAll [idle 0, funds 1 10] >>= fun then_ => then_.commitAll [idle 2] >>=
        fun now => .ok ((start.historyUpTo 1).length,
          (now.historyUpTo 1).map fun e => (e.1, decide (3 ∈ e.2)))).toOption =
      some (0, [(1, true)]) := by decide +kernel
  obtain ⟨start, deployed, rest⟩ := bind_eq_ok.mp (toOption_eq_some.mp runs)
  obtain ⟨then_, first, rest⟩ := bind_eq_ok.mp rest
  obtain ⟨now, second, rest⟩ := bind_eq_ok.mp rest
  obtain ⟨empty, entries⟩ := Prod.mk.inj (ok.inj rest)
  have empty := length_eq_zero_iff.mp empty
  have built : ∀ e ∈ [idle 0, funds 1 10] ++ [idle 2], e.1.Built := by
    simp only [cons_append, nil_append, forall_mem_cons]
    exact ⟨⟨_, _, _, rfl⟩, ⟨_, _, _, rfl⟩, ⟨_, _, _, rfl⟩, by simp⟩
  have fresh : (opened (some ⟨3, Nat.zero_lt_succ 2, []⟩)).NoEmptyCode := rfl
  have codes : start.NoEmptyCode :=
    fresh.commitAll (forall_mem_singleton.mpr ⟨_, _, _, rfl⟩) deployed
  have agrees : start.Agrees 1 := by
    rw [Agrees, empty]
    nofun
  obtain ⟨e, member, entry⟩ := mem_map.mp (entries.symm ▸ mem_singleton_self (1, true))
  obtain ⟨number, has⟩ := Prod.mk.inj entry
  obtain ⟨right, code⟩ := historical_reads (b := 1) codes agrees built (by rw [empty]; decide +kernel)
    rfl (by decide +kernel) first second 3
  refine ⟨start, then_, now, deployed, first, second, right.mpr ?_, code⟩
  rw [if_pos (mem_map.mpr ⟨e, member, number⟩)]
  exact .inl ⟨e, member, of_decide_eq_true has⟩

/-- The account is created by the block after the one that is asked for. -/
theorem historical_reads_later_change :
    ∃ then_ now,
      (opened (some ⟨2, Nat.zero_lt_two, []⟩)).commitAll [idle 1] = .ok then_ ∧
      then_.commitAll [funds 2 20] = .ok now ∧
      now.getAccountInfo 3 (some 1) = { balance := 20, codeHash := keccakEmpty } ∧
      then_.getAccountInfo 3 none = .empty := by
  have runs : ((opened (some ⟨2, Nat.zero_lt_two, []⟩)).commitAll [idle 1] >>=
      fun then_ => then_.commitAll [funds 2 20] >>= fun now =>
        .ok (now.getAccountInfo 3 (some 1), then_.getAccountInfo 3 none)).toOption =
      some ({ balance := 20, codeHash := keccakEmpty }, .empty) := by decide +kernel
  obtain ⟨then_, first, rest⟩ := bind_eq_ok.mp (toOption_eq_some.mp runs)
  obtain ⟨now, second, reads⟩ := bind_eq_ok.mp rest
  obtain ⟨late, early⟩ := Prod.mk.inj (ok.inj reads)
  exact ⟨then_, now, first, second, late, early⟩

end Mainsail.Evm
