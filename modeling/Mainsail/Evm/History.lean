import Mainsail.Evm.StateCommit

/-!
# Account history

`historical.rs`: for each of the last blocks, the accounts that the block changed. A read walks the
blocks backwards until it finds the account.
-/

namespace Mainsail.Evm

/-- An account that does not exist. -/
def AccountInfo.empty : AccountInfo := { codeHash := keccakEmpty }

/-- The accounts that one block changed, those that it destroyed as empty ones. -/
abbrev HistoricalAccounts := Std.ExtTreeMap Address AccountInfo

structure AccountHistory where
  capacity : Nat
  capacity_pos : 0 < capacity
  /-- The entries in the order of their block numbers. -/
  table : List (U64 × HistoricalAccounts) := []

namespace AccountHistory

variable (h : AccountHistory)

def collect (accounts : List (Address × AccountInfo)) : HistoricalAccounts :=
  accounts.foldl (fun data e => data.insert e.1 e.2) ∅

/-- Put an entry in its place. -/
def put (table : List (U64 × HistoricalAccounts)) (blockNumber : U64) (data : HistoricalAccounts) :
    List (U64 × HistoricalAccounts) :=
  table.filter (·.1 < blockNumber) ++ (blockNumber, data) :: table.filter (blockNumber < ·.1)

def insert (blockNumber : U64) (accounts : List (Address × AccountInfo)) :
    Except DbError AccountHistory :=
  if h.table.any (·.1 = blockNumber) then .error .historyExists
  else
    -- The oldest entries are deleted.
    let table :=
      if h.capacity ≤ h.table.length then
        h.table.filter fun e => ¬ e.1.val ≤ blockNumber.val - h.capacity
      else h.table
    .ok { h with table := put table blockNumber (collect accounts) }

/-- The entries from the last one on, and whether one has been passed. -/
def walk (address : Address) (missingFallback : Bool) :
    List (U64 × HistoricalAccounts) → Option AccountInfo × Bool
  | [] => (none, missingFallback)
  | (_, history) :: rest =>
    match history[address]? with
    | some data => (some data, false)
    | none => walk address true rest

def getByBlockAndAddress (blockNumber : U64) (address : Address) : Option AccountInfo × Bool :=
  walk address false (h.table.filter (·.1 ≤ blockNumber)).reverse

/-- The walk ends at the newest entry that has the account. -/
theorem walk_eq (address : Address) (missing : Bool) (l : List (U64 × HistoricalAccounts)) :
    walk address missing l =
      match l.findSome? (·.2[address]?) with
      | some info => (some info, false)
      | none => (none, missing || !l.isEmpty) := by
  induction l generalizing missing with
  | nil => simp [walk]
  | cons e l ih =>
    unfold walk
    rw [List.findSome?_cons]
    cases e.2[address]? with
    | some data => rfl
    | none =>
      refine (ih true).trans ?_
      simp

end AccountHistory

end Mainsail.Evm
