import Mainsail.Evm.Execution

/-!
# Reads through a cache

A cache as revm keeps it: an account is loaded when it is first read, with its slots and codes as they
are asked for, and an account that has been touched is read from the cache. It has the properties that
are assumed of revm.
-/

namespace Mainsail.Evm

open CacheState

/-! ## Reads -/

def AccountStatus.isStorageKnown : AccountStatus → Bool
  | loadedNotExisting | inMemoryChange | destroyed | destroyedChanged | destroyedAgain => true
  | loaded | loadedEmptyEIP161 | changed => false

def AccountInfo.isEmpty (info : AccountInfo) : Bool :=
  info.balance = 0 ∧ info.nonce = 0 ∧ (info.codeHash = keccakEmpty ∨ info.codeHash = 0)

/-- An account as it is loaded. -/
def CacheAccount.ofDatabase : Option AccountInfo → CacheAccount
  | none => { info := none, status := .loadedNotExisting }
  | some info =>
    if info.isEmpty then
      { info := some { AccountInfo.empty with code := some [] }, status := .loadedEmptyEIP161 }
    else { info := some { info with }, status := .loaded }

def CacheState.setAccount (c : CacheState) (address : Address) (account : CacheAccount) :
    CacheState :=
  { c with accounts := c.accounts.insert address account }

/-- A read of the database. -/
def Session.fetch {α : Type} (s : Session) (value : Except DbError α) :
    Session × Except EvmError α :=
  let s' := { s with faults := s.faults.tail }
  match s.faults.head?, value with
  | some true, _ | _, .error _ => (s', .error .database)
  | _, .ok value => (s', .ok value)

namespace PersistentDb

variable (db : PersistentDb)

def blockHash (number : U64) : Word := ((db.chain.blocks number).map (·.hash)).getD 0

/-- `load_cache_account`. -/
def loadCacheAccount (s : Session) (address : Address) : Session × Except EvmError CacheAccount :=
  match s.cache.accounts.lookup address with
  | some account => (s, .ok account)
  | none =>
    match s.fetch (.ok (db.accounts address)) with
    | (s, .error e) => (s, .error e)
    | (s, .ok info) =>
      let account := CacheAccount.ofDatabase info
      ({ s with cache := s.cache.setAccount address account }, .ok account)

/-- A slot of an account that is loaded. -/
def readSlot (s : Session) (address : Address) (index : Word) (account : CacheAccount) :
    Session × Except EvmError Word :=
  let insert (s : Session) (value : Word) : Session :=
    let account := { account with storage := account.storage.insert index value }
    { s with cache := s.cache.setAccount address account }
  match account.info, account.storage.lookup index with
  | none, _ => (s, .ok 0)
  | some _, some value => (s, .ok value)
  | some _, none =>
    if account.status.isStorageKnown then (insert s 0, .ok 0)
    else
      match s.fetch (storageRef db.storage address index) with
      | (s, .error e) => (s, .error e)
      | (s, .ok value) => (insert s value, .ok value)

def basic (s : Session) (address : Address) : Session × Except EvmError (Option LoadedInfo) :=
  match db.loadCacheAccount s address with
  | (s, .ok account) => (s, .ok account.info)
  | (s, .error e) => (s, .error e)

def storageAt (s : Session) (address : Address) (index : Word) : Session × Except EvmError Word :=
  match db.loadCacheAccount s address with
  | (s, .ok account) => db.readSlot s address index account
  | (s, .error e) => (s, .error e)

def codeFor (s : Session) (codeHash : Word) : Session × Except EvmError Bytes :=
  match s.cache.contracts.lookup codeHash with
  | some code => (s, .ok code)
  | none =>
    match s.fetch (.ok (db.codeByHash codeHash)) with
    | (s, .error e) => (s, .error e)
    | (s, .ok code) =>
      ({ s with cache.contracts := s.cache.contracts.insert codeHash code }, .ok code)

def read (s : Session) : (q : Query) → Session × Except EvmError q.Answer
  | .basic address => db.basic s address
  | .storage address index => db.storageAt s address index
  | .codeByHash codeHash => db.codeFor s codeHash
  | .blockHash number => s.fetch (.ok (db.blockHash number))

end PersistentDb

/-! ## Views -/

namespace CacheState

variable (db : PersistentDb) (c : CacheState)

/-- An account as a read finds it. -/
def account (address : Address) : CacheAccount :=
  (c.accounts.lookup address).getD (.ofDatabase (db.accounts address))

/-- The value of a slot of an account. -/
def slotOf (address : Address) (account : CacheAccount) (index : Word) : Word :=
  match account.info, account.storage.lookup index with
  | none, _ => 0
  | some _, some value => value
  | some _, none =>
    if account.status.isStorageKnown then 0
    else (storageRef db.storage address index).toOption.getD 0

/-- What is read through the cache. -/
def view : (q : Query) → q.Answer
  | .basic address => (c.account db address).info
  | .storage address index => slotOf db address (c.account db address) index
  | .codeByHash codeHash => (c.contracts.lookup codeHash).getD (db.codeByHash codeHash)
  | .blockHash number => db.blockHash number

variable {db c}

theorem account_setAccount (address a : Address) (account : CacheAccount) :
    (c.setAccount address account).account db a =
      if a = address then account else c.account db a := by
  unfold CacheState.account setAccount
  split_ifs with here
  · rw [here, AList.lookup_insert]
    rfl
  · rw [AList.lookup_insert_ne here]

end CacheState

/-- What is read stays the same when something is loaded, and what is in the cache stays there. -/
structure Loads (db : PersistentDb) (c c' : CacheState) : Prop where
  view : c'.view db = c.view db
  cached : ∀ a ∈ c.accounts, a ∈ c'.accounts

section

variable {db : PersistentDb} {c c' c'' : CacheState} {s s' : Session} {address : Address}

namespace Loads

theorem of_eq (same : c' = c) : Loads db c c' := same ▸ ⟨rfl, fun _ => id⟩

theorem trans (first : Loads db c c') (second : Loads db c' c'') : Loads db c c'' :=
  ⟨second.view.trans first.view, fun a member => second.cached a (first.cached a member)⟩

/-- An account that is read as before. -/
theorem setAccount {account : CacheAccount} (info : account.info = (c.account db address).info)
    (slots : slotOf db address account = slotOf db address (c.account db address)) :
    Loads db c (c.setAccount address account) := by
  refine ⟨?_, fun a member => (AList.mem_insert _).mpr (.inr member)⟩
  funext q
  cases q with
  | basic a =>
    change ((c.setAccount address account).account db a).info = (c.account db a).info
    rw [account_setAccount]
    split_ifs with here
    · rw [info, here]
    · rfl
  | storage a index =>
    change slotOf db a ((c.setAccount address account).account db a) index =
      slotOf db a (c.account db a) index
    rw [account_setAccount]
    split_ifs with here
    · rw [here, slots]
    · rfl
  | codeByHash | blockHash => rfl

/-- A slot that is put into the cache has the value that it has already. -/
theorem insert_slot {index value : Word} {info : LoadedInfo}
    (exists_ : (c.account db address).info = some info)
    (value_eq : slotOf db address (c.account db address) index = value) :
    Loads db c (c.setAccount address { c.account db address with
      storage := (c.account db address).storage.insert index value }) := by
  refine setAccount rfl ?_
  funext i
  subst value_eq
  unfold slotOf
  dsimp only
  rw [exists_]
  by_cases same : i = index
  · subst same
    rw [AList.lookup_insert]
  · rw [AList.lookup_insert_ne same]

end Loads

namespace Session

theorem fetch_cache {α : Type} (s : Session) (value : Except DbError α) :
    (s.fetch value).1.cache = s.cache := by
  unfold fetch
  dsimp only
  split <;> rfl

theorem cache_of_fetch {α : Type} {value : Except DbError α} {result : Except EvmError α}
    (h : s.fetch value = (s', result)) : s'.cache = s.cache := by
  rw [← s.fetch_cache value, h]

theorem fetch_eq_ok {α : Type} {value : Except DbError α} {a : α}
    (h : s.fetch value = (s', .ok a)) : value = .ok a := by
  unfold fetch at h
  dsimp only at h
  split at h
  · cases h
  · cases h
  · cases h
    rfl

end Session

open Session

namespace PersistentDb

/-- Loading an account gives the account that the cache has or is to have. -/
theorem loadCacheAccount_spec (db : PersistentDb) (s : Session) (address : Address) :
    (∀ a, (db.loadCacheAccount s address).1.cache.account db a = s.cache.account db a) ∧
      Loads db s.cache (db.loadCacheAccount s address).1.cache ∧
      ∀ account, (db.loadCacheAccount s address).2 = .ok account →
        account = s.cache.account db address := by
  unfold loadCacheAccount
  split
  · next account found =>
      refine ⟨fun _ => rfl, .of_eq rfl, ?_⟩
      rintro account' ⟨⟩
      unfold CacheState.account
      rw [found, Option.getD_some]
  · next absent =>
      have account : s.cache.account db address = .ofDatabase (db.accounts address) := by
        unfold account
        rw [absent, Option.getD_none]
      split
      · next s' e fetched =>
          have cache := cache_of_fetch fetched
          exact ⟨fun _ => by rw [cache], .of_eq cache, by simp⟩
      · next s' info fetched =>
          obtain rfl : db.accounts address = info := Except.ok.inj (fetch_eq_ok fetched)
          dsimp only
          rw [cache_of_fetch fetched, ← account]
          refine ⟨?_, .setAccount rfl rfl, ?_⟩
          · intro a
            rw [account_setAccount]
            split_ifs with here
            · rw [here]
            · rfl
          · rintro account' ⟨⟩
            rfl

theorem readSlot_spec (db : PersistentDb) (s : Session) (address : Address) (index : Word) :
    Loads db s.cache (db.readSlot s address index (s.cache.account db address)).1.cache ∧
      ∀ value, (db.readSlot s address index (s.cache.account db address)).2 = .ok value →
        value = slotOf db address (s.cache.account db address) index := by
  unfold readSlot
  dsimp only
  split
  · next none_ =>
      refine ⟨.of_eq rfl, ?_⟩
      rintro value ⟨⟩
      unfold slotOf
      rw [none_]
  · next value some_ found =>
      refine ⟨.of_eq rfl, ?_⟩
      rintro value ⟨⟩
      unfold slotOf
      rw [some_, found]
  · next info some_ absent =>
      split_ifs with known
      · have zero : slotOf db address (s.cache.account db address) index = 0 := by
          unfold slotOf
          rw [some_, absent]
          exact if_pos known
        refine ⟨.insert_slot some_ zero, ?_⟩
        rintro value ⟨⟩
        exact zero.symm
      · split
        · next s' e fetched => exact ⟨.of_eq (cache_of_fetch fetched), by simp⟩
        · next s' value fetched =>
            have slot : slotOf db address (s.cache.account db address) index = value := by
              unfold slotOf
              rw [some_, absent]
              dsimp only
              rw [if_neg known, fetch_eq_ok fetched]
              rfl
            dsimp only
            rw [cache_of_fetch fetched]
            refine ⟨.insert_slot some_ slot, ?_⟩
            rintro value ⟨⟩
            exact slot.symm

theorem basic_spec (db : PersistentDb) (s : Session) (address : Address) :
    Loads db s.cache (db.basic s address).1.cache ∧
      ∀ info, (db.basic s address).2 = .ok info → info = (s.cache.account db address).info := by
  obtain ⟨-, loads, gives⟩ := db.loadCacheAccount_spec s address
  unfold basic
  split
  · next s' account loaded =>
      rw [loaded] at loads gives
      refine ⟨loads, ?_⟩
      rintro info ⟨⟩
      rw [gives account rfl]
  · next s' e loaded =>
      rw [loaded] at loads
      exact ⟨loads, by simp⟩

theorem storageAt_spec (db : PersistentDb) (s : Session) (address : Address) (index : Word) :
    Loads db s.cache (db.storageAt s address index).1.cache ∧
      ∀ value, (db.storageAt s address index).2 = .ok value →
        value = slotOf db address (s.cache.account db address) index := by
  obtain ⟨same, loads, gives⟩ := db.loadCacheAccount_spec s address
  unfold storageAt
  split
  · next s' account loaded =>
      rw [loaded] at same loads gives
      obtain rfl : account = s'.cache.account db address :=
        (gives account rfl).trans (same address).symm
      obtain ⟨loads', answer⟩ := db.readSlot_spec s' address index
      refine ⟨loads.trans loads', ?_⟩
      intro value read
      rw [answer value read, same]
  · next s' e loaded =>
      rw [loaded] at loads
      exact ⟨loads, by simp⟩

theorem codeFor_spec (db : PersistentDb) (s : Session) (codeHash : Word) :
    Loads db s.cache (db.codeFor s codeHash).1.cache ∧
      ∀ code, (db.codeFor s codeHash).2 = .ok code →
        code = (s.cache.contracts.lookup codeHash).getD (db.codeByHash codeHash) := by
  unfold codeFor
  split
  · next code found =>
      refine ⟨.of_eq rfl, ?_⟩
      rintro code ⟨⟩
      rw [found, Option.getD_some]
  · next absent =>
      split
      · next s' e fetched => exact ⟨.of_eq (cache_of_fetch fetched), by simp⟩
      · next s' code fetched =>
          obtain rfl : db.codeByHash codeHash = code := Except.ok.inj (fetch_eq_ok fetched)
          dsimp only
          rw [cache_of_fetch fetched]
          refine ⟨⟨?_, fun _ => id⟩, ?_⟩
          · funext q
            cases q with
            | codeByHash h =>
              change ((s.cache.contracts.insert codeHash (db.codeByHash codeHash)).lookup h).getD _ =
                (s.cache.contracts.lookup h).getD _
              by_cases same : h = codeHash
              · rw [same, AList.lookup_insert, absent]
                rfl
              · rw [AList.lookup_insert_ne same]
            | basic | storage | blockHash => rfl
          · rintro code ⟨⟩
            rw [absent, Option.getD_none]

theorem read_spec (db : PersistentDb) (s : Session) (q : Query) :
    Loads db s.cache (db.read s q).1.cache ∧
      ∀ a, (db.read s q).2 = .ok a → a = s.cache.view db q := by
  cases q with
  | basic address => exact db.basic_spec s address
  | storage address index => exact db.storageAt_spec s address index
  | codeByHash codeHash => exact db.codeFor_spec s codeHash
  | blockHash number =>
    refine ⟨.of_eq (s.fetch_cache _), fun a fetched => ?_⟩
    exact (Except.ok.inj (fetch_eq_ok (Prod.ext rfl fetched))).symm

end PersistentDb

end

/-! ## Changes -/

def CacheAccount.touch (account : CacheAccount) (t : Touch) : CacheAccount where
  info := t.info
  status := t.status
  storage := Unordered.insertAll (if t.fresh then ∅ else account.storage)
    (t.storage.entries.map fun e => ⟨e.1, e.2.presentValue⟩)

def CacheAccount.transition (account : CacheAccount) (t : Touch) : Option TransitionAccount :=
  if account.info.isSome || t.info.isSome || t.listed then
    some
      { info := t.info
        status := t.status
        previousInfo := account.info
        previousStatus := account.status
        storage := t.storage
        storageWasDestroyed := t.storageWasDestroyed }
  else none

namespace TransitionAccount

def updateSlot (storage : HashMap Word StorageSlot) (e : Sigma fun _ : Word => StorageSlot) :
    HashMap Word StorageSlot :=
  match storage.lookup e.1 with
  | none => storage.insert e.1 e.2
  | some value =>
    if value.previousOrOriginalValue = e.2.presentValue then storage.erase e.1
    else storage.insert e.1 { value with presentValue := e.2.presentValue }

/-- The first transition of an account with a later one. -/
def update (t other : TransitionAccount) : TransitionAccount :=
  if other.status = .destroyed ∨ other.status = .destroyedAgain then
    { t with
      info := other.info
      status := other.status
      storage := other.storage
      storageWasDestroyed := true }
  else
    { t with
      info := other.info
      status := other.status
      storage := other.storage.entries.foldl updateSlot t.storage }

end TransitionAccount

def addTransition (transitions : HashMap Address TransitionAccount) (address : Address)
    (t : TransitionAccount) : HashMap Address TransitionAccount :=
  match transitions.lookup address with
  | none => transitions.insert address t
  | some first => transitions.insert address (first.update t)

/-- An account that is credited. One that is still empty is removed. -/
def reward (info : Option LoadedInfo) (amount : Nat) : Touch :=
  let info := info.getD { AccountInfo.empty with code := some [] }
  let info := { info with balance := Fin.ofNat _ (min (info.balance.val + amount) (2 ^ 256 - 1)) }
  if info.isEmpty then
    { info := none, status := .changed, storageWasDestroyed := true, listed := false }
  else { info := some info, status := .changed }

theorem worth_ofDatabase (info : Option AccountInfo) :
    worth ((CacheAccount.ofDatabase info).info.map (·.toAccountInfo)) = worth info := by
  cases info with
  | none => rfl
  | some info =>
    unfold CacheAccount.ofDatabase
    dsimp only
    split_ifs with empty
    · have zero : info.balance = 0 := (of_decide_eq_true empty).1
      simp [worth, zero, AccountInfo.empty]
    · rfl

theorem worth_reward (info : Option LoadedInfo) (amount : Nat) :
    worth ((reward info amount).info.map (·.toAccountInfo)) =
      min (worth (info.map (·.toAccountInfo)) + amount) (2 ^ 256 - 1) := by
  have before : worth (info.map (·.toAccountInfo)) =
      (info.getD { AccountInfo.empty with code := some [] }).balance.val := by
    cases info <;> rfl
  rw [before]
  unfold reward
  dsimp only
  generalize (info.getD { AccountInfo.empty with code := some [] }).balance.val = balance
  have small : min (balance + amount) (2 ^ 256 - 1) < 2 ^ 256 := by omega
  split_ifs with empty
  · have zero := congrArg Fin.val (of_decide_eq_true empty).1
    rw [Fin.val_ofNat, Nat.mod_eq_of_lt small] at zero
    exact zero.symm
  · exact Nat.mod_eq_of_lt small

/-- An account that is set is read as it is, and its transition starts from what was read before. -/
theorem CacheState.setAccount_sets (db : PersistentDb) (c : CacheState) (e : Address × Touch) :
    Sets (fun c a => (c.account db a).info) e.1 e.2.info c
      (c.setAccount e.1 ((c.account db e.1).touch e.2)) ((c.account db e.1).transition e.2) where
  account a := by
    rw [account_setAccount, apply_ite CacheAccount.info]
    rfl
  cached a := AList.mem_insert _
  listed := by
    intro t made
    obtain ⟨-, made⟩ := Option.ite_none_right_eq_some.mp made
    obtain rfl := Option.some.inj made
    exact ⟨rfl, rfl⟩
  unlisted := by
    intro none
    unfold CacheAccount.transition at none
    split_ifs at none with listed
    simp only [Bool.or_eq_true, not_or, Bool.not_eq_true, Option.isSome_eq_false_iff,
      Option.isNone_iff_eq_none] at listed
    rw [listed.1.1, listed.1.2]

namespace Sample

def revm : Revm where
  toBundling := bundling
  view db c := c.view db
  read db := db.read
  commit db c e := (c.setAccount e.1 ((c.account db e.1).touch e.2), (c.account db e.1).transition e.2)
  reward := reward
  addTransition := addTransition
  sound db :=
    { view_read := fun s q => (db.read_spec s q).1.view
      answer := fun s q => (db.read_spec s q).2 }
  read_cached db s q := (db.read_spec s q).1.cached
  worth_fresh db a := worth_ofDatabase (db.accounts a)
  commit_sets db c e := c.setAccount_sets db e
  worth_reward := worth_reward
  addTransition_self := by
    intro transitions address t
    unfold addTransition
    split
    · next none => exact ⟨t, AList.lookup_insert _, rfl, by rw [none]; rfl⟩
    · next first found =>
        refine ⟨first.update t, AList.lookup_insert _, ?_⟩
        rw [found]
        unfold TransitionAccount.update
        split_ifs <;> exact ⟨rfl, rfl⟩
  addTransition_ne := by
    intro transitions address t a other
    unfold addTransition
    split <;> exact AList.lookup_insert_ne other

end Sample

end Mainsail.Evm
