import Mainsail.Consensus.Data
import Mainsail.Foundation.WriteQueue

/-!
# The consensus store

`consensus-storage/source/service.ts`: three tables in one database, for the state record,
the proposals and the votes of one block number. Each call of `#write` decides at once,
by comparing block numbers, whether its transaction clears the tables first, and then
hands the transaction to the database. Transactions become durable in the order in which
they were handed over. A crash keeps an initial part of them, and a restart rebuilds the
block number of the service from the state record alone.

The tables hold records, where the source holds their serialized bytes under a string key.
-/

namespace Mainsail

open Nat

/-- What the three `save` calls take. -/
inductive Record
  | state (data : StateData)
  | proposal (proposal : Proposal)
  | message (message : Message)
  deriving DecidableEq

/-- The key a record is stored under, with the table it is stored in. -/
inductive Record.Key
  | state
  | proposal (round validatorIndex : Nat)
  | message (round validatorIndex : Nat) (type : MessageType)
  deriving DecidableEq

open Record

def Proposal.key (p : Proposal) : Key := .proposal p.round p.validatorIndex

def Message.key (m : Message) : Key := .message m.round m.validatorIndex m.type

namespace Record

def key : Record → Key
  | state _ => .state
  | proposal p => p.key
  | message m => m.key

def blockNumber : Record → Nat
  | state data => data.blockNumber
  | proposal p => p.blockHeader.number
  | message m => m.blockNumber

theorem key_proposal_ne (p : Proposal) : (proposal p).key ≠ .state := by
  simp [key, Proposal.key]

theorem key_message_ne (m : Message) : (message m).key ≠ .state := by
  simp [key, Message.key]

end Record

structure Tables where
  state : Option StateData
  proposals : List Proposal
  messages : List Message
  deriving DecidableEq

/-- One transaction: `#clear` where the write replaces the stored block, then the record.
`clear()` of the service hands over a transaction without a record. -/
structure Write where
  replacesStoredBlock : Bool
  record : Option Record
  deriving DecidableEq

namespace Tables

def empty : Tables := ⟨none, [], []⟩

/-- `putSync`: the record replaces the one under the same key. -/
def put (t : Tables) : Record → Tables
  | .state data => { t with state := some data }
  | .proposal p => { t with proposals := t.proposals.filter (fun q => q.key ≠ p.key) ++ [p] }
  | .message m => { t with messages := t.messages.filter (fun x => x.key ≠ m.key) ++ [m] }

def apply (t : Tables) (w : Write) : Tables :=
  let t := if w.replacesStoredBlock then empty else t
  match w.record with
  | none => t
  | some record => t.put record

/-- The record is among those that `getState`, `getProposals` and `getMessages` return. -/
def holds (t : Tables) : Record → Prop
  | .state data => t.state = some data
  | .proposal p => p ∈ t.proposals
  | .message m => m ∈ t.messages

instance (t : Tables) : (r : Record) → Decidable (t.holds r)
  | .state data => inferInstanceAs (Decidable (t.state = some data))
  | .proposal p => inferInstanceAs (Decidable (p ∈ t.proposals))
  | .message m => inferInstanceAs (Decidable (m ∈ t.messages))

/-- Everything that is stored. -/
def records (t : Tables) : List Record :=
  t.state.toList.map .state ++ t.proposals.map .proposal ++ t.messages.map .message

variable {t : Tables} {x : Record}

@[simp] theorem mem_records {r : Record} : r ∈ t.records ↔ t.holds r := by
  cases r <;> simp [records, holds]

theorem not_holds_empty (r : Record) : ¬ empty.holds r := by
  cases r <;> simp [holds, empty]

theorem holds_put_self (t : Tables) (r : Record) : (t.put r).holds r := by
  cases r <;> simp [holds, put]

theorem holds_put_of_ne {r : Record} (h : t.holds r) (ne : r.key ≠ x.key) :
    (t.put x).holds r := by
  cases r <;> cases x <;> simp_all [holds, put, key]

theorem eq_or_holds_of_put {r : Record} (h : (t.put x).holds r) :
    r = x ∨ t.holds r ∧ r.key ≠ x.key := by
  cases r with
  | state data =>
    cases x <;> simp_all [holds, put, key, Proposal.key, Message.key]
  | proposal p =>
    cases x with
    | proposal q => simpa [holds, put, key, or_comm] using h
    | _ => exact .inr ⟨h, by simp [key, Proposal.key, Message.key]⟩
  | message m =>
    cases x with
    | message y => simpa [holds, put, key, or_comm] using h
    | _ => exact .inr ⟨h, by simp [key, Proposal.key, Message.key]⟩

end Tables

/-- The service: durable tables, transactions on their way, and `#blockNumber`. -/
structure Service where
  tables : Tables
  /-- Transactions handed over and not yet durable, oldest first. -/
  queue : List Write
  /-- The number of transactions this process has made durable. -/
  flushed : Nat
  blockNumber : Nat
  deriving DecidableEq

namespace Service

/-- `initialize`: only the state record says which block the records belong to. -/
def initializeFrom (tables : Tables) : Service where
  tables := tables
  queue := []
  flushed := 0
  blockNumber := match tables.state with
    | none => 0
    | some data => data.blockNumber

/-- `#write` up to its first `await`. -/
def write (s : Service) (record : Record) : Service :=
  { s with
    queue := s.queue ++ [⟨s.blockNumber < record.blockNumber, some record⟩]
    blockNumber := max s.blockNumber record.blockNumber }

/-- `clear` up to its first `await`. -/
def clear (s : Service) : Service :=
  { s with queue := s.queue ++ [⟨true, none⟩], blockNumber := 0 }

/-- The number a transaction handed over last has among those of the process. Its call
returns once that many are durable. -/
def issued (s : Service) : Nat := s.flushed + s.queue.length

/-- The database makes the oldest transaction durable. -/
def flush (s : Service) : Option Service :=
  match s.queue with
  | [] => none
  | w :: queue =>
    some { s with tables := s.tables.apply w, queue := queue, flushed := s.flushed + 1 }

open Tables

/-- The content once every transaction handed over is durable. -/
def latest (s : Service) : Tables := WriteQueue.settle apply s.tables s.queue

/-- Every transaction handed over is durable. -/
def settle (s : Service) : Service :=
  { s with tables := s.latest, queue := [], flushed := s.issued }

/-- A crash after the first `kept` transactions of the queue. -/
def crash (s : Service) (kept : Nat) : Tables :=
  WriteQueue.settle apply s.tables (s.queue.take kept)

/-- Every content a crash can leave has the property. -/
def Always (P : Tables → Prop) (s : Service) : Prop :=
  WriteQueue.Always apply P s.tables s.queue

/-- So has every content from the transaction with this number on. -/
def After (P : Tables → Prop) (ticket : Nat) (s : Service) : Prop :=
  WriteQueue.After apply P (ticket - s.flushed) s.tables s.queue

section Contents

variable {P Q : Tables → Prop} {s s' : Service} {r : Record} {ticket : Nat}

theorem latest_write : (s.write r).latest =
    s.latest.apply ⟨s.blockNumber < r.blockNumber, some r⟩ := by
  simp [latest, write]

theorem holds_latest_write_self : (s.write r).latest.holds r := by
  rw [latest_write]
  exact holds_put_self _ r

/-- A write that does not clear the tables leaves the records under other keys alone. -/
theorem holds_latest_write_of_ne {x : Record} (keeps : ¬ s.blockNumber < r.blockNumber)
    (held : s.latest.holds x) (ne : x.key ≠ r.key) : (s.write r).latest.holds x := by
  rw [latest_write]
  simp only [apply, keeps, decide_false, Bool.false_eq_true, if_false]
  exact holds_put_of_ne held ne

/-- A stored record was there before a write, or is what was written. -/
theorem eq_or_holds_of_latest_write {x : Record} (h : (s.write r).latest.holds x) :
    x = r ∨ ¬ s.blockNumber < r.blockNumber ∧ s.latest.holds x ∧ x.key ≠ r.key := by
  rw [latest_write] at h
  rcases eq_or_holds_of_put h with same | ⟨old, other⟩
  · exact .inl same
  · by_cases clears : s.blockNumber < r.blockNumber
    · simp only [clears, decide_true, if_true] at old
      exact absurd old (not_holds_empty x)
    · simp only [clears, decide_false, Bool.false_eq_true, if_false] at old
      exact .inr ⟨clears, old, other⟩

theorem latest_flush (h : s.flush = some s') : s'.latest = s.latest := by
  unfold flush at h
  split at h
  · contradiction
  · next w queue pending =>
      cases h
      simp [latest, pending]

@[simp] theorem latest_initializeFrom (t : Tables) : (initializeFrom t).latest = t := rfl

theorem Always.imp (h : s.Always P) (imp : ∀ t, P t → Q t) : s.Always Q :=
  WriteQueue.Always.imp h imp

theorem Always.crash (h : s.Always P) (kept : Nat) : P (s.crash kept) :=
  WriteQueue.Always.take h kept

theorem Always.latest (h : s.Always P) : P s.latest := WriteQueue.Always.settle h

/-- A further transaction adds one content: the latest. -/
theorem always_write : (s.write r).Always P ↔ s.Always P ∧ P (s.write r).latest := by
  rw [latest_write]
  exact WriteQueue.always_append_singleton

theorem Always.flush (h : s.Always P) (flushed : s.flush = some s') : s'.Always P := by
  unfold Service.flush at flushed
  split at flushed
  · contradiction
  · next w queue pending =>
      cases flushed
      unfold Always at h
      rw [pending] at h
      exact h.2

/-- A property of the latest content holds from the transaction just handed over on. -/
theorem after_issued_write : (s.write r).After P (s.write r).issued ↔ P (s.write r).latest := by
  have count : (s.write r).issued - s.flushed = s.queue.length + 1 := by
    simp [issued, write]
  rw [latest_write, After]
  simp only [show (s.write r).flushed = s.flushed from rfl, count]
  exact WriteQueue.after_issued

section

variable (h : s.After P ticket)
include h

theorem After.write (known : ticket ≤ s.issued)
    (latest : P (s.write r).latest) : (s.write r).After P ticket := by
  rw [latest_write] at latest
  have within : ticket - s.flushed ≤ s.queue.length := by
    unfold issued at known
    omega
  exact (WriteQueue.after_append_singleton within).mpr ⟨h, latest⟩

theorem After.flush (flushed : s.flush = some s') : s'.After P ticket := by
  unfold Service.flush at flushed
  split at flushed
  · contradiction
  · next w queue pending =>
      cases flushed
      unfold After at h
      rw [pending] at h
      have := h.flush
      rwa [Nat.sub_sub] at this

/-- Once the transaction is durable, every content has the property. -/
theorem After.always (durable : ticket ≤ s.flushed) : s.Always P := by
  unfold After at h
  rwa [Nat.sub_eq_zero_of_le durable] at h

end

theorem issued_write : (s.write r).issued = s.issued + 1 := by
  simp [issued, write, add_assoc]

theorem issued_flush (h : s.flush = some s') : s'.issued = s.issued := by
  unfold flush at h
  split at h
  · contradiction
  · next w queue pending =>
      cases h
      simp [issued, pending]
      omega

theorem blockNumber_flush (h : s.flush = some s') : s'.blockNumber = s.blockNumber := by
  unfold flush at h
  split at h
  · contradiction
  · cases h
    rfl

end Contents

end Service

/-! ## Retention -/

namespace Service

/-- Awaited calls on the service, and its restart over the same files. -/
inductive Op
  | save (record : Record)
  | clear
  | restart
  deriving DecidableEq

def op (s : Service) : Op → Service
  | .save record => (s.write record).settle
  | .clear => s.clear.settle
  | .restart => initializeFrom s.tables

/-- The calls that may end the life of a stored record. -/
def Ends (r : Record) : Op → Prop
  | .save x => x.key = r.key ∧ x.blockNumber = r.blockNumber ∨ r.blockNumber < x.blockNumber
  | .clear => True
  | .restart => False

instance (r : Record) : (o : Op) → Decidable (Ends r o)
  | .save _ => inferInstanceAs (Decidable (_ ∨ _))
  | .clear => inferInstanceAs (Decidable True)
  | .restart => inferInstanceAs (Decidable False)

/-- A record saved is returned until one of the calls that may end its life. -/
def Retains (before after : List Op) (r : Record) : Prop :=
  (∀ o ∈ after, ¬ Ends r o) →
    ((before ++ .save r :: after).foldl op (initializeFrom .empty)).tables.holds r

instance (before after : List Op) (r : Record) : Decidable (Retains before after r) :=
  inferInstanceAs (Decidable (_ → _))

/-- Where the service does retain: a restart finds every record at or below the block
number of the state record, and a save does not go below the record it replaces. -/
def Sound (s : Service) : Op → Prop
  | .save x => ∀ r ∈ s.tables.records, r.key = x.key → r.blockNumber ≤ x.blockNumber
  | .clear => True
  | .restart => ∀ r ∈ s.tables.records, ∃ data ∈ s.tables.state, r.blockNumber ≤ data.blockNumber

instance (s : Service) : (o : Op) → Decidable (s.Sound o)
  | .save x => inferInstanceAs
      (Decidable (∀ r ∈ s.tables.records, r.key = x.key → r.blockNumber ≤ x.blockNumber))
  | .clear => inferInstanceAs (Decidable True)
  | .restart => inferInstanceAs (Decidable
      (∀ r ∈ s.tables.records, ∃ data ∈ s.tables.state, r.blockNumber ≤ data.blockNumber))

/-- The calls are sound one after the other. -/
def SoundRun : Service → List Op → Prop
  | _, [] => True
  | s, o :: os => s.Sound o ∧ SoundRun (s.op o) os

instance decidableSoundRun : (s : Service) → (os : List Op) → Decidable (SoundRun s os)
  | _, [] => inferInstanceAs (Decidable True)
  | s, o :: os => @instDecidableAnd _ _ _ (decidableSoundRun (s.op o) os)

/-- Between awaited calls nothing is queued and no record is above `#blockNumber`. -/
structure Settled (s : Service) : Prop where
  queue : s.queue = []
  bound : ∀ r, s.tables.holds r → r.blockNumber ≤ s.blockNumber

theorem settled_empty : Settled (initializeFrom .empty) where
  queue := rfl
  bound := fun r h => absurd h (Tables.not_holds_empty r)

variable {s : Service}

theorem tables_op_save (h : s.queue = []) (x : Record) : (s.op (.save x)).tables =
      if s.blockNumber < x.blockNumber then Tables.empty.put x else s.tables.put x := by
  by_cases gt : s.blockNumber < x.blockNumber <;>
    simp [op, write, settle, latest, h, gt, Tables.apply]

section

variable (h : Settled s)
include h

variable {o : Op} {os : List Op}

theorem Settled.op (sound : s.Sound o) : Settled (s.op o) := by
  cases o with
  | save x =>
    refine ⟨rfl, ?_⟩
    intro r held
    rw [tables_op_save h.queue] at held
    change r.blockNumber ≤ max s.blockNumber x.blockNumber
    split at held
    · rcases Tables.eq_or_holds_of_put held with rfl | ⟨none, -⟩
      · exact le_max_right ..
      · exact absurd none (Tables.not_holds_empty r)
    · rcases Tables.eq_or_holds_of_put held with rfl | ⟨old, -⟩
      · exact le_max_right ..
      · exact le_trans (h.bound r old) (le_max_left ..)
  | clear =>
    refine ⟨rfl, ?_⟩
    intro r held
    have : (s.op .clear).tables = .empty := by
      simp [Service.op, Service.clear, settle, latest, h.queue, Tables.apply]
    exact absurd (this ▸ held) (Tables.not_holds_empty r)
  | restart =>
    refine ⟨rfl, ?_⟩
    intro r held
    obtain ⟨data, stored, le⟩ := sound r (Tables.mem_records.mpr held)
    change r.blockNumber ≤ (initializeFrom s.tables).blockNumber
    rw [Option.mem_def] at stored
    simpa [initializeFrom, stored] using le

/-- One sound call keeps a record whose life it does not end. -/
theorem Settled.holds_op (sound : s.Sound o) {r : Record}
    (held : s.tables.holds r) (lives : ¬ Ends r o) : (s.op o).tables.holds r := by
  cases o with
  | save x =>
    have notAbove : x.blockNumber ≤ r.blockNumber := by
      by_contra above
      exact lives (.inr (by omega))
    have otherKey : r.key ≠ x.key := by
      intro same
      have := sound r (Tables.mem_records.mpr held) same
      exact lives (.inl ⟨same.symm, by omega⟩)
    -- The record bounds the block number of the service, so nothing is cleared.
    have noClear : ¬ s.blockNumber < x.blockNumber := by
      have := h.bound r held
      omega
    rw [tables_op_save h.queue, if_neg noClear]
    exact Tables.holds_put_of_ne held otherKey
  | clear => exact absurd trivial lives
  | restart => exact held

theorem Settled.holds_foldl (sound : SoundRun s os) {r : Record} (held : s.tables.holds r)
    (live : ∀ o ∈ os, ¬ Ends r o) : (os.foldl Service.op s).tables.holds r := by
  induction os generalizing s with
  | nil => exact held
  | cons o os ih =>
    refine ih (h.op sound.1) sound.2 (h.holds_op sound.1 held (live o (by simp))) ?_
    intro o' member
    exact live o' (List.mem_cons_of_mem _ member)

theorem Settled.foldl (sound : SoundRun s os) :
    Settled (os.foldl Service.op s) := by
  induction os generalizing s with
  | nil => exact h
  | cons o os ih => exact ih (h.op sound.1) sound.2

end

theorem SoundRun.append {os os' : List Op} (h : SoundRun s (os ++ os')) :
    SoundRun s os ∧ SoundRun (os.foldl op s) os' := by
  induction os generalizing s with
  | nil => exact ⟨trivial, h⟩
  | cons o os ih =>
    obtain ⟨first, second⟩ := ih h.2
    exact ⟨⟨h.1, first⟩, second⟩

/-- In every run of sound calls and restarts, a saved record is returned until it is
overwritten at its own block number, a higher block number is written, or the store is
cleared. -/
theorem retains_of_soundRun (before after : List Op) (r : Record)
    (sound : SoundRun (initializeFrom .empty) (before ++ .save r :: after)) :
    Retains before after r := by
  intro live
  obtain ⟨soundBefore, soundRest⟩ := sound.append
  have settled := settled_empty.foldl soundBefore
  rw [List.foldl_append, List.foldl_cons]
  refine (settled.op soundRest.1).holds_foldl soundRest.2 ?_ live
  rw [tables_op_save settled.queue]
  split <;> exact Tables.holds_put_self ..

/-- The proposal of round 0 is saved before its block number has a state record. -/
def roundZeroProposal : Proposal := .fresh ⟨1, [7], 0⟩ 0 3 []

/-- With a state record, a restart between the two saves does no harm. -/
theorem retains_roundZeroProposal_of_state : Retains [.save (.state ⟨1, 0, .prevote, none, none⟩)]
      [.restart, .save (.message ⟨.prevote, 1, 0, none, 4, []⟩)]
      (.proposal roundZeroProposal) :=
  retains_of_soundRun _ _ _ (by decide)

/-- Without one the restarted service takes block number 1 for a new block, and the next
record of block number 1 drops the proposal. -/
theorem not_forall_retains : ¬ ∀ before after r, Retains before after r := by
  intro h
  exact absurd
    (h [] [.restart, .save (.message ⟨.prevote, 1, 0, none, 4, []⟩)] (.proposal roundZeroProposal))
    (by decide)

end Service

end Mainsail
