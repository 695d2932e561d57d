import Mainsail.Contracts.VoteUpdates
import Mainsail.Evm.Balances
import Mainsail.Evm.Dropped

/-!
# Vote weights are balances

The consensus contract keeps the balance of each voter. It is written when the account votes, and
brought up to date at the end of each block, for the accounts in the cache of the pending commit. An
account that a block has changed is in the cache, so after the block every recorded balance is the
balance of the account.
-/

namespace Mainsail

open ConsensusV1 Sample State Except Function
open ConsensusV1.Message (NonzeroValidator)

namespace ConsensusV1

variable {precompiles : Precompiles} {s s' s'' : State} {m : ConsensusV1.Message}

/-! ## What a call records -/

/-- A vote that a call has changed is gone, or has the balance of the account at the call. -/
def Recorded (m : ConsensusV1.Message) (s s' : State) : Prop :=
  ∀ a, s'.content a = s.content a ∨ (s'.voters a).validator = 0 ∨
    (s'.voters a).balance = m.balances a

namespace Recorded

theorem of_voters_eq (h : s'.voters = s.voters) : Recorded m s s' :=
  fun a => .inl (congrFun (content_of_voters_eq h) a)

theorem trans (first : Recorded m s s') (second : Recorded m s' s'') : Recorded m s s'' := by
  intro a
  obtain same | changed := second a
  · have votes : (s''.voters a).validator = (s'.voters a).validator ∧
        (s''.voters a).balance = (s'.voters a).balance := Prod.mk.inj same
    rw [same, votes.1, votes.2]
    exact first a
  · exact .inr changed

theorem of_content {addr validator : Address} {balance : Nat}
    (content : s'.content = update s.content addr (validator, balance))
    (new : validator = 0 ∨ balance = m.balances addr) : Recorded m s s' := by
  intro a
  by_cases here : a = addr
  · subst here
    obtain ⟨votes, recorded⟩ := changed_of_content content
    rw [votes, recorded]
    exact .inr new
  · exact .inl ((congrFun content a).trans (update_of_ne here ..))

end Recorded

theorem Change.recorded (change : Change precompiles m s s') : Recorded m s s' := by
  obtain same | votes := change.sameVotes_or_votes
  · exact .of_voters_eq same.voters
  · cases votes with
    | recordVote => exact .of_content (voted_content ..) (.inr rfl)
    | unvote => exact .of_content (unvoted_content _) (.inl rfl)
    | updateVoter => exact .of_content (updated_content ..) (.inr rfl)

theorem step_recorded (h : step precompiles s m = .ok s') : Recorded m s s' := by
  have changes := step_changes h
  clear h
  induction changes with
  | refl => exact .of_voters_eq rfl
  | tail _ change ih => exact ih.trans change.recorded

/-- An update reaches every voter in its list. -/
theorem step_updateVoters {voters : List Address} (call : m.call = .updateVoters voters)
    (h : step precompiles s m = .ok s') {a : Address} (member : a ∈ voters)
    (voter : (s'.voters a).validator ≠ 0) : (s'.voters a).balance = m.balances a := by
  have h := dispatch_of_step h
  unfold dispatch at h
  rw [call] at h
  obtain ⟨_, _, h⟩ := bind_eq_ok.mp h
  have updates := Updates.of_updateVoters h
  rw [updates.validator] at voter
  rw [updates.voters, if_pos ⟨member, voter⟩]

end ConsensusV1

namespace Evm

open ConsensusV1 (Precompiles)

/-! ## Blocks -/

/-- The balances of the accounts, as a pending commit has them. -/
def PendingCommit.balances (revm : Revm) (db : PersistentDb) (p : PendingCommit) (a : Address) :
    Nat :=
  worth (revm.info db p.cache a)

/-- The balances of the accounts, and the storage of the consensus contract. -/
structure World where
  balances : Address → Nat
  contract : State

inductive Action
  | move (a : Address) (balance : Nat)
  | message (m : ConsensusV1.Message)

/-- The contract sees the balances of the moment. -/
def World.act (precompiles : Precompiles) (w : World) : Action → Option World
  | .move a balance => some { w with balances := update w.balances a balance }
  | .message m =>
    (answer precompiles w.contract { m with balances := w.balances }).map
      fun contract => { w with contract }

def World.suspends (w : World) : Action → Bool
  | .move .. => false
  | .message m => refunds w.contract m

/-- An account whose balance is changed is in the cache. -/
def Action.Within (ok : ConsensusV1.Message → Prop) (cache : CacheState) : Action → Prop
  | .move a _ => a ∈ cache.accounts
  | .message m => ok m

section

variable (precompiles : Precompiles) (ok : ConsensusV1.Message → Prop) (revm : Revm)
variable (db : PersistentDb)

/-- An execution as the contract sees it: balances change and calls are made, in frames that may be
taken back. -/
def Executes (p p' : PendingCommit) (c c' : State) : Prop :=
  ∃ x, Frames.Reach (World.act precompiles) World.suspends (Action.Within ok p'.cache)
      { balances := p.balances revm db, contract := c } x ∧
    x.frames = [] ∧ x.state = { balances := p'.balances revm db, contract := c' }

/-- An execution that is one call of the contract, at no price. -/
def Answers (p p' : PendingCommit) (c c' : State) (call : Call) : Prop :=
  p'.balances revm db = p.balances revm db ∧
    ∃ m : ConsensusV1.Message, m.call = call ∧ m.balances = p.balances revm db ∧
      step precompiles c m = .ok c'

variable (key : CommitKey) (c₀ : State)

/-- The pending commits to which the transactions of a block lead. -/
inductive Transacted : PendingCommit → State → Prop
  | prepared : Transacted { key } c₀
  | process {p p₁ p' : PendingCommit} {c c' : State} {tx : TxContext}
      {env : Circumstances} {restore : Option PendingCommit} {receipt : ExecutionResult × Nat}
      (before : Transacted p c)
      (merge : EvmInner.mergeColdWallet revm db p tx env = (p₁, .ok restore))
      (write : transactWrite revm db p₁ (some tx.txHash) env = (p', .ok receipt))
      (executes : Executes precompiles ok revm db p₁ p' c c') : Transacted p' c'

/-- The pending commits to which the block processor leads: after the transactions the reward and
the update of the voters, and before a new round the update of the fee and the choice of the
validators. -/
inductive ProcessedBlock : PendingCommit → State → Prop
  | updateRewardsAndVotes {p p₁ p' : PendingCommit} {c c' : State} {validator : Address}
      {blockReward : Nat} {fails : Bool} {env : Circumstances} {receipt : ExecutionResult × Nat}
      {voters : List Address} (transactions : Transacted precompiles ok revm db key c₀ p c)
      (reward : applyRewards revm db p validator blockReward fails = (p₁, .ok ()))
      (listed : voters.Perm p₁.cache.accounts.keys)
      (write : transactWrite revm db p₁ none env = (p', .ok receipt))
      (answers : Answers precompiles revm db p₁ p' c c' (.updateVoters voters)) : ProcessedBlock p' c'
  | updateValidatorRegistrationFee {p p' : PendingCommit} {c c' : State}
      {env : Circumstances} {receipt : ExecutionResult × Nat} {fee : Fin (2 ^ 128)}
      (before : ProcessedBlock p c) (write : transactWrite revm db p none env = (p', .ok receipt))
      (answers : Answers precompiles revm db p p' c c' (.setFee fee)) : ProcessedBlock p' c'
  | calculateRoundValidators {p p' : PendingCommit} {c c' : State}
      {env : Circumstances} {receipt : ExecutionResult × Nat} {n : UInt8}
      (before : ProcessedBlock p c) (write : transactWrite revm db p none env = (p', .ok receipt))
      (answers : Answers precompiles revm db p p' c c' (.calculateRoundValidators n)) :
      ProcessedBlock p' c'

end

/-- The databases to which blocks lead, with the storage of the contract. -/
inductive Chain (precompiles : Precompiles) (ok : ConsensusV1.Message → Prop) (revm : Revm)
    (owner : Address) (registrationFee : Fin (2 ^ 128)) : PersistentDb → State → Prop
  | genesis (db : PersistentDb) : Chain precompiles ok revm owner registrationFee db
        (initial owner registrationFee)
  | block {db db' : PersistentDb} {key : CommitKey} {p : PendingCommit} {c c' : State}
      {σ : Unordered.Schedule Site} {data : Option CommitData}
      (before : Chain precompiles ok revm owner registrationFee db c)
      (processed : ProcessedBlock precompiles ok revm db key c p c')
      (commit : db.commit (buildCommit σ revm.toBundling p) data = .ok db') :
      Chain precompiles ok revm owner registrationFee db' c'

/-! ## The cache -/

section

variable {revm : Revm} {db : PersistentDb} {p p' : PendingCommit} {a address : Address}
variable {txHash : Option Word} {env : Circumstances} {receipt : ExecutionResult × Nat}
variable {amount : Nat} {fails : Bool}

theorem touch_cached (e : Address × Touch) :
    a ∈ (p.touch revm db e).cache.accounts ↔ a = e.1 ∨ a ∈ p.cache.accounts :=
  (revm.commit_sets db p.cache e).cached a

theorem foldl_touch_cached (revm : Revm) (db : PersistentDb) (touched : List (Address × Touch))
    (h : a ∈ p.cache.accounts) :
    a ∈ (touched.foldl (PendingCommit.touch revm db) p).cache.accounts := by
  induction touched generalizing p with
  | nil => exact h
  | cons e touched ih => exact ih ((touch_cached e).mpr (.inr h))

theorem transactWrite_cached (done : transactWrite revm db p txHash env = (p', .ok receipt))
    (h : a ∈ p.cache.accounts) : a ∈ p'.cache.accounts := by
  have kept := Reads.run_keeps (P := fun s : Session => a ∈ s.cache.accounts)
    (fun s q => revm.read_cached db s q a) env.execution
    (s := { cache := p.cache, faults := env.faults }) h
  unfold transactWrite at done
  split at done
  · cases done
  split at done
  · cases done
  · cases done
  · next s result touched ran =>
      rw [ran] at kept
      have after := foldl_touch_cached revm db (p := { p with cache := s.cache }) touched kept
      cases txHash with
      | none | some =>
        cases done
        exact after

theorem applyRewards_cached
    (done : applyRewards revm db p address amount fails = (p', .ok ())) :
    address ∈ p'.cache.accounts ∧ ∀ a ∈ p.cache.accounts, a ∈ p'.cache.accounts := by
  have kept := revm.read_cached db { cache := p.cache, faults := [fails] } (.basic address)
  unfold applyRewards at done
  split at done
  · cases done
  · next s info loaded =>
      rw [loaded] at kept
      cases done
      exact ⟨(touch_cached _).mpr (.inl rfl),
        fun a member => (touch_cached _).mpr (.inr (kept a member))⟩

end

/-! ## The invariant -/

/-- The recorded balances are those of the accounts, except for accounts that the block has
changed. -/
structure Follows (changed : Address → Prop) (w : World) : Prop where
  zero : w.contract.hasValidator 0 = false
  balanced : w.contract.Balanced
  recorded : ∀ a, (w.contract.voters a).validator ≠ 0 →
    (w.contract.voters a).balance = w.balances a ∨ changed a

section

variable {precompiles : Precompiles} {w w' : World} {changed changed' : Address → Prop}

section

variable (h : Follows changed w)
include h

theorem Follows.mono (more : ∀ a, changed a → changed' a) :
    Follows changed' w :=
  ⟨h.zero, h.balanced, fun a voter => (h.recorded a voter).imp_right (more a)⟩

/-- Balances change only where it is noted. -/
theorem Follows.move {balances : Address → Nat}
    (others : ∀ a, ¬ changed a → balances a = w.balances a) :
    Follows changed { w with balances } := by
  refine ⟨h.zero, h.balanced, ?_⟩
  intro a voter
  by_cases noted : changed a
  · exact .inr noted
  · dsimp only
    rw [others a noted]
    exact .inl ((h.recorded a voter).resolve_right noted)

theorem Follows.message {m : ConsensusV1.Message} {c : State}
    (nonzero : m.NonzeroValidator) (balances : m.balances = w.balances)
    (answered : step precompiles w.contract m = .ok c) :
    Follows changed { w with contract := c } where
  zero := step_keeps (P := fun s => s.hasValidator 0 = false)
    (fun s s' change => change.hasValidator_zero nonzero) answered h.zero
  balanced := by
    refine step_keeps (P := Balanced) ?_ answered h.balanced
    intro s s' change balanced
    obtain same | votes := change.sameVotes_or_votes
    · exact balanced.of_sameVotes same
    · exact balanced.votes votes
  recorded := by
    intro a voter
    obtain same | none | current := step_recorded answered a
    · have votes : (c.voters a).validator = (w.contract.voters a).validator ∧
          (c.voters a).balance = (w.contract.voters a).balance := Prod.mk.inj same
      rw [votes.1] at voter
      exact (h.recorded a voter).imp_left votes.2.trans
    · exact absurd none voter
    · exact .inl (current.trans (congrFun balances a))

end

theorem Follows.act {cache : CacheState} {action : Action} (h : Follows (· ∈ cache.accounts) w)
    (within : action.Within NonzeroValidator cache)
    (done : w.act precompiles action = some w') : Follows (· ∈ cache.accounts) w' := by
  cases action with
  | move a balance =>
    cases done
    refine h.move fun b other => update_of_ne ?_ ..
    rintro rfl
    exact other within
  | message m =>
    obtain ⟨c, answered, rfl⟩ := Option.map_eq_some_iff.mp done
    exact h.message (m := { m with balances := w.balances }) within rfl (answer_eq_some.mp answered)

end

/-- A pending commit of a block, with the storage of the contract. -/
structure Weighing (revm : Revm) (db : PersistentDb) (p : PendingCommit) (c : State) : Prop where
  tracks : Tracks revm db p
  follows : Follows (· ∈ p.cache.accounts) { balances := p.balances revm db, contract := c }

section

variable {precompiles : Precompiles} {revm : Revm} {db : PersistentDb} {p p' : PendingCommit}
variable {c c' : State}

section

variable (h : Weighing revm db p c)
include h

theorem Weighing.reward {address : Address} {amount : Nat} {fails : Bool}
    (done : applyRewards revm db p address amount fails = (p', .ok ())) : Weighing revm db p' c := by
  obtain ⟨-, tracks, balances⟩ := applyRewards_eq_ok done
  obtain ⟨here, kept⟩ := applyRewards_cached done
  refine ⟨tracks h.tracks, (h.follows.mono kept).move fun a other => ?_⟩
  have ne : a ≠ address := by
    rintro rfl
    exact other here
  exact (balances a).trans (if_neg ne)

/-- Which senders are marked does not matter. -/
theorem Weighing.mark
    (mergedLegacyColdWallets : Std.ExtTreeMap Address (Option (Word × LegacyAddress))) :
    Weighing revm db { p with mergedLegacyColdWallets } c :=
  ⟨{ h.tracks with }, h.follows⟩

theorem Weighing.merge {tx : TxContext} {env : Circumstances} {restore : Option PendingCommit}
    (done : EvmInner.mergeColdWallet revm db p tx env = (p', .ok restore)) : Weighing revm db p' c := by
  have merges := mergeColdWallet_merges revm db p tx env
  rw [done] at merges
  cases merges with
  | skipped => exact h
  | marked => exact h.mark _
  | merged _ reward => exact (h.reward reward).mark _

theorem Weighing.write {txHash : Option Word} {env : Circumstances}
    {receipt : ExecutionResult × Nat} (write : transactWrite revm db p txHash env = (p', .ok receipt))
    (executes : Executes precompiles NonzeroValidator revm db p p' c c') : Weighing revm db p' c' := by
  obtain ⟨x, reached, -, state⟩ := executes
  refine ⟨(transactWrite_eq_ok write).2 h.tracks, ?_⟩
  have start := h.follows.mono fun a member => transactWrite_cached write member
  rw [← state]
  exact reached.invariant start fun w action w' holds within done => holds.act within done

end

theorem Transacted.weighing {key : CommitKey} (start : Follows (fun _ => False)
      { balances := fun a => worth (db.accounts a), contract := c })
    (h : Transacted precompiles NonzeroValidator revm db key c p c') :
    Weighing revm db p c' := by
  induction h with
  | prepared =>
    refine ⟨.fresh rfl rfl, ?_⟩
    have balances : PendingCommit.balances revm db { key } = fun a => worth (db.accounts a) :=
      funext (revm.worth_fresh db)
    rw [balances]
    exact start.mono fun _ => False.elim
  | process before merge write executes ih => exact (ih.merge merge).write write executes

/-- The weight of each vote is the balance of the voter. -/
def Weighed (balances : Address → Nat) (c : State) : Prop :=
  (∀ a, (c.voters a).validator ≠ 0 → (c.voters a).balance = balances a) ∧
    ∀ v, c.hasValidator v → (c.validatorsData v).voteBalance =
      ∑ a with (c.voters a).validator = v, balances a

theorem Follows.weighed {w : World} (h : Follows (fun _ => False) w) :
    Weighed w.balances w.contract := by
  have recorded : ∀ a, (w.contract.voters a).validator ≠ 0 →
      (w.contract.voters a).balance = w.balances a :=
    fun a voter => (h.recorded a voter).resolve_right id
  refine ⟨recorded, ?_⟩
  intro v registered
  have nonzero := ne_of_registered registered h.zero
  rw [h.balanced.voteBalance v nonzero]
  refine Finset.sum_congr rfl ?_
  intro a member
  refine recorded a ?_
  rwa [(Finset.mem_filter.mp member).2]

/-- A system call that leaves the balances. -/
theorem Follows.answers {changed : Address → Prop} {call : Call}
    (h : Follows changed { balances := p.balances revm db, contract := c })
    (nonzero : ∀ isResigned, call ≠ .addValidator 0 isResigned)
    (answers : Answers precompiles revm db p p' c c' call) :
    Follows changed { balances := p'.balances revm db, contract := c' } := by
  obtain ⟨same, m, rfl, balances, answered⟩ := answers
  rw [same]
  exact h.message nonzero balances answered

theorem ProcessedBlock.follows {key : CommitKey} (start : Follows (fun _ => False)
      { balances := fun a => worth (db.accounts a), contract := c })
    (h : ProcessedBlock precompiles NonzeroValidator revm db key c p c') :
    Tracks revm db p ∧ Follows (fun _ => False) { balances := p.balances revm db, contract := c' } := by
  induction h with
  | @updateRewardsAndVotes _ _ _ _ _ _ _ _ _ _ voters transactions reward listed write answers =>
    have weighing := (transactions.weighing start).reward reward
    refine ⟨(transactWrite_eq_ok write).2 weighing.tracks, ?_⟩
    obtain ⟨zero, balanced, recorded⟩ := weighing.follows.answers (by simp) answers
    refine ⟨zero, balanced, ?_⟩
    intro a voter
    -- An account that has been changed is in the list of the update.
    obtain current | cached := recorded a voter
    · exact .inl current
    · obtain ⟨same, m, call, balances, answered⟩ := answers
      have member : a ∈ voters := listed.mem_iff.mpr cached
      have updated := step_updateVoters call answered member voter
      rw [balances, ← same] at updated
      exact .inl updated
  | updateValidatorRegistrationFee _ write answers ih | calculateRoundValidators _ write answers ih =>
    exact ⟨(transactWrite_eq_ok write).2 ih.1, ih.2.answers (by simp) answers⟩

/-- The balances after the commit are those of the pending commit. -/
theorem Chain.follows {owner : Address} {registrationFee : Fin (2 ^ 128)}
    (h : Chain precompiles NonzeroValidator revm owner registrationFee db c) :
    Follows (fun _ => False) { balances := fun a => worth (db.accounts a), contract := c } := by
  induction h with
  | genesis db =>
    exact ⟨rfl, ⟨by simp [initial], fun v nonzero => by simp [initial]⟩,
      by simp [initial]⟩
  | @block db db' _ p _ _ σ _ before processed commit ih =>
    obtain ⟨tracks, follows⟩ := processed.follows ih
    obtain ⟨-, -, -, -, -, accounts, -⟩ := PersistentDb.commit_eq_ok commit
    have balances : (fun a => worth (db'.accounts a)) = p.balances revm db := by
      funext a
      rw [accounts]
      exact tracks.worth_buildCommit σ a
    rw [balances]
    exact follows

/-- After every block, processed or committed, the weight of a vote is the balance of the voter. -/
theorem voteWeights {owner : Address} {registrationFee : Fin (2 ^ 128)} (chain :
      Chain precompiles ConsensusV1.Message.NonzeroValidator revm owner registrationFee db c) :
    Weighed (fun a => worth (db.accounts a)) c ∧ ∀ key p c',
        ProcessedBlock precompiles ConsensusV1.Message.NonzeroValidator revm db key c p c' →
        Weighed (p.balances revm db) c' :=
  ⟨chain.follows.weighed, fun _ _ _ processed => (processed.follows chain.follows).2.weighed⟩

end

namespace Sample

/-- Account 2 has a balance. -/
def funded : PersistentDb where
  accounts := update (fun _ => none) 2 (some { balance := 2, codeHash := keccakEmpty })

/-- Account 2 has a balance of seven. -/
def seven : Address × Touch :=
  (2, { info := some { balance := 7, codeHash := keccakEmpty }, status := .changed })

def receives : Circumstances where
  execution := .done (.ok (.success 21000 [], [seven]))

/-- An execution that touches no account. -/
def answers : Circumstances where
  execution := .done (.ok (.success 21000 [], []))

def transacted : PendingCommit := (transactWrite revm funded { key := key } (some 1) receives).1

def rewarded : PendingCommit := (applyRewards revm funded transacted 2 0 false).1

def finished : PendingCommit := (transactWrite revm funded rewarded none answers).1

def balances (n : Nat) (a : Address) : Nat := if a = 2 then n else 0

theorem prepared_balances : PendingCommit.balances revm funded { key := key } = balances 2 := by
  funext a
  refine (revm.worth_fresh funded a).trans ?_
  unfold funded balances
  by_cases here : a = 2
  · subst here
    rfl
  · simp [worth, here]

theorem transacted_balances : transacted.balances revm funded = balances 7 := by
  funext a
  by_cases here : a = 2
  · subst here
    decide +kernel
  · have sets := (revm.commit_sets funded {} seven).account a
    rw [show balances 7 a = balances 2 a by simp [balances, here], ← congrFun prepared_balances a]
    exact congrArg (fun x => worth (Option.map (·.toAccountInfo) x)) (sets.trans (if_neg here))

theorem reward_done : applyRewards revm funded transacted 2 0 false = (rewarded, .ok ()) := rfl

theorem rewarded_balances : rewarded.balances revm funded = balances 7 := by
  funext a
  obtain ⟨-, -, raised⟩ := applyRewards_eq_ok reward_done
  have before := congrFun transacted_balances a
  unfold PendingCommit.balances at before ⊢
  rw [raised, before]
  unfold balances
  split_ifs <;> rfl

/-- A transaction that calls the contract, and then changes the balance. -/
def run (messages : List ConsensusV1.Message) : Option (Frames.Execution World Action) :=
  Transition.run (Frames.step (World.act precompiles) World.suspends)
    { state := { balances := balances 2, contract := initial 1 0 } }
    (messages.map (fun m => .call (.message m)) ++ [.call (.move 2 7)])

/-- The storage after the update at the end of the block. -/
def update (x : Frames.Execution World Action) : Option State :=
  (step precompiles x.state.contract
    { sender := 1, sender_ne_zero := by decide, balances := balances 7, random := id
      call := .updateVoters [2] }).toOption

/-- A block in which account 2 receives ether after some calls of the contract. -/
theorem processed (ok : ConsensusV1.Message → Prop) (messages : List ConsensusV1.Message)
    {α : Type} (f : State → α) (value : α) (sends : ∀ m ∈ messages, ok m)
    (changed : (run messages).map (fun x => (x.frames.length, x.state.balances)) =
      some (0, Function.update (balances 2) 2 7))
    (updated : ((run messages).bind update).map f = some value) :
    ∃ c, ProcessedBlock precompiles ok revm funded key (initial 1 0) finished c ∧ f c = value := by
  obtain ⟨x, ran, values⟩ := Option.map_eq_some_iff.mp changed
  obtain ⟨closed, moved⟩ := Prod.mk.inj values
  have closed := List.eq_nil_of_length_eq_zero closed
  have changed : x.state.balances = balances 7 := by
    rw [moved]
    funext a
    by_cases here : a = 2 <;> simp [balances, here]
  rw [ran] at updated
  obtain ⟨c, updated, value⟩ := Option.map_eq_some_iff.mp updated
  have updated := toOption_eq_some.mp updated
  refine ⟨c, ?_, value⟩
  have merge : EvmInner.mergeColdWallet revm funded { key := key }
      { commitKey := key, txHash := 1, sender := 1 } receives = ({ key := key }, .ok none) := rfl
  have write : transactWrite revm funded { key := key } (some 1) receives =
      (transacted, .ok (.success 21000 [], 21000)) := rfl
  have transactions : Transacted precompiles ok revm funded key
      (initial 1 0) transacted x.state.contract := by
    refine .process .prepared merge write ⟨x, ?_, closed, ?_⟩
    · rw [prepared_balances]
      refine .of_run ran (.of_forall fun _ e member => ?_)
      obtain called | moved := List.mem_append.mp member
      · obtain ⟨m, listed, rfl⟩ := List.mem_map.mp called
        exact sends m listed
      · obtain rfl := List.mem_singleton.mp moved
        exact ((revm.commit_sets funded {} seven).cached 2).mpr (.inl rfl)
    · rw [transacted_balances, ← changed]
  have listed : [2].Perm rewarded.cache.accounts.keys := by decide +kernel
  have write' : transactWrite revm funded rewarded none answers =
      (finished, .ok (.success 21000 [], 0)) := rfl
  exact .updateRewardsAndVotes transactions reward_done listed write'
    ⟨rfl, _, rfl, rewarded_balances.symm, updated⟩

end Sample

/-- A voter whose balance changes after the vote. -/
theorem voteWeights_sample :
    ∃ c, ProcessedBlock precompiles ConsensusV1.Message.NonzeroValidator
        Sample.revm Sample.funded Sample.key (initial 1 0) Sample.finished c ∧
      (c.voters 2).validator = 3 ∧ (c.voters 2).balance = Sample.finished.balances Sample.revm Sample.funded 2 ∧
      (c.voters 2).balance = 7 := by
  obtain ⟨c, processed, votes⟩ := Sample.processed ConsensusV1.Message.NonzeroValidator [
      Sample.register 3 (by decide) 3 0,
      Sample.message 2 (by decide) (.vote 3) 0]
    (fun c => ((c.voters 2).validator, (c.voters 2).balance)) (3, 7)
    (by simp [ConsensusV1.Message.NonzeroValidator, register,
      message])
    rfl (by decide +kernel)
  obtain ⟨votes, balance⟩ := Prod.mk.inj votes
  have weighed := (voteWeights (.genesis Sample.funded)).2 _ _ _ processed
  exact ⟨c, processed, votes, weighed.1 2 (by rw [votes]; decide), balance⟩

/-- A vote for the zero address is not brought up to date. -/
theorem voteWeights_zero :
    ∃ c, ProcessedBlock Sample.precompiles (fun _ => True) Sample.revm Sample.funded
        Sample.key (initial 1 0) Sample.finished c ∧
      c.hasValidator 0 ∧ c.votersHead = 2 ∧ (c.voters 2).balance = 2 ∧
      (c.validatorsData 0).voteBalance = 2 ∧ Sample.finished.balances Sample.revm Sample.funded 2 = 7 := by
  obtain ⟨c, processed, values⟩ := Sample.processed (fun _ => True) [
      message 1 (by decide) (.addValidator 0 false) 0,
      message 1 (by decide) (.addVotes [2] [0]) 0]
    (fun c => (c.hasValidator 0, c.votersHead, (c.voters 2).balance,
      (c.validatorsData 0).voteBalance)) (true, 2, 2, 2)
    (fun _ _ => trivial) rfl (by decide +kernel)
  simp only [Prod.mk.injEq] at values
  obtain ⟨registered, head, balance, sum⟩ := values
  exact ⟨c, processed, registered, head, balance, sum, congrFun Sample.rewarded_balances 2⟩

end Evm

end Mainsail
