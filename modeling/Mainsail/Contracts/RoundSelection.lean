import Mathlib.Data.Fintype.Card
import Mathlib.Data.Prod.Lex
import Mainsail.Foundation.LinkedList
import Mainsail.Foundation.TopList
import Mainsail.Contracts.ActiveValidators

/-!
# The validators of a round

A round takes the validators with the highest vote balances, and the lower address first where
they are equal. The contract keeps them in a linked list in ascending order while it looks at the
active validators, and shuffles them in the end. The list is kept in a mapping that outlives the
round: what is left in it is cleared before the next one.
-/

namespace Mainsail.ConsensusV1

open LinkedList TopList Function State RoundList Nat List

variable {precompiles : Precompiles} {ok : Message → Prop} {owner : Address}
variable {registrationFee : Fin (2 ^ 128)} {x : Execution} {s s' : State} {m : Message}
variable {data : Address → ValidatorData} {list : RoundList} {l : List Address}
variable {addr : Address} {n : Nat}

/-! ## The order -/

/-- The place of a validator in the order: the vote balance, then the address, downwards. -/
def rank (data : Address → ValidatorData) (a : Address) : Nat ×ₗ Addressᵒᵈ :=
  toLex ((data a).voteBalance, OrderDual.toDual a)

variable {a b : Address} {array : List Address} {i : Nat}

theorem rank_lt_rank : rank data a < rank data b ↔
    (data a).voteBalance < (data b).voteBalance ∨
      (data a).voteBalance = (data b).voteBalance ∧ b < a :=
  Prod.Lex.toLex_lt_toLex

theorem rank_injective : (rank data).Injective := by
  intro a b same
  exact OrderDual.toDual.injective (Prod.mk.inj (toLex.injective same)).2

theorem isGreater_iff : isGreater data a b ↔ rank data b < rank data a := by
  rw [rank_lt_rank, isGreater]
  split
  · next same => simp [same]
  · next different => simp [Ne.symm different]

theorem isGreater_iff_le (other : b ≠ a) : isGreater data a b ↔ rank data b ≤ rank data a := by
  rw [isGreater_iff, lt_iff_le_and_ne]
  simp [rank_injective.ne other]

/-! ## The linked list -/

namespace RoundList

/-- The list is kept in the mapping, which has nothing else. -/
structure Holds (list : RoundList) (l : List Address) : Prop where
  visits : Visits list.map 0 list.head l
  count : list.count = l.length
  outside : ∀ a, a ∉ l → list.map a = 0

/-- There is fuel for a loop over the list. -/
theorem length_le_fuel (h : l.Nodup) : l.length ≤ fuel := by
  have := h.length_le_card
  rwa [Fintype.card_fin] at this

variable {map : Address → Address} {steps top : Nat} {lowest : Address} {seen : List Address}

theorem deleteFrom_eq_zero (h : Visits map 0 a l) (outside : ∀ b, b ∉ l → map b = 0)
    (enough : l.length ≤ steps) (b : Address) : deleteFrom steps a map b = 0 := by
  induction l generalizing map a steps with
  | nil =>
    obtain rfl : a = 0 := h
    cases steps with
    | zero | succ => exact outside b (not_mem_nil)
  | cons c l ih =>
    obtain ⟨first, fresh⟩ := nodup_cons.mp h.nodup
    obtain ⟨rfl, node, rest⟩ := h
    obtain ⟨steps, rfl⟩ : ∃ k, steps = k + 1 := exists_eq_succ_of_ne_zero (by
      rw [length_cons] at enough
      omega)
    rw [deleteFrom, if_neg node]
    refine ih (rest.congr fun d member => ?_) ?_ (le_of_succ_le_succ enough)
    · refine update_of_ne ?_ ..
      rintro rfl
      exact first member
    · intro d out
      by_cases same : d = a
      · simp [same]
      · rw [update_of_ne same]
        exact outside d (by simp [same, out])

/-- The mapping is cleared. -/
theorem Holds.cleared (h : list.Holds l) :
    { list.deleteRoundValidators with head := 0 }.Holds [] where
  visits := rfl
  count := rfl
  outside a _ := deleteFrom_eq_zero h.visits h.outside (length_le_fuel h.visits.nodup) a

/-! ### Insertion -/

theorem Holds.first (h : list.Holds []) (node : addr ≠ 0) :
    { list with head := addr, count := 1 }.Holds [addr] where
  visits := ⟨rfl, node, h.outside addr (not_mem_nil)⟩
  count := rfl
  outside a _ := h.outside a (not_mem_nil)

theorem Holds.insertHead (h : list.Holds l) (new : addr ∉ l) (node : addr ≠ 0) :
    (list.insertHead addr).Holds (addr :: l) where
  visits := by
    refine ⟨rfl, node, ?_⟩
    change Visits (update list.map addr list.head) 0 (update list.map addr list.head addr) l
    rw [update_self]
    refine h.visits.congr fun b member => update_of_ne ?_ ..
    rintro rfl
    exact new member
  count := by simp [RoundList.insertHead, h.count]
  outside a out := by
    rw [mem_cons, not_or] at out
    exact (update_of_ne out.1 ..).trans (h.outside a out.2)

theorem Holds.insertAfter {before after : List Address} {previous : Address}
    (h : list.Holds (before ++ previous :: after)) (new : addr ∉ before ++ previous :: after)
    (node : addr ≠ 0) :
    (list.insertAfter previous addr).Holds (before ++ previous :: addr :: after) where
  visits := by
    have distinct := h.visits.nodup
    have other : addr ≠ previous := by
      rintro rfl
      simp at new
    refine h.visits.insert node ?_ ?_ ?_
    · intro b member
      have : b ≠ previous ∧ b ≠ addr := by
        constructor
        · rintro rfl
          exact (nodup_cons.mp (perm_middle.nodup_iff.mp distinct)).1 member
        · rintro rfl
          exact new (perm_middle.mem_iff.mpr (mem_cons_of_mem _ member))
      simp only [RoundList.insertAfter, update_of_ne this.1, update_of_ne this.2]
    · exact update_self ..
    · simp only [RoundList.insertAfter, update_of_ne other, update_self]
  count := by
    simp [RoundList.insertAfter, h.count]
    omega
  outside a out := by
    simp only [mem_append, mem_cons, not_or] at out
    simp only [RoundList.insertAfter, update_of_ne out.2.1, update_of_ne out.2.2.1]
    exact h.outside a (by simp [out])

/-- The loop finds the place after which the address belongs. -/
theorem findPrevious_spec (data : Address → ValidatorData) (previous : Address)
    {current : Address} {rest : List Address} (h : Visits list.map 0 current rest)
    (new : addr ∉ rest) (enough : rest.length ≤ steps) :
    ∃ before after,
      previous :: rest = before ++ findPrevious data list addr steps previous current :: after ∧
      previous :: insert (rank data) addr rest =
        before ++ findPrevious data list addr steps previous current :: addr :: after := by
  induction rest generalizing previous current steps with
  | nil =>
    obtain rfl : current = 0 := h
    have found : findPrevious data list addr steps previous 0 = previous := by
      cases steps <;> rfl
    rw [found]
    exact ⟨[], [], rfl, rfl⟩
  | cons c rest ih =>
    obtain ⟨rfl, node, rest_visits⟩ := h
    rw [mem_cons, not_or] at new
    obtain ⟨steps, rfl⟩ : ∃ k, steps = k + 1 := exists_eq_succ_of_ne_zero (by
      rw [length_cons] at enough
      omega)
    rw [findPrevious, if_neg node]
    split
    · next greater =>
        rw [isGreater_iff_le new.1] at greater
        refine ⟨[], current :: rest, rfl, ?_⟩
        rw [insert_of_le _ greater]
        rfl
    · next less =>
        rw [isGreater_iff_le new.1] at less
        obtain ⟨before, after, split, inserted⟩ :=
          ih current rest_visits new.2 (le_of_succ_le_succ enough)
        refine ⟨previous :: before, after, ?_, ?_⟩
        · rw [cons_append, ← split]
        · rw [insert_of_not_le _ less, cons_append, ← inserted]

/-- The head gives way where there are too many. -/
theorem Holds.evict (h : list.Holds (lowest :: l))
    (many : top < l.length + 1) : (list.evict top).Holds l := by
  have count := h.count
  have outside := h.outside
  obtain ⟨first, -⟩ := nodup_cons.mp h.visits.nodup
  obtain ⟨rfl, node, rest⟩ := h.visits
  rw [length_cons] at count
  rw [RoundList.evict, count, if_pos many]
  refine ⟨?_, rfl, ?_⟩
  · refine Visits.congr rest fun b member => update_of_ne ?_ ..
    rintro rfl
    exact first member
  · intro a out
    by_cases same : a = list.head
    · simp [same]
    · simp [same, outside, out]

theorem Holds.evict_of_le (h : list.Holds l) (few : l.length ≤ top) : list.evict top = list := by
  rw [RoundList.evict, h.count, if_neg (not_lt.mpr few)]

/-- An address is put in its place. -/
theorem Holds.placed (data : Address → ValidatorData)
    (h : list.Holds (lowest :: l)) (new : addr ∉ lowest :: l) (node : addr ≠ 0) :
    (if isGreater data list.head addr then list.insertHead addr
      else list.insertAfter
        (findPrevious data list addr fuel list.head (list.map list.head)) addr).Holds
      (insert (rank data) addr (lowest :: l)) := by
  have distinct := h.visits.nodup
  have enough := length_le_fuel (nodup_cons.mp distinct).2
  obtain ⟨rfl, -, rest⟩ := h.visits
  have other : addr ≠ list.head := fun same => new (same ▸ mem_cons_self ..)
  split
  · next greater =>
      rw [isGreater_iff_le other] at greater
      rw [insert_of_le _ greater]
      exact h.insertHead new node
  · next less =>
      rw [isGreater_iff_le other] at less
      obtain ⟨before, after, split, inserted⟩ := findPrevious_spec data list.head
        rest (fun member => new (mem_cons_of_mem _ member)) enough
      rw [insert_of_not_le _ less, inserted]
      rw [split] at h new
      exact h.insertAfter new node

/-- The body of the loop keeps the best of the validators that have been looked at. -/
theorem Holds.consider (h : list.Holds l)
    (best : Best (rank data) n seen l) (new : addr ∉ seen) (node : addr ≠ 0) (positive : n ≠ 0)
    (eligible : (data addr).isResigned = false ∧ (data addr).blsPublicKey ≠ []) :
    ∃ l', (list.consider data n addr).Holds l' ∧ Best (rank data) n (seen ++ [addr]) l' := by
  have skipped : ¬ ((data addr).isResigned ∨ (data addr).blsPublicKey.length = 0) := by
    simp [eligible]
  rw [RoundList.consider, if_neg skipped]
  cases l with
  | nil =>
    have empty : list.head = 0 := h.visits
    rw [if_pos empty]
    have room := best.room new (pos_of_ne_zero positive)
    exact ⟨_, h.first node, room⟩
  | cons lowest l =>
    have head : list.head = lowest := h.visits.1
    have fresh : addr ∉ lowest :: l := fun member => new (best.subset addr member)
    have placed := h.placed data fresh node
    have head_ne : list.head ≠ 0 := head ▸ h.visits.2.1
    rw [if_neg head_ne]
    split
    · next room =>
        rw [h.count] at room
        refine ⟨_, ?_, best.room new room⟩
        rw [insertValidator, placed.evict_of_le]
        · exact placed
        · rw [TopList.length_insert]
          exact room
    · next full =>
        rw [h.count, not_lt] at full
        split
        · next better =>
            rw [isGreater_iff, head] at better
            refine ⟨_, ?_, best.replace new full better⟩
            rw [insert_of_not_le _ (not_le.mpr better)] at placed
            refine placed.evict ?_
            rw [TopList.length_insert]
            exact lt_succ_of_le full
        · next worse =>
            rw [isGreater_iff, head] at worse
            exact ⟨_, h, best.skip full worse⟩

/-- The loop over the validators. -/
theorem Holds.foldl_consider {addrs : List Address} (h : list.Holds l)
    (best : Best (rank data) n seen l) (distinct : (seen ++ addrs).Nodup) (positive : n ≠ 0)
    (nodes : ∀ a ∈ addrs, a ≠ 0)
    (eligible : ∀ a ∈ addrs, (data a).isResigned = false ∧ (data a).blsPublicKey ≠ []) :
    ∃ l', (addrs.foldl (fun list addr => list.consider data n addr) list).Holds l' ∧
      Best (rank data) n (seen ++ addrs) l' := by
  induction addrs generalizing list l seen with
  | nil => exact ⟨l, h, by simpa using best⟩
  | cons addr addrs ih =>
    have new : addr ∉ seen := fun member =>
      (nodup_append.mp distinct).2.2 addr member addr (mem_cons_self ..) rfl
    obtain ⟨node, nodes⟩ := forall_mem_cons.mp nodes
    obtain ⟨first, eligible⟩ := forall_mem_cons.mp eligible
    obtain ⟨l', holds, best'⟩ := h.consider best new node positive first
    rw [append_cons] at distinct ⊢
    exact ih holds best' distinct nodes eligible

theorem walk_eq (h : Visits map 0 a l) : walk map l.length a = l := by
  induction l generalizing a with
  | nil => rfl
  | cons b l ih =>
    obtain ⟨rfl, -, rest⟩ := h
    rw [length_cons, walk, ih rest]

end RoundList

/-! ## The shuffle -/

theorem swap_perm {j : Nat} (hi : i < array.length)
    (hj : j < array.length) : (swap array i j).Perm array := by
  unfold swap
  rw [getD_eq_getElem _ _ hi, getD_eq_getElem _ _ hj]
  exact set_set_perm hi hj

variable {random : Nat → Nat}

theorem shuffleFrom_perm (bound : i < array.length) : (shuffleFrom random i array).Perm array := by
  induction i generalizing array with
  | zero => exact .refl _
  | succ i ih =>
    have swapped : (swap array (i + 1) (random (i + 1) % (i + 2))).Perm array := by
      have := mod_lt (random (i + 1)) (show 0 < i + 2 by omega)
      exact swap_perm bound (by omega)
    rw [shuffleFrom]
    refine (ih ?_).trans swapped
    rw [swapped.length_eq]
    omega

theorem shuffleMem_perm (array : List Address) : (shuffleMem random array).Perm array := by
  unfold shuffleMem
  cases array with
  | nil => exact .refl _
  | cons a array => exact shuffleFrom_perm (by simp)

/-! ## Executions -/

/-- What the selection relies on. -/
structure State.Selectable (s : State) : Prop where
  active : s.Active
  keyless : (s.validatorsData 0).blsPublicKey = []
  round : ∃ l, s.roundList.Holds l

theorem State.Selectable.nonzero (h : s.Selectable) (member : a ∈ s.activeValidators) : a ≠ 0 := by
  rintro rfl
  exact ((h.active.mem 0).mp member).2.2 h.keyless

/-- The list after the loop holds the best of the active validators. -/
theorem State.Selectable.selection (h : s.Selectable) (positive : n ≠ 0) :
    ∃ l, (s.selection n).Holds l ∧ Best (rank s.validatorsData) n s.activeValidators l := by
  obtain ⟨_, round⟩ := h.round
  have loop : ∃ l, (s.selection n).Holds l ∧
      Best (rank s.validatorsData) n ([] ++ s.activeValidators) l :=
    round.cleared.foldl_consider .empty h.active.indexed.nodup positive (fun a => h.nonzero)
      fun a member => ((h.active.mem a).mp member).2
  exact loop

section

variable (change : Change precompiles m s s')
include change

/-- No call comes from the zero address, so that it never has a key. -/
theorem Change.keyless
    (h : (s.validatorsData 0).blsPublicKey = []) : (s'.validatorsData 0).blsPublicKey = [] := by
  cases change with
  | owner | fee | calculateRoundValidators => exact h
  | @addValidator addr =>
    by_cases same : 0 = addr
    · simp [← same]
    · simpa [same] using h
  | registerValidator =>
    simpa [State.registered, State.addActiveValidator, m.sender_ne_zero.symm] using h
  | updateValidator =>
    split <;> simpa [rekeyed, addActiveValidator, m.sender_ne_zero.symm] using h
  | resignValidator => simpa [m.sender_ne_zero.symm] using h
  | votes change => rwa [(SameRegistry.of_votes change).blsPublicKey]

theorem Change.round (h : s.Selectable) : ∃ l, s'.roundList.Holds l := by
  cases change with
  | owner | fee | addValidator | registerValidator | resignValidator => exact h.round
  | updateValidator => split <;> exact h.round
  | votes change =>
    rw [(SameRegistry.of_votes change).roundList]
    exact h.round
  | calculateRoundValidators _ positive =>
    obtain ⟨l, holds, -⟩ := h.selection positive
    exact ⟨l, holds⟩

theorem Change.selectable (h : s.Selectable) : s'.Selectable :=
  ⟨change.active h.active, change.keyless h.keyless, change.round h⟩

end

theorem initial_selectable : (initial owner registrationFee).Selectable :=
  ⟨initial_active, rfl, [], rfl, rfl, fun _ _ => rfl⟩

theorem Reachable.selectable (h : Reachable precompiles ok owner registrationFee x) :
    x.state.Selectable :=
  h.keeps initial_selectable fun _ _ _ _ => Change.selectable

/-! ## Rounds -/

/-- The first is preferred to the second. -/
def Precedes (data : Address → ValidatorData) (a b : Address) : Prop :=
  (data b).voteBalance < (data a).voteBalance ∨ (data a).voteBalance = (data b).voteBalance ∧ a < b

/-- A round of `n` of the active validators, which are preferred to all others. -/
structure State.IsRound (s : State) (n : Nat) (round : List Address) : Prop where
  nodup : round.Nodup
  length : round.length = n
  active : ∀ a ∈ round, a ∈ s.activeValidators
  preferred : ∀ a ∈ round, ∀ b ∈ s.activeValidators, b ∉ round → Precedes s.validatorsData a b

theorem State.Selectable.calculateRoundValidators (h : s.Selectable) (positive : n ≠ 0)
    (enough : n ≤ s.activeValidators.length) (random : Nat → Nat) :
    s.calculateRoundValidators random n = .ok (s.calculated random n) := by
  obtain ⟨l, holds, best⟩ := h.selection positive
  refine calculateRoundValidators_eq_ok.mpr ⟨positive, ?_, rfl⟩
  rw [holds.count, best.length]
  omega

/-- The recorded validators are the best of the active ones, in some order. -/
theorem State.Selectable.best (h : s.Selectable)
    (calculated : s.calculateRoundValidators random n = .ok s') :
    n ≤ s.activeValidators.length ∧
    ∃ l, Best (rank s.validatorsData) n s.activeValidators l ∧
      walk s'.roundList.map n s'.roundList.head = l ∧ s'.roundValidators.Perm l := by
  obtain ⟨positive, enough, rfl⟩ := calculateRoundValidators_eq_ok.mp calculated
  obtain ⟨l, holds, best⟩ := h.selection positive
  have length := best.length
  rw [holds.count] at enough
  have walk : walk (s.selection n).map n (s.selection n).head = l := by
    rw [← walk_eq holds.visits, show l.length = n by omega]
  refine ⟨by omega, l, best, walk, ?_⟩
  exact (shuffleMem_perm _).trans (.of_eq walk)

theorem isRound_of_best {round : List Address} (best : Best (rank s.validatorsData) n
      s.activeValidators l) (enough : n ≤ s.activeValidators.length) (perm : round.Perm l) :
    s.IsRound n round where
  nodup := perm.nodup_iff.mpr best.nodup
  length := by rw [perm.length_eq, best.length, min_eq_left enough]
  active a member := best.subset a (perm.mem_iff.mp member)
  preferred a member b active out := by
    rw [perm.mem_iff] at member out
    have lower := rank_lt_rank.mp (best.lt_of_not_mem rank_injective member active out)
    rwa [eq_comm (a := (s.validatorsData b).voteBalance)] at lower

theorem dispatch_calculateRoundValidators {n : UInt8} (call : m.call = .calculateRoundValidators n)
    (h : dispatch precompiles s m = .ok s') :
    s.calculateRoundValidators m.random n.toNat = .ok s' := by
  simp only [dispatch, call] at h
  obtain ⟨_, _, h⟩ := Except.bind_eq_ok.mp h
  exact h

theorem step_calculateRoundValidators {n : UInt8} (call : m.call = .calculateRoundValidators n)
    (sender : m.sender = s.owner) (unpaid : m.value = 0) :
    step precompiles s m = s.calculateRoundValidators m.random n.toNat := by
  rw [step_of_unpaid unpaid]
  simp only [dispatch, call, onlyOwner, sender, if_true]
  rfl

theorem State.Selectable.fails_iff (h : s.Selectable) :
    (∃ r, s.calculateRoundValidators random n = .error r) ↔
      s.activeValidators.length < n ∨ n = 0 := by
  constructor
  · rintro ⟨r, failed⟩
    by_contra enough
    rw [not_or, not_lt] at enough
    rw [h.calculateRoundValidators enough.2 enough.1] at failed
    cases failed
  · intro few
    cases result : s.calculateRoundValidators random n with
    | error r => exact ⟨r, rfl⟩
    | ok s' =>
      have positive := (calculateRoundValidators_eq_ok.mp result).1
      have enough := (h.best result).1
      omega

/-- The owner's call fails where there are too few active validators, and records a round
otherwise. Whatever the order of the array, the same validators are chosen. -/
theorem round_selection (h : Reachable precompiles (fun _ => True) owner registrationFee x)
    {n : UInt8} (call : m.call = .calculateRoundValidators n) (sender : m.sender = x.state.owner)
    (unpaid : m.value = 0) :
    ((∃ r, step precompiles x.state m = .error r) ↔
      x.state.activeValidators.length < n.toNat ∨ n = 0) ∧
    ∀ s', step precompiles x.state m = .ok s' →
      x.state.IsRound n.toNat s'.roundValidators ∧
      s'.roundValidators.Perm (walk s'.roundList.map n.toNat s'.roundList.head) ∧
      s'.rounds = x.state.rounds ++ [s'.roundValidators.map fun a =>
        ⟨a, (x.state.validatorsData a).voteBalance⟩] ∧
      ∀ (y : Execution) (owner' : Address) (registrationFee' : Fin (2 ^ 128)) (m' : Message)
        (s'' : State), Reachable precompiles (fun _ => True) owner' registrationFee' y →
        m'.call = .calculateRoundValidators n → step precompiles y.state m' = .ok s'' →
        (∀ a, a ∈ x.state.activeValidators ↔ a ∈ y.state.activeValidators) →
        (∀ a ∈ x.state.activeValidators, (y.state.validatorsData a).voteBalance =
          (x.state.validatorsData a).voteBalance) →
        s'.roundValidators.Perm s''.roundValidators := by
  have selectable := h.selectable
  constructor
  · rw [step_calculateRoundValidators call sender unpaid, selectable.fails_iff,
      ← UInt8.toNat_inj]
    rfl
  · intro s' taken
    have calculated := dispatch_calculateRoundValidators call (dispatch_of_step taken)
    obtain ⟨enough, l, best, walk, perm⟩ := selectable.best calculated
    refine ⟨isRound_of_best best enough perm, perm.trans (.of_eq walk.symm), ?_, ?_⟩
    · obtain ⟨-, -, rfl⟩ := calculateRoundValidators_eq_ok.mp calculated
      rfl
    · intro y owner' registrationFee' m' s'' reached call' taken' same balances
      have other := dispatch_calculateRoundValidators call' (dispatch_of_step taken')
      obtain ⟨-, l', best', -, perm'⟩ := reached.selectable.best other
      have actives := (perm_ext_iff_of_nodup selectable.active.indexed.nodup
        reached.selectable.active.indexed.nodup).mpr same
      have best' : Best (rank x.state.validatorsData) n.toNat y.state.activeValidators l' :=
        best'.congr fun a member => by rw [rank, rank, balances a ((same a).mpr member)]
      exact perm.trans ((best.perm best' rank_injective actives).trans perm'.symm)

/-- Two of three validators are chosen. -/
theorem round_selection_sample : ∃ x s', Reachable Sample.precompiles (fun _ => True) 1 0 x ∧
      step Sample.precompiles x.state
        (Sample.message 1 (by decide) (.calculateRoundValidators 2) 0) = .ok s' ∧
      x.state.activeValidators = [2, 3, 4] ∧ x.state.IsRound 2 s'.roundValidators := by
  obtain ⟨x, reached, found⟩ := Sample.exists_reachable (fun _ => True) 0 [
      .call (Sample.register 2 (by decide) 2 0),
      .call (Sample.register 3 (by decide) 3 0),
      .call (Sample.register 4 (by decide) 4 0),
      .call (Sample.message 5 (by decide) (.vote 3) 0)]
    (fun x => (x.state.owner, x.state.activeValidators)) (1, [2, 3, 4]) (by decide +kernel)
    (by simp [Frames.Event.Sends])
  obtain ⟨owner, active⟩ := Prod.mk.inj found
  have selection := round_selection reached (n := 2)
    (m := Sample.message 1 (by decide) (.calculateRoundValidators 2) 0) rfl owner.symm rfl
  cases taken : step Sample.precompiles x.state
      (Sample.message 1 (by decide) (.calculateRoundValidators 2) 0) with
  | error r =>
    have few := selection.1.mp ⟨r, taken⟩
    rw [active] at few
    exact absurd few (by decide)
  | ok s' => exact ⟨x, s', reached, taken, active, (selection.2 s' taken).1⟩

end Mainsail.ConsensusV1
