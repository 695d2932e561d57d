import Mainsail.Consensus.Discipline

/-!
# Agreement

Any number of honest nodes, each with its own validators, store and clock. A step is a step
of one node: what is delivered, lost, repeated or timed out, and in which order, is up to the
run, and so are crashes and restarts. Everything a byzantine validator may send is covered
as well, because the nodes are tied to each other by signatures only: where a vote, a lock
proof or a commit verifies, the validators it names have signed it or are byzantine.

Two nodes never commit different blocks at the same block number. The proof collects the
rules each node keeps into the premises of the locking argument.
-/

namespace Mainsail

open Function List

/-- A signed vote stays signed. -/
theorem CoreStep.signedVotes_subset {env : Env} {c c' : Core} {e : Event}
    (step : CoreStep env c e c') : c.signedVotes ⊆ c'.signedVotes := by
  cases step with
  | restart _ _ _ restored =>
    subst restored
    exact List.Subset.refl _
  | move _ move =>
    cases move with
    | sign => exact subset_append_left _ _
    | _ => exact List.Subset.refl _

/-- The nodes by host. -/
abbrev Network (ι : Type*) := ι → Node

namespace Network

variable {ι : Type*}

/-- A validator of some host has signed the vote. -/
def Signed (net : Network ι) (ballot : Ballot) (validatorIndex : Nat) : Prop :=
  ∃ host, ∃ v ∈ (net host).signedVotes, v.1.type = ballot.type ∧ v.1.roundKey = ballot.key ∧
    v.1.blockHash = some ballot.hash ∧ v.1.validatorIndex = validatorIndex

instance [Fintype ι] (net : Network ι) (ballot : Ballot) (i : Nat) :
    Decidable (net.Signed ballot i) :=
  inferInstanceAs (Decidable (∃ host, ∃ v ∈ (net host).signedVotes, _))

/-- The hosts agree on the validators, and each honest validator has one host. -/
structure Hosted (el : Electorate) (envs : ι → Env) : Prop where
  roundValidators : ∀ host, (envs host).roundValidators = el.roundValidators
  registered_lt : ∀ host blockNumber, ∀ i ∈ (envs host).registered blockNumber,
    i < el.roundValidators blockNumber
  registered_unique : ∀ blockNumber, ∀ i ∉ el.byzantine blockNumber, ∀ host host',
    i ∈ (envs host).registered blockNumber → i ∈ (envs host').registered blockNumber → host = host'

/-- What a host takes from outside carries genuine signatures. -/
def Delivers (el : Electorate) (check : Ballot → List Nat → Bytes → Bool) (net : Network ι)
    (event : ι × Event) : Prop :=
  event.2.Readable ∧ (net event.1).Receives el check net.Signed event.2

instance [Fintype ι] (el : Electorate) (check : Ballot → List Nat → Bytes → Bool)
    (net : Network ι) (event : ι × Event) : Decidable (Delivers el check net event) :=
  inferInstanceAs (Decidable (_ ∧ _))

/-- One host takes a step. -/
def step [DecidableEq ι] (envs : ι → Env) (net : Network ι) (event : ι × Event) :
    Option (Network ι) :=
  ((net event.1).transition (envs event.1) event.2).map (update net event.1)

/-- The networks that the hosts reach from empty consensus stores. -/
abbrev Runs [DecidableEq ι] (el : Electorate) (check : Ballot → List Nat → Bytes → Bool)
    (envs : ι → Env) (databases : ι → BlockHeader) : Network ι → Prop :=
  Transition.Reach (step envs) (Delivers el check) fun host => Node.start (databases host)

variable {el : Electorate} {check : Ballot → List Nat → Bytes → Bool} {envs : ι → Env}
variable {net net' : Network ι} {event : ι × Event}

/-- What every honest node keeps. -/
structure Lawful (el : Electorate) (envs : ι → Env) (net : Network ι) : Prop where
  sound : ∀ host, (net host).Sound (envs host)
  locks : ∀ host, (net host).Locks (envs host)
  ruled : ∀ host, (net host).Ruled el net.Signed

theorem lawful_start (databases : ι → BlockHeader) :
    Lawful el envs fun host => Node.start (databases host) where
  sound := fun host => Core.sound_start (databases host)
  locks := fun host => Core.locks_start (databases host)
  ruled := fun host =>
    Core.ruled_off (by simp [Tables.empty]) (by simp) (by simp) (by simp) (by simp)

/-- The step of one host leaves the others as they are, with one more vote they may come to
know of. -/
theorem Lawful.step [DecidableEq ι] (hosted : Hosted el envs) (h : Lawful el envs net)
    (delivers : Delivers el check net event) (taken : step envs net event = some net') :
    Lawful el envs net' := by
  obtain ⟨host, e⟩ := event
  obtain ⟨n', moved, rfl⟩ := Option.map_eq_some_iff.mp taken
  obtain ⟨readable, receives⟩ := delivers
  have core := Node.transition_step moved
  have more : ∀ ballot i, net.Signed ballot i → Signed (update net host n') ballot i := by
    rintro ballot i ⟨other, v, member, vote⟩
    refine ⟨other, v, ?_, vote⟩
    by_cases own : other = host
    · subst own
      rw [update_self]
      exact core.signedVotes_subset member
    · rwa [update_of_ne own]
  -- The rules of the host that moved, and of the others.
  have ruled : n'.Ruled el (Signed (update net host n')) := by
    have before := (h.ruled host).mono more
    have published : (net host).Published (Signed (update net host n')) := by
      intro v member hash named
      exact more _ _ ⟨host, v, member, rfl, rfl, named, rfl⟩
    cases core with
    | move up move =>
      exact before.move (hosted.roundValidators host) (hosted.registered_lt host) (h.sound host)
        (h.locks host) published (receives.mono more) up move
    | restart off same booted restored =>
      subst same
      obtain rfl := readable
      rw [restored]
      exact before.restart (h.sound host).recorded booted
  constructor
  · intro other
    by_cases own : other = host
    · subst own
      rw [update_self]
      exact (h.sound other).step readable core
    · rw [update_of_ne own]
      exact h.sound other
  · intro other
    by_cases own : other = host
    · subst own
      rw [update_self]
      exact (h.locks other).step core
    · rw [update_of_ne own]
      exact h.locks other
  · intro other
    by_cases own : other = host
    · subst own
      rw [update_self]
      exact ruled
    · rw [update_of_ne own]
      exact (h.ruled other).mono more

/-- The votes of the honest validators at one block number keep the rules of the locking
argument. -/
theorem Lawful.disciplined (hosted : Hosted el envs) (h : Lawful el envs net) (blockNumber : Nat) :
    Locking.Disciplined (Finset.range (el.roundValidators blockNumber)) (el.byzantine blockNumber)
      (fun i round hash => net.Signed ⟨.prevote, ⟨blockNumber, round⟩, hash⟩ i)
      (fun i round hash => net.Signed ⟨.precommit, ⟨blockNumber, round⟩, hash⟩ i) := by
  -- Two votes of an honest validator are signed by one host.
  have one_host {i : Nat} (honest : i ∉ el.byzantine blockNumber) {host host' : ι}
      {v w : Message × Bytes} (hv : v ∈ (net host).signedVotes) (hw : w ∈ (net host').signedVotes)
      (numberV : v.1.blockNumber = blockNumber) (numberW : w.1.blockNumber = blockNumber)
      (indexV : v.1.validatorIndex = i) (indexW : w.1.validatorIndex = i) : host = host' := by
    have first := (h.sound host).voted.registered v hv
    have second := (h.sound host').voted.registered w hw
    rw [numberV, indexV] at first
    rw [numberW, indexW] at second
    exact hosted.registered_unique blockNumber i honest host host' first second
  constructor
  · rintro i honest round x y ⟨host, v, hv, typeV, keyV, hashV, indexV⟩
      ⟨host', w, hw, typeW, keyW, hashW, indexW⟩
    have numberV : v.1.blockNumber = blockNumber := congrArg RoundKey.blockNumber keyV
    have numberW : w.1.blockNumber = blockNumber := congrArg RoundKey.blockNumber keyW
    obtain rfl := one_host honest hv hw numberV numberW indexV indexW
    have equal := (h.sound host).voted.unique (mem_map_of_mem hv) (mem_map_of_mem hw)
      (typeV.trans typeW.symm) (numberV.trans numberW.symm)
      (congrArg RoundKey.round (keyV.trans keyW.symm)) (indexV.trans indexW.symm)
    rw [equal] at hashV
    exact Option.some.inj (hashV.symm.trans hashW)
  · rintro i honest round x ⟨host, v, hv, typeV, keyV, hashV, -⟩
    have backed := (h.ruled host).precommit_backed v hv typeV x hashV
    rw [keyV] at backed
    exact backed
  · rintro i honest r x r' y ⟨host, v, hv, typeV, keyV, hashV, indexV⟩
      ⟨host', w, hw, typeW, keyW, hashW, indexW⟩ later
    have numberV : v.1.blockNumber = blockNumber := congrArg RoundKey.blockNumber keyV
    have numberW : w.1.blockNumber = blockNumber := congrArg RoundKey.blockNumber keyW
    have roundV : v.1.round = r := congrArg RoundKey.round keyV
    have roundW : w.1.round = r' := congrArg RoundKey.round keyW
    obtain rfl := one_host honest hv hw numberV numberW indexV indexW
    obtain ⟨locked, after, before, z, backed, reason⟩ := (h.ruled host).prevote_locked v hv w hw
      typeV typeW x hashV y hashW (numberV.trans numberW.symm) (by omega)
    rw [keyW] at before backed reason
    exact ⟨locked, z, roundV ▸ after, before, backed, reason⟩

/-- No two honest nodes commit blocks with different hashes at the same block number. -/
theorem committedBlocks_agree [DecidableEq ι] {databases : ι → BlockHeader}
    (hosted : Hosted el envs) (run : Runs el check envs databases net)
    {host host' : ι} {block block' : BlockHeader} (committed : block ∈ (net host).committedBlocks)
    (committed' : block' ∈ (net host').committedBlocks)
    (sameNumber : block.number = block'.number) : block.hash = block'.hash := by
  have lawful : Lawful el envs net := run.invariant (P := Lawful el envs) (lawful_start databases)
    fun _ _ _ h delivers taken => h.step hosted delivers taken
  obtain ⟨round, decided⟩ := (lawful.ruled host).committed block committed
  obtain ⟨round', decided'⟩ := (lawful.ruled host').committed block' committed'
  rw [← sameNumber] at decided'
  have few : (el.byzantine block.number).card * 3 <
      (Finset.range (el.roundValidators block.number)).card := by
    rw [Finset.card_range]
    exact el.few block.number
  exact (lawful.disciplined hosted block.number).agreement few decided decided'

/-- Four validators, the last of them byzantine. -/
def fourElectorate : Electorate := ⟨fun _ => 4, fun _ => {3}, by simp⟩

/-- One node has the first two validators, the other the third. -/
def fourEnvs (host : Bool) : Env :=
  { Node.soloEnv with
    roundValidators := fun _ => 4, registered := fun _ => if host then [0, 1] else [2] }

def fourProposal : Proposal := .fresh ⟨1, [7], 0⟩ 0 0 []

/-- The validators of a node vote once its state is durable. -/
def casts (validators : Nat) : List Event :=
  [.flush, Node.succeeds, Node.succeeds] ++
  (replicate validators [Node.succeeds, Node.succeeds, .flush, Node.succeeds]).flatten ++ [.abort]

/-- Votes of one type arrive, by validator and hash. -/
def arrive (type : MessageType) (votes : List (Nat × Bytes)) : List Event :=
  votes.flatMap fun (i, hash) =>
    [.processMessage ⟨type, 1, 0, some hash, i, []⟩,
      .messageVerified ⟨type, 1, 0, some hash, i, []⟩ true, .flush]

/-- A node gets the proposal and the votes and commits. The tickets are those of what it got. -/
def commits (validators : Nat) (votes : List (Nat × Bytes)) (tickets : List Nat) : List Event :=
  .restart true true :: replicate 14 Node.succeeds ++
  [.receiveProposal fourProposal, .proposalVerified fourProposal true, .flush, .handle ⟨1, 0⟩] ++
  replicate 5 Node.succeeds ++ casts validators ++
  arrive .prevote votes ++ .handle ⟨1, 0⟩ :: replicate 4 Node.succeeds ++ casts validators ++
  arrive .precommit votes ++ tickets.map .incomingSaved ++
  .handle ⟨1, 0⟩ :: replicate 10 Node.succeeds

/-- The byzantine validator votes for the block at one node and for another at the other. -/
def fourEvents : List (Bool × Event) :=
  (commits 2 [(0, [7]), (1, [7]), (3, [7])] [1, 5, 6, 7, 11, 12, 13]).map (true, ·) ++
  (commits 1 [(3, [8]), (0, [7]), (1, [7]), (2, [7])] [1, 4, 5, 6, 7, 10, 11, 12, 13]).map (false, ·)

theorem committedBlocks_agree_four :
    ∃ net, Runs fourElectorate (fun _ _ _ => true) fourEnvs (fun _ => Node.genesisHeader) net ∧
      (net true).committedBlocks = [⟨1, [7], 0⟩] ∧ (net false).committedBlocks ≠ [] ∧
      ∀ block ∈ (net false).committedBlocks, block.number = 1 → [7] = block.hash := by
  have evaluated : (Transition.run (step fourEnvs) (fun _ => Node.start Node.genesisHeader)
      fourEvents).map (fun net => ((net true).committedBlocks, (net false).committedBlocks)) =
        some ([⟨1, [7], 0⟩], [⟨1, [7], 0⟩]) := by
    decide +kernel
  have guarded : Transition.Guarded (step fourEnvs) (Delivers fourElectorate (fun _ _ _ => true))
      (fun _ => Node.start Node.genesisHeader) fourEvents := by
    decide +kernel
  obtain ⟨net, run, observed⟩ := Transition.Reach.exists_of_run evaluated guarded
  obtain ⟨first, other⟩ := Prod.mk.inj observed
  have hosted : Hosted fourElectorate fourEnvs := {
    roundValidators := fun host => by cases host <;> rfl
    registered_lt := fun host _ => by cases host <;> simp [fourEnvs, fourElectorate]
    registered_unique := fun blockNumber i _ host host' member member' => by
      cases host <;> cases host' <;> simp_all [fourEnvs] }
  refine ⟨net, run, first, by simp [other], ?_⟩
  intro block committed number
  have own : ⟨1, [7], 0⟩ ∈ (net true).committedBlocks := by
    rw [first]
    exact mem_singleton_self _
  exact committedBlocks_agree hosted run own committed number.symm

end Network

end Mainsail
