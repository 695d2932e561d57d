import Mainsail.P2P.BlockDownloadRuns
import Mathlib.Data.List.Chain

/-!
# The order of the block downloads

The jobs cover consecutive ranges, and their blocks reach consensus in order. Both rest on one fact: a
commit for which `CommitProcessor.process` returns is one that consensus has passed. `process` skips a
commit of another block number than that of consensus, and in the moment between the two moves of a
commit this is the block number of a block that is already stored. A commit of the next block is then
skipped as well, although nobody has applied it.
-/

namespace Mainsail.P2P

open List Nat BlockDownloads

/-- The hash of the block that was decided for each number. A valid commit over a decided block is for
the decided block that follows. -/
def DownloadEnv.Agrees (env : DownloadEnv) (chain : Nat → Bytes) : Prop :=
  ∀ era commit n, commit.block.number = n + 1 → env.hasValidSignature era commit (chain n) = true →
    commit.block.hash = chain (n + 1)

namespace BlockDownloads

variable {env : DownloadEnv} {chain : Nat → Bytes} {st st' : BlockDownloads} {p : Progress}
variable {peers : List Peer} {random : Nat}

/-! ## Ranges -/

/-- The jobs cover consecutive ranges that start at the next block or below. -/
structure Ranges (stored : Nat) (jobs : List DownloadJob) : Prop where
  consecutive : jobs.IsChain fun job next => next.blockNumberFrom = job.blockNumberTo + 1
  nonempty : ∀ job ∈ jobs, job.blockNumberFrom ≤ job.blockNumberTo
  first : ∀ job ∈ jobs.head?, job.blockNumberFrom ≤ stored + 1

namespace Ranges

variable {stored stored' : Nat} {jobs before after : List DownloadJob} {job : DownloadJob}

theorem nil : Ranges stored [] := ⟨.nil, by simp, by simp⟩

theorem mono (h : Ranges stored jobs) (le : stored ≤ stored') : Ranges stored' jobs :=
  ⟨h.consecutive, h.nonempty, fun job is => (h.first job is).trans (succ_le_succ le)⟩

theorem left (h : Ranges stored (before ++ after)) : Ranges stored before where
  consecutive := h.consecutive.left_of_append
  nonempty := fun job member => h.nonempty job (mem_append_left _ member)
  first := by
    cases before with
    | nil => simp
    | cons job before => exact h.first

/-- The first job is removed once all its blocks are stored. -/
theorem tail (h : Ranges stored (job :: jobs)) (reached : job.blockNumberTo ≤ stored) :
    Ranges stored jobs where
  consecutive := h.consecutive.tail
  nonempty := fun other member => h.nonempty other (mem_cons_of_mem _ member)
  first := by
    intro next is
    rw [(isChain_cons.mp h.consecutive).1 next is]
    exact succ_le_succ reached

/-- Only the ranges count. -/
theorem map (h : Ranges stored jobs) {f : DownloadJob → DownloadJob}
    (same : ∀ job, (f job).blockNumberFrom = job.blockNumberFrom ∧
      (f job).blockNumberTo = job.blockNumberTo) : Ranges stored (jobs.map f) where
  consecutive := by
    rw [isChain_map]
    simpa only [same] using h.consecutive
  nonempty := by
    rw [forall_mem_map]
    simpa only [same] using h.nonempty
  first := by
    intro job is
    rw [head?_map] at is
    obtain ⟨old, was, rfl⟩ := Option.map_eq_some_iff.mp is
    rw [(same old).1]
    exact h.first old was

variable {new : DownloadJob}

/-- A job takes the place of another with the same range. -/
theorem replace (h : Ranges stored (before ++ job :: after))
    (first : new.blockNumberFrom = job.blockNumberFrom) (last : new.blockNumberTo = job.blockNumberTo) :
    Ranges stored (before ++ new :: after) where
  consecutive := by
    have chain := h.consecutive
    rw [isChain_append, isChain_cons] at chain ⊢
    obtain ⟨left, ⟨next, right⟩, joined⟩ := chain
    refine ⟨left, ⟨?_, right⟩, ?_⟩
    · rw [last]
      exact next
    · intro previous is other eq
      cases eq
      rw [first]
      exact joined previous is job rfl
  nonempty := by
    intro other member
    rcases mem_cons.mp (perm_middle.mem_iff.mp member) with rfl | member
    · rw [first, last]
      exact h.nonempty job (mem_append_right _ mem_cons_self)
    · exact h.nonempty other (perm_middle.mem_iff.mpr (mem_cons_of_mem _ member))
  first := by
    cases before with
    | nil =>
      intro other eq
      cases eq
      rw [first]
      exact h.first job rfl
    | cons previous before => exact h.first

/-- The first job starts later. -/
theorem restart (h : Ranges stored (job :: jobs))
    (first : new.blockNumberFrom = stored + 1) (le : new.blockNumberFrom ≤ new.blockNumberTo)
    (last : jobs ≠ [] → new.blockNumberTo = job.blockNumberTo) : Ranges stored (new :: jobs) where
  consecutive := by
    obtain ⟨next, rest⟩ := isChain_cons.mp h.consecutive
    refine isChain_cons.mpr ⟨fun other is => ?_, rest⟩
    rw [last fun none => by simp [none] at is]
    exact next other is
  nonempty := by
    obtain ⟨-, rest⟩ := forall_mem_cons.mp h.nonempty
    exact forall_mem_cons.mpr ⟨le, rest⟩
  first := by
    intro other eq
    cases eq
    exact first.le

end Ranges

theorem Ranges.download (h : Ranges st.stored st.jobs) (peer : Peer) :
    Ranges st.stored (st.download peer).jobs := by
  unfold BlockDownloads.download
  split_ifs with skip
  · exact h
  · rw [not_or] at skip
    set last := st.getLastRequestedBlockNumber with is
    have le : last + 1 ≤ calculateBlockNumberTo peer last := le_calculateBlockNumberTo (by omega)
    refine ⟨isChain_append.mpr ⟨h.consecutive, .singleton _, ?_⟩, ?_, ?_⟩
    · intro latest found new eq
      cases eq
      show last + 1 = latest.blockNumberTo + 1
      rw [is, getLastRequestedBlockNumber, Option.mem_def.mp found]
    · intro job member
      rcases mem_append.mp member with member | member
      · exact h.nonempty job member
      · obtain rfl := mem_singleton.mp member
        exact le
    · intro job found
      cases jobs : st.jobs with
      | nil =>
        simp only [request, jobs, nil_append, head?_cons] at found
        cases found
        show last + 1 ≤ st.stored + 1
        rw [is, getLastRequestedBlockNumber, jobs]
        exact le_rfl
      | cons first rest =>
        refine h.first job ?_
        simpa [request, jobs] using found

variable (peers random) in
/-- A replay changes the jobs and their requests only. -/
theorem replayJob_frame (id : Nat) :
    (st.replayJob peers random id).runs = st.runs ∧
    (st.replayJob peers random id).completed = st.completed ∧
    (st.replayJob peers random id).lastBlock = st.lastBlock ∧
    (st.replayJob peers random id).blockNumber = st.blockNumber ∧
    (st.replayJob peers random id).isCommitting = st.isCommitting := by
  cases found : locate id st.jobs with
  | none =>
    unfold replayJob
    rw [found]
    exact ⟨rfl, rfl, rfl, rfl, rfl⟩
  | some parts =>
    rcases replayJob_cases peers random found with eq | ⟨-, -, -, -, eq⟩ | ⟨_, _, _, -, -, -, eq⟩
    all_goals
      rw [eq]
      exact ⟨rfl, rfl, rfl, rfl, rfl⟩

/-- A replay keeps the ranges. -/
theorem Ranges.replayJob (h : Ranges st.stored st.jobs) (id : Nat) :
    Ranges st.stored (st.replayJob peers random id).jobs := by
  cases found : locate id st.jobs with
  | none =>
    unfold BlockDownloads.replayJob
    rw [found]
    exact h
  | some parts =>
    obtain ⟨before, job, after⟩ := parts
    obtain ⟨jobs, -⟩ := eq_append_of_locate found
    rw [jobs] at h
    rcases replayJob_cases peers random found with
      eq | ⟨rfl, -, applied, -, eq⟩ | ⟨peer, first, last, same, restart, keeps, eq⟩
    · rw [eq]
      exact h.left
    · rw [eq]
      exact h.tail applied
    · rw [eq]
      cases before with
      | nil =>
        obtain ⟨start, le⟩ := restart rfl
        exact Ranges.restart h start le fun more => keeps (.inr more)
      | cons previous before =>
        exact h.replace (same (cons_ne_nil _ _)) (keeps (.inl (cons_ne_nil _ _)))

/-! ## Commits -/

/-- Commits of consecutive numbers, each verified against the one before it. -/
def Verified (env : DownloadEnv) : (number : Nat) → (previousBlockHash : Bytes) → List Commit → Prop
  | _, _, [] => True
  | number, previousBlockHash, commit :: commits =>
    commit.block.number = number ∧ (∃ era, env.hasValidSignature era commit previousBlockHash = true) ∧
      Verified env (number + 1) commit.block.hash commits

variable {era : Nat} {commits : List Commit}

theorem verified_of_hasValidSignatures {number : Nat} {previousBlockHash : Bytes}
    (numbers : hasExpectedNumbers number commits = true)
    (signatures : hasValidSignatures env era previousBlockHash commits = true) :
    Verified env number previousBlockHash commits := by
  induction commits generalizing number previousBlockHash with
  | nil => trivial
  | cons commit commits ih =>
    simp only [hasExpectedNumbers, map_cons, length_cons, range'_succ, cons.injEq,
      decide_eq_true_eq] at numbers
    simp only [hasValidSignatures, Bool.and_eq_true] at signatures
    exact ⟨numbers.1, ⟨era, signatures.1⟩, ih (decide_eq_true numbers.2) signatures.2⟩

/-- The hash that the next commit is verified against is that of the block before it. -/
def Linked (chain : Nat → Bytes) (p : Progress) : Prop :=
  ∃ n, p.number = n + 1 ∧ p.previousBlockHash = chain n

/-- What a call of `CommitProcessor.process` says of the block number of consensus. -/
def Passed (blockNumber : Nat) (isCommitting : Bool) (number : Nat) : ProcessCall → Prop
  | .queued => number ≤ blockNumber
  | .committing => isCommitting = true ∧ number = blockNumber
  | .returned .invalid => True
  | .returned .accepted | .returned .skipped => number < blockNumber

def PhaseSound (env : DownloadEnv) (blockNumber : Nat) (isCommitting : Bool) (p : Progress) :
    ProcessPhase → Prop
  | .decoding _ => True
  | .verifying commits => hasExpectedNumbers p.number commits = true
  | .calling commit commits call =>
    Verified env p.number p.previousBlockHash (commit :: commits) ∧
      Passed blockNumber isCommitting p.number call

/-- A run is at a block that follows a stored one. -/
structure RunSound (env : DownloadEnv) (chain : Nat → Bytes) (stored blockNumber : Nat)
    (isCommitting : Bool) (run : ProcessRun) : Prop where
  reached : run.number ≤ stored + 1
  linked : Linked chain run.toProgress
  phase : PhaseSound env blockNumber isCommitting run.toProgress run.phase

/-- A run starts at the next block, unless all the blocks of its job are stored. -/
theorem progress_number {job : DownloadJob} (first : job.blockNumberFrom ≤ st.stored + 1) :
    (st.progress job).number ≤ st.stored + 1 ∧
      ((st.progress job).bytesForProcess ≠ [] → (st.progress job).number = st.stored + 1) := by
  simp only [progress, skipCount, ne_eq, drop_eq_nil_iff]
  split_ifs <;> omega

/-- What does not depend on the runs. -/
structure Base (chain : Nat → Bytes) (st : BlockDownloads) : Prop where
  ranges : Ranges st.stored st.jobs
  completed : ∀ job ∈ st.completed, job.blockNumberTo ≤ st.stored
  hash : st.lastBlock.hash = chain st.stored
  blockNumber : st.blockNumber + st.isCommitting.toNat = st.stored + 1

structure Sound (env : DownloadEnv) (chain : Nat → Bytes) (st : BlockDownloads) : Prop where
  wired : st.Wired
  base : st.Base chain
  runs : ∀ run ∈ st.runs, RunSound env chain st.stored st.blockNumber st.isCommitting run

/-- The state in the middle of a run of `#processBlocks`. -/
structure Working (chain : Nat → Bytes) (st : BlockDownloads) (p : Progress) : Prop where
  busy : st.Busy p
  base : st.Base chain
  reached : p.number ≤ st.stored + 1

namespace Working

variable (h : st.Working chain p)
include h

theorem await {q : Progress} (same : q.job = p.job)
    (reached : q.number ≤ st.stored + 1) (linked : Linked chain q) {phase : ProcessPhase}
    (sound : PhaseSound env st.blockNumber st.isCommitting q phase) : (st.await q phase).Sound env chain := by
  refine ⟨h.busy.await q same phase, { h.base with }, ?_⟩
  intro run member
  rw [BlockDownloads.await, h.busy.runs] at member
  obtain rfl := mem_singleton.mp member
  exact ⟨reached, linked, sound⟩

theorem fail : (st.fail p).Sound env chain := by
  refine ⟨h.busy.fail, ?_, ?_⟩
  all_goals
    rw [BlockDownloads.fail, h.busy.jobFailed_eq]
  · exact { h.base with }
  · intro run member
    have was : run ∈ st.runs := member
    rw [h.busy.runs] at was
    contradiction

theorem finish : (st.finish env p).Sound env chain := by
  refine ⟨h.busy.finish, ?_, ?_⟩
  · unfold BlockDownloads.finish blocksMissing
    dsimp only
    split_ifs with short bans
    · exact { h.base with }
    · exact { h.base with }
    · obtain ⟨rest, head, -⟩ := h.busy.head
      have reached : p.job.blockNumberTo ≤ st.stored := by
        have := h.reached
        omega
      refine ⟨?_, forall_mem_cons.mpr ⟨reached, h.base.completed⟩, h.base.hash, h.base.blockNumber⟩
      show Ranges st.stored st.jobs.tail
      have ranges := h.base.ranges
      rw [head] at ranges ⊢
      exact ranges.tail reached
  · have runs : (st.finish env p).runs = [] := by
      rw [← h.busy.runs]
      unfold BlockDownloads.finish blocksMissing
      dsimp only
      split_ifs <;> rfl
    rw [runs]
    simp

theorem nextSlice (linked : p.bytesForProcess ≠ [] → Linked chain p) :
    (st.nextSlice env p).Sound env chain := by
  unfold BlockDownloads.nextSlice
  split
  · exact h.finish
  · next some =>
    split
    · exact h.fail
    · refine h.await ?_ ?_ ?_ ?_
      · rfl
      · exact h.reached
      · exact linked some
      · trivial

theorem nextCommit (linked : Linked chain p)
    (verified : Verified env p.number p.previousBlockHash commits)
    (passed : commits ≠ [] → p.number ≤ st.blockNumber) :
    (st.nextCommit env p commits).Sound env chain := by
  cases commits with
  | nil => exact h.nextSlice fun _ => linked
  | cons commit commits =>
    have le := passed (cons_ne_nil _ _)
    have working : Working chain { st with
        pendingCommits := st.pendingCommits.filter (·.block.number ≠ commit.block.number) } p :=
      ⟨{ h.busy with },
        { h.base with }, h.reached⟩
    refine working.await rfl h.reached linked ⟨verified, ?_⟩
    split_ifs with current
    · exact le
    · show p.number < st.blockNumber
      rw [verified.1] at current
      omega

end Working

/-! ## One step -/

/-- A block that consensus has decided itself is the one of the chain. -/
def Decided (chain : Nat → Bytes) : Event → Prop
  | .commitLive block => block.hash = chain block.number
  | _ => True

/-- The signatures of a slice are not verified in the moment in which the block before it is stored and
consensus has not gone on yet. -/
def InStep (st : BlockDownloads) : Event → Prop
  | .verified id _ =>
    st.isCommitting = true → ∀ run ∈ st.runs, run.job.id = id → run.number ≠ st.stored + 1
  | _ => True

instance (chain : Nat → Bytes) (event : Event) : Decidable (Decided chain event) := by
  unfold Decided
  split <;> infer_instance

instance (st : BlockDownloads) (event : Event) : Decidable (st.InStep event) := by
  unfold InStep
  split <;> infer_instance

namespace Sound

variable {id : Nat} {run : ProcessRun} {phase : ProcessPhase}

theorem start {lastBlock : BlockHeader} (decided : lastBlock.hash = chain lastBlock.number) :
    (start lastBlock).Sound env chain where
  wired := .start lastBlock
  base := ⟨.nil, by simp [BlockDownloads.start], decided, rfl⟩
  runs := by simp [BlockDownloads.start]

section

variable (h : st.Sound env chain)
include h

/-- The state in the middle of the run that an event continues. -/
theorem continues (continues : st.Continues id run phase) :
    (st.without id).Working chain run.toProgress ∧ Linked chain run.toProgress ∧
      PhaseSound env st.blockNumber st.isCommitting run.toProgress phase := by
  have sound := h.runs run (mem_of_find?_eq_some continues.found)
  have base := h.base
  refine ⟨⟨(h.wired.continues continues).2, { base with },
    sound.reached⟩, sound.linked, ?_⟩
  rw [← continues.phase]
  exact sound.phase

/-- The jobs change and nothing else that counts. -/
theorem change (wired : st'.Wired) (ranges : Ranges st.stored st'.jobs)
    (runs : st'.runs = st.runs) (completed : st'.completed = st.completed)
    (lastBlock : st'.lastBlock = st.lastBlock) (blockNumber : st'.blockNumber = st.blockNumber)
    (isCommitting : st'.isCommitting = st.isCommitting) : st'.Sound env chain := by
  have stored : st'.stored = st.stored := congrArg BlockHeader.number lastBlock
  refine ⟨wired, ⟨?_, ?_, ?_, ?_⟩, ?_⟩
  · rw [stored]
    exact ranges
  · rw [stored, completed]
    exact h.base.completed
  · rw [stored, lastBlock]
    exact h.base.hash
  · rw [stored, blockNumber, isCommitting]
    exact h.base.blockNumber
  · rw [runs, stored, blockNumber, isCommitting]
    exact h.runs

theorem processNextJob (todo : st.todo = .processNextJob) :
    (st.processNextJob env).Sound env chain := by
  have wired : (st.processNextJob env).Wired := h.wired.processNextJob todo
  unfold BlockDownloads.processNextJob at wired ⊢
  split at wired
  · exact h.change wired h.base.ranges rfl rfl rfl rfl rfl
  · next job jobs head =>
    split_ifs at wired ⊢ with ready
    · exact h.change wired h.base.ranges rfl rfl rfl rfl rfl
    · have ranges := h.base.ranges
      rw [head] at ranges
      have same : Ranges st.stored ({ job with status := .processing } :: jobs) :=
        Ranges.replace (show Ranges st.stored ([] ++ job :: jobs) from ranges) rfl rfl
      obtain ⟨le, next⟩ := progress_number (ranges.first job rfl)
      have working : Working chain { st with jobs := { job with status := .processing } :: jobs }
          (st.progress { job with status := .processing }) :=
        ⟨h.wired.busy_of_ready todo head (not_not.mp ready),
          ⟨same, h.base.completed, h.base.hash, h.base.blockNumber⟩, le⟩
      refine working.nextSlice fun some => ⟨st.stored, next some, h.base.hash⟩

theorem commitLive (wired : (st.commitLive block).Wired)
    (free : st.isCommitting = false) (number : block.number = st.blockNumber)
    (decided : block.hash = chain block.number) : (st.commitLive block).Sound env chain := by
  have next : block.number = st.stored + 1 := by
    have := h.base.blockNumber
    rw [free] at this
    rw [number]
    exact this
  have le : st.stored ≤ block.number := next ▸ le_succ _
  refine ⟨wired, ⟨h.base.ranges.mono le, fun job member => (h.base.completed job member).trans le, decided,
    congrArg succ number.symm⟩, fun run member => ?_⟩
  obtain ⟨reached, linked, phase⟩ := h.runs run member
  refine ⟨reached.trans (succ_le_succ le), linked, ?_⟩
  show PhaseSound env st.blockNumber true run.toProgress run.phase
  generalize run.phase = awaited at phase ⊢
  cases awaited with
  | decoding => trivial
  | verifying => exact phase
  | calling commit commits call =>
    refine ⟨phase.1, ?_⟩
    cases call with
    | committing => exact ⟨rfl, phase.2.2⟩
    | queued => exact phase.2
    | returned result => cases result <;> exact phase.2

theorem commitFinished (wired : st.commitFinished.Wired)
    (committing : st.isCommitting = true) : st.commitFinished.Sound env chain := by
  have number : st.blockNumber = st.stored := by
    have := h.base.blockNumber
    rw [committing] at this
    exact succ.inj this
  refine ⟨wired, ⟨h.base.ranges, h.base.completed, h.base.hash, congrArg succ number⟩, ?_⟩
  rintro _ member
  obtain ⟨run, was, rfl⟩ := mem_map.mp member
  obtain ⟨reached, linked, phase⟩ := h.runs run was
  refine ⟨reached, linked, ?_⟩
  show PhaseSound env (st.blockNumber + 1) false run.toProgress run.phase.commitFinished
  generalize run.phase = awaited at phase ⊢
  cases awaited with
  | decoding => trivial
  | verifying => exact phase
  | calling commit commits call =>
    obtain ⟨verified, passed⟩ := phase
    cases call with
    | queued => exact ⟨verified, le_succ_of_le passed⟩
    | committing => exact ⟨verified, passed.2 ▸ lt_succ_self _⟩
    | returned result =>
      refine ⟨verified, ?_⟩
      cases result with
      | invalid => trivial
      | accepted | skipped => exact lt_succ_of_lt passed

end

variable {commit : Commit}

variable (h : st.Sound env chain)
include h

theorem handled (agrees : env.Agrees chain) {success : Bool}
    (continues : st.Continues id run (.calling commit commits .queued)) (free : st.isCommitting = false) :
    ((st.without id).handled success run.toProgress commit commits).Sound env chain := by
  obtain ⟨working, linked, verified, passed⟩ := h.continues continues
  have current : st.blockNumber = st.stored + 1 := by
    have := h.base.blockNumber
    rw [free] at this
    exact this
  unfold BlockDownloads.handled
  split_ifs with other
  · refine working.await rfl working.reached linked ⟨verified, ?_⟩
    rw [verified.1] at other
    exact lt_of_le_of_ne passed other
  · rw [not_not] at other
    have next : commit.block.number = st.stored + 1 := other.trans current
    obtain ⟨n, number, hash⟩ := linked
    obtain ⟨era, valid⟩ := verified.2.1
    rw [hash] at valid
    have decided := agrees era commit n (verified.1.trans number) valid
    have le : st.stored ≤ commit.block.number := next ▸ le_succ _
    have moved : Working chain
        { st.without id with lastBlock := commit.block, isCommitting := true } run.toProgress :=
      ⟨{ working.busy with },
        ⟨working.base.ranges.mono le, fun job member => (working.base.completed job member).trans le,
          by rw [decided, ← number, ← verified.1]; rfl, congrArg succ other.symm⟩,
        working.reached.trans (succ_le_succ le)⟩
    exact moved.await rfl moved.reached ⟨n, number, hash⟩ ⟨verified, rfl, verified.1.symm.trans other⟩
  · exact working.await rfl working.reached linked ⟨verified, trivial⟩

theorem resumed (agrees : env.Agrees chain) {result : ProcessorResult}
    (continues : st.Continues id run (.calling commit commits (.returned result))) :
    ((st.without id).resumed env run.toProgress commit commits result).Sound env chain := by
  obtain ⟨working, ⟨n, number, hash⟩, verified, passed⟩ := h.continues continues
  unfold BlockDownloads.resumed
  split_ifs with invalid
  · exact working.fail
  · have passed : run.number < st.blockNumber := by
      cases result with
      | invalid => contradiction
      | accepted | skipped => exact passed
    have le : st.blockNumber ≤ st.stored + 1 := by
      have := h.base.blockNumber
      omega
    obtain ⟨era, valid⟩ := verified.2.1
    rw [hash] at valid
    have decided := agrees era commit n (verified.1.trans number) valid
    have moved : Working chain (st.without id)
        { run.toProgress with number := run.number + 1, previousBlockHash := commit.block.hash } :=
      ⟨{ working.busy with }, working.base,
        passed.trans_le le⟩
    exact moved.nextCommit ⟨n + 1, congrArg succ number, decided⟩ verified.2.2 fun _ => passed

theorem verified
    (inStep : st.InStep (.verified id era)) (continues : st.Continues id run (.verifying commits)) :
    ((st.without id).verified env era run.toProgress commits).Sound env chain := by
  obtain ⟨working, linked, numbers⟩ := h.continues continues
  unfold BlockDownloads.verified
  split_ifs with valid
  · have moved : Working chain { st.without id with
        pendingCommits := commits ++ (st.without id).pendingCommits.filter fun (pending : Commit) =>
          commits.all (·.block.number ≠ pending.block.number) } run.toProgress :=
      ⟨{ working.busy with },
        { working.base with },
        working.reached⟩
    refine moved.nextCommit linked (verified_of_hasValidSignatures numbers valid) fun _ => ?_
    show run.number ≤ st.blockNumber
    have reached : run.number ≤ st.stored + 1 := working.reached
    have number := h.base.blockNumber
    cases committing : st.isCommitting with
    | false =>
      rw [committing] at number
      exact reached.trans number.ge
    | true =>
      rw [committing] at number
      have is : run.job.id = id := by simpa using find?_some continues.found
      have other := inStep committing run (mem_of_find?_eq_some continues.found) is
      simp only [Bool.toNat_true] at number
      omega
  · exact working.fail

theorem step (agrees : env.Agrees chain) {event : Event} (decided : Decided chain event)
    (inStep : st.InStep event) (taken : st.step env event = some st') : st'.Sound env chain := by
  have wired : st'.Wired := h.wired.step taken
  cases moved_of_step taken with
  | processNextJob todo => exact h.processNextJob todo
  | @replayJob peers random job todo =>
    obtain ⟨runs, completed, lastBlock, blockNumber, isCommitting⟩ := replayJob_frame peers random job.id
    exact h.change wired (h.base.ranges.replayJob job.id) runs completed lastBlock blockNumber isCommitting
  | @download peer idle =>
    refine h.change wired (h.base.ranges.download peer) ?_ ?_ ?_ ?_ ?_
    all_goals
      unfold download
      split_ifs <;> rfl
  | reply idle requested =>
    refine h.change wired (h.base.ranges.map fun job => ?_) rfl rfl rfl rfl rfl
    split_ifs <;> exact ⟨rfl, rfl⟩
  | @replyFails id peers random idle requested =>
    unfold replyFailed at wired ⊢
    dsimp only at wired ⊢
    cases found : locate id st.jobs with
    | none =>
      rw [found] at wired
      exact h.change wired h.base.ranges rfl rfl rfl rfl rfl
    | some parts =>
      rw [found] at wired
      set erased := { st with requests := st.requests.erase id }.banPeer parts.2.1.peer
      have ranges : Ranges erased.stored erased.jobs := h.base.ranges
      obtain ⟨runs, completed, lastBlock, blockNumber, isCommitting⟩ :=
        @replayJob_frame erased peers random id
      exact h.change wired (ranges.replayJob id) runs completed lastBlock blockNumber isCommitting
  | commitLive idle free number => exact h.commitLive wired free number decided
  | commitFinished idle committing => exact h.commitFinished wired committing
  | decoded continues =>
    obtain ⟨working, linked, -⟩ := h.continues continues
    unfold decoded
    split
    · exact working.fail
    · split_ifs with numbers
      · exact working.await rfl working.reached linked numbers
      · exact working.fail
  | verified continues => exact h.verified inStep continues
  | rejected continues => exact (h.continues continues).1.fail
  | handled continues free => exact h.handled agrees continues free
  | resumed continues => exact h.resumed agrees continues

end Sound

/-! ## Runs -/

/-- The jobs cover consecutive ranges, the first not beyond the next block. Only the first job is
processed. The commit that consensus is asked to process is verified against the block before it. And
a job is completed when all its blocks are stored. -/
structure Ordered (env : DownloadEnv) (chain : Nat → Bytes) (st : BlockDownloads) : Prop where
  ranges : Ranges st.stored st.jobs
  processing : ∀ index job, st.jobs[index]? = some job → job.status = .processing → index = 0
  verified : ∀ run ∈ st.runs, ∀ commit commits call, run.phase = .calling commit commits call →
    ∃ n era, commit.block.number = n + 1 ∧ env.hasValidSignature era commit (chain n) = true
  completed : ∀ job ∈ st.completed, job.blockNumberTo ≤ st.stored

theorem Wired.processing (h : st.Wired) {index : Nat} {job : DownloadJob}
    (found : st.jobs[index]? = some job) (status : job.status = .processing) : index = 0 := by
  have rest : ∀ other jobs, st.jobs = other :: jobs → (∀ job ∈ jobs, job.status ≠ .processing) →
      index = 0 := by
    intro other jobs head unprocessed
    rw [head] at found
    cases index with
    | zero => rfl
    | succ index =>
      rw [getElem?_cons_succ] at found
      exact absurd status (unprocessed job (mem_of_getElem? found))
  have shape := h.shape
  generalize st.runs = runs, st.todo = todo at shape
  cases shape with
  | quiet unprocessed => exact absurd status (unprocessed job (mem_of_getElem? found))
  | running run jobs head _ unprocessed => exact rest run.job jobs head unprocessed
  | replaying other jobs head _ unprocessed => exact rest other jobs head unprocessed

theorem Sound.ordered (h : st.Sound env chain) : st.Ordered env chain where
  ranges := h.base.ranges
  processing := fun _ _ found status => h.wired.processing found status
  verified := by
    intro run member commit commits call is
    obtain ⟨-, ⟨n, number, hash⟩, phase⟩ := h.runs run member
    rw [is] at phase
    obtain ⟨era, valid⟩ := phase.1.2.1
    exact ⟨n, era, phase.1.1.trans number, hash ▸ valid⟩
  completed := h.base.completed

/-- The blocks that are committed are those of the chain. In a run in which no slice is verified between
the two moves of the commit of the block before it, the downloads stay in order. -/
theorem ordered_of_runs (agrees : env.Agrees chain) {lastBlock : BlockHeader}
    (first : lastBlock.hash = chain lastBlock.number)
    (run : Runs env (fun st event => Decided chain event ∧ st.InStep event) lastBlock st) :
    st.Ordered env chain := by
  have sound : st.Sound env chain :=
    run.invariant (P := fun st => st.Sound env chain) (.start first)
      fun _ _ _ sound ok taken => sound.step agrees ok.1 ok.2 taken
  exact sound.ordered

open Overtaking

theorem agrees_node : node.Agrees hashes := by
  intro era commit n number valid
  rw [← number]
  exact (of_decide_eq_true valid).1

/-- A job for blocks 5 and 6 is requested, consensus stores block 5 itself, and the blocks arrive. -/
def Overtaking.decoding : List Event :=
  [.download (peer 7), .commitLive (block 5), .reply 0 [[5], [6]], .processNextJob, .decoded 0]

/-- Consensus goes on before the signatures are verified. -/
def Overtaking.applied : List Event :=
  decoding ++ [.commitFinished, .verified 0 0, .handled 0 true, .commitFinished, .resumed 0]

theorem ordered_of_runs_completed :
    ∃ st : BlockDownloads, st.Ordered node hashes ∧ (st.completed.length, st.stored) = (1, 6) := by
  have ran : (Transition.run (step node) (start (block 4)) applied).map
      (fun st => (st.completed.length, st.stored)) = some (1, 6) := by
    decide +kernel
  have guarded : Transition.Guarded (step node) (fun st event => Decided hashes event ∧ st.InStep event)
      (start (block 4)) applied := by
    decide +kernel
  obtain ⟨st, run, observed⟩ := Transition.Reach.exists_of_run ran guarded
  exact ⟨st, ordered_of_runs agrees_node rfl run, observed⟩

/-- Block 6 is verified before consensus has gone on to it. It is skipped, and the job is completed with
block 5 as the last one. -/
theorem exists_completed_not_stored :
    ∃ st, Runs node (fun _ event => Decided hashes event) (block 4) st ∧ ¬ st.Ordered node hashes := by
  have ran : (Transition.run (step node) (start (block 4)) (decoding ++ [.verified 0 0, .resumed 0])).map
      (fun st => (st.completed.map (·.blockNumberTo), st.stored)) = some ([6], 5) := by
    decide +kernel
  have guarded : Transition.Guarded (step node) (fun _ event => Decided hashes event) (start (block 4))
      (decoding ++ [.verified 0 0, .resumed 0]) := by
    decide +kernel
  obtain ⟨st, run, observed⟩ := Transition.Reach.exists_of_run ran guarded
  obtain ⟨completed, stored⟩ := Prod.mk.inj observed
  refine ⟨st, run, fun ordered => ?_⟩
  obtain ⟨job, member, last⟩ : ∃ job ∈ st.completed, job.blockNumberTo = 6 := by
    simpa using mem_map.mp (completed ▸ mem_singleton_self 6)
  have := ordered.completed job member
  omega

end BlockDownloads

end Mainsail.P2P
