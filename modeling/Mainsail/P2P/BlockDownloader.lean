import Mainsail.P2P.GetBlocks
import Mainsail.P2P.Headers

/-!
# The block downloader

`BlockDownloader` keeps a list of jobs, each for a range of block numbers. The ranges are requested
at the same time and processed in their order: a run of `#processBlocks` decodes the blocks of the first
job, verifies them and hands them to consensus one after the other. Every await of it is an event of its
own here, so that replies, other calls and the commits of consensus come in between. What the source does
without an await is cut into pieces as well, and `todo` says which piece comes next: no other event is
taken before it.

A block is committed in two moves. `BlockProcessor.commit` stores it, and consensus goes to the next
block number once all commit handlers are done.
-/

namespace Mainsail.P2P

open List Nat

/-- `MAX_DOWNLOAD_BLOCKS_JOBS`. -/
def maxDownloadBlocksJobs : Nat := 10

structure Peer where
  ip : String
  /-- The block number of its last header. -/
  blockNumber : Nat
  deriving DecidableEq, Repr

inductive JobStatus
  | downloading
  | readyToProcess
  | processing
  deriving DecidableEq, Repr

/-- Jobs are compared as objects, for which the `id` stands. -/
structure DownloadJob where
  id : Nat
  peer : Peer
  blockNumberFrom : Nat
  blockNumberTo : Nat
  blocks : List Bytes
  status : JobStatus
  deriving DecidableEq, Repr

/-- `CommitProcessor.process`, as far as it has come. -/
inductive ProcessCall
  /-- `handleCommitState` waits for the handler lock. -/
  | queued
  /-- The block is stored. -/
  | committing
  | returned (result : ProcessorResult)
  deriving DecidableEq, Repr

/-- What a run of `#processBlocks` awaits. -/
inductive ProcessPhase
  | decoding (slice : List Bytes)
  | verifying (commits : List Commit)
  | calling (commit : Commit) (commits : List Commit) (call : ProcessCall)
  deriving DecidableEq, Repr

/-- What the run awaits can be rejected. -/
def ProcessPhase.CanReject : ProcessPhase → Prop
  | .decoding _ | .verifying _ | .calling _ _ .queued => True
  | .calling _ _ _ => False

instance : DecidablePred ProcessPhase.CanReject := fun phase =>
  match phase with
  | .decoding _ | .verifying _ | .calling _ _ .queued => inferInstanceAs (Decidable True)
  | .calling _ _ .committing | .calling _ _ (.returned _) => inferInstanceAs (Decidable False)

/-- A call whose block was stored returns once consensus has gone on. -/
def ProcessPhase.commitFinished : ProcessPhase → ProcessPhase
  | .calling commit commits .committing => .calling commit commits (.returned .accepted)
  | phase => phase

/-- The variables of `#processBlocks`. -/
structure Progress where
  job : DownloadJob
  number : Nat
  previousBlockHash : Bytes
  bytesForProcess : List Bytes
  deriving DecidableEq, Repr

structure ProcessRun extends Progress where
  phase : ProcessPhase
  deriving DecidableEq, Repr

/-- What is left to do before the next event. -/
inductive DownloadTodo
  | idle
  | processNextJob
  | replayJob (job : DownloadJob)
  deriving DecidableEq, Repr

/-- What the downloader calls. -/
structure DownloadEnv where
  /-- `CommitFactory.fromBytes`. -/
  fromBytes : Bytes → Option Commit
  /-- `CommitProcessor.hasValidSignature`, under the validators of some moment. -/
  hasValidSignature : Nat → Commit → Bytes → Bool
  /-- `roundHeight + maxValidators` of the round of a block, unless `calculateRound` throws. -/
  roundEnd : Nat → Option Nat
  /-- The milestone of a block number. -/
  maxPayload : Nat → Nat

/-- The downloader, with what it reads of the store and of consensus. -/
structure BlockDownloads where
  jobs : List DownloadJob
  nextId : Nat
  /-- The jobs whose `getBlocks` is in flight. -/
  requests : List Nat
  runs : List ProcessRun
  pendingCommits : List Commit
  banned : List Peer
  /-- The jobs that were removed because all their blocks had been processed. -/
  completed : List DownloadJob
  todo : DownloadTodo
  /-- The last block of the store. -/
  lastBlock : BlockHeader
  /-- The block number of consensus. -/
  blockNumber : Nat
  /-- A block is stored and consensus has not gone on yet. -/
  isCommitting : Bool
  deriving DecidableEq, Repr

namespace BlockDownloads

def start (lastBlock : BlockHeader) : BlockDownloads where
  jobs := []
  nextId := 0
  requests := []
  runs := []
  pendingCommits := []
  banned := []
  completed := []
  todo := .idle
  lastBlock := lastBlock
  blockNumber := lastBlock.number + 1
  isCommitting := false

section Definitions

variable (env : DownloadEnv) (st : BlockDownloads)

/-- `stateStore.getBlockNumber`. -/
def stored : Nat := st.lastBlock.number

def isDownloading : Bool := !st.jobs.isEmpty

def getLastRequestedBlockNumber : Nat :=
  match st.jobs.getLast? with
  | none => st.stored
  | some latestJob => latestJob.blockNumberTo

def calculateBlockNumberTo (peer : Peer) (lastRequestedBlockNumber : Nat) : Nat :=
  if peer.blockNumber - lastRequestedBlockNumber > maxDownloadBlocks then
    lastRequestedBlockNumber + maxDownloadBlocks
  else peer.blockNumber - 1

/-- A new job. -/
def newJob (peer : Peer) (blockNumberFrom blockNumberTo : Nat) : DownloadJob :=
  ⟨st.nextId, peer, blockNumberFrom, blockNumberTo, [], .downloading⟩

/-- The job with the next `id` has been put among the jobs, and its blocks are requested. -/
def request (jobs : List DownloadJob) : BlockDownloads :=
  { st with jobs := jobs, nextId := st.nextId + 1, requests := st.nextId :: st.requests }

def download (peer : Peer) : BlockDownloads :=
  if peer.blockNumber - 1 ≤ st.getLastRequestedBlockNumber ∨ maxDownloadBlocksJobs ≤ st.jobs.length then
    st
  else
    st.request (st.jobs ++ [st.newJob peer (st.getLastRequestedBlockNumber + 1)
      (calculateBlockNumberTo peer st.getLastRequestedBlockNumber)])

/-- `indexOf`, with the jobs before and after. -/
def locate (id : Nat) : List DownloadJob → Option (List DownloadJob × DownloadJob × List DownloadJob)
  | [] => none
  | job :: jobs =>
    if job.id = id then some ([], job, jobs)
    else (locate id jobs).map fun (before, found, after) => (job :: before, found, after)

def banPeer (peer : Peer) : BlockDownloads := { st with banned := peer :: st.banned }

/-- `getRandomPeer`, for a random number. -/
def getRandomPeer (peers : List Peer) (random : Nat) : Option Peer := peers[random % peers.length]?

/-- `#replayJob`. The peers are those of the repository. -/
def replayJob (peers : List Peer) (random : Nat) (id : Nat) : BlockDownloads :=
  match locate id st.jobs with
  | none => st
  | some (before, job, after) =>
    let isFirstJob := before.isEmpty
    let isSoleJob := before.isEmpty && after.isEmpty
    let blockNumberFrom := if isFirstJob then st.stored + 1 else job.blockNumberFrom
    let requiredBlockNumber :=
      if isSoleJob then blockNumberFrom else max blockNumberFrom job.blockNumberTo
    match getRandomPeer (peers.filter fun peer => requiredBlockNumber < peer.blockNumber) random with
    | none => { st with jobs := before }
    | some peer =>
      let blockNumberTo :=
        if isSoleJob then calculateBlockNumberTo peer (blockNumberFrom - 1) else job.blockNumberTo
      if isFirstJob ∧ blockNumberFrom > blockNumberTo then { st with jobs := after }
      else st.request (before ++ st.newJob peer blockNumberFrom blockNumberTo :: after)

/-- `#handleJobError` up to the replay. -/
def jobFailed (job : DownloadJob) : BlockDownloads :=
  match locate job.id st.jobs with
  | none => { st with todo := .idle }
  | some _ => { st.banPeer job.peer with todo := .replayJob job }

/-- `#handleMissingBlocks` up to the replay. -/
def blocksMissing (job : DownloadJob) : BlockDownloads :=
  let st := if bansForMissing (env.maxPayload (st.stored + 1)) job.blocks then st.banPeer job.peer else st
  { st with todo := .replayJob job }

/-- `#skipAppliedBlocks`: how many blocks are dropped. -/
def skipCount (blocks : List Bytes) (fromBlockNumber storedBlockNumber : Nat) : Nat :=
  if fromBlockNumber > storedBlockNumber then 0
  else min blocks.length (storedBlockNumber - fromBlockNumber + 1)

/-- An error in a run of `#processBlocks`. -/
def fail (p : Progress) : BlockDownloads := { st.jobFailed p.job with pendingCommits := [] }

/-- The end of `#processBlocks`, when all blocks have been processed. -/
def finish (p : Progress) : BlockDownloads :=
  let st := { st with pendingCommits := [] }
  if p.job.blockNumberTo + 1 ≠ p.number then st.blocksMissing env p.job
  else { st with jobs := st.jobs.tail, completed := p.job :: st.completed, todo := .processNextJob }

/-- A run of `#processBlocks` comes to an await. -/
def await (p : Progress) (phase : ProcessPhase) : BlockDownloads :=
  { st with runs := ⟨p, phase⟩ :: st.runs, todo := .idle }

/-- The top of the loop over the slices. -/
def nextSlice (p : Progress) : BlockDownloads :=
  match p.bytesForProcess with
  | [] => st.finish env p
  | bytes =>
    match env.roundEnd p.number with
    | none => st.fail p
    | some roundEnd =>
      st.await { p with bytesForProcess := bytes.drop (roundEnd - p.number) }
        (.decoding (bytes.take (roundEnd - p.number)))

/-- The variables at the start of `#processBlocks`. -/
def progress (job : DownloadJob) : Progress where
  job := job
  number := job.blockNumberFrom + skipCount job.blocks job.blockNumberFrom st.stored
  previousBlockHash := st.lastBlock.hash
  bytesForProcess := job.blocks.drop (skipCount job.blocks job.blockNumberFrom st.stored)

def processNextJob : BlockDownloads :=
  match st.jobs with
  | [] => { st with todo := .idle }
  | job :: jobs =>
    if job.status ≠ .readyToProcess then { st with todo := .idle }
    else
      let job := { job with status := .processing }
      { st with jobs := job :: jobs }.nextSlice env (st.progress job)

/-- The next turn of the loop over the commits of a slice: `CommitProcessor.process` is called. -/
def nextCommit (p : Progress) : List Commit → BlockDownloads
  | [] => st.nextSlice env p
  | commit :: commits =>
    { st with pendingCommits := st.pendingCommits.filter (·.block.number ≠ commit.block.number) }.await p
      (.calling commit commits
        (if commit.block.number = st.blockNumber then .queued else .returned .skipped))

/-- Each commit is verified against the hash of the one before it. -/
def hasValidSignatures (era : Nat) : (previousBlockHash : Bytes) → List Commit → Bool
  | _, [] => true
  | previousBlockHash, commit :: commits =>
    env.hasValidSignature era commit previousBlockHash &&
      hasValidSignatures era commit.block.hash commits

def hasExpectedNumbers (number : Nat) (commits : List Commit) : Bool :=
  commits.map (·.block.number) = range' number commits.length

/-! ## The continuations of a run -/

def decoded (p : Progress) (slice : List Bytes) : BlockDownloads :=
  match slice.mapM env.fromBytes with
  | none => st.fail p
  | some commits =>
    if hasExpectedNumbers p.number commits then st.await p (.verifying commits) else st.fail p

def verified (era : Nat) (p : Progress) (commits : List Commit) : BlockDownloads :=
  if hasValidSignatures env era p.previousBlockHash commits then
    { st with
      pendingCommits := commits ++ st.pendingCommits.filter fun (pending : Commit) =>
        commits.all (·.block.number ≠ pending.block.number) }.nextCommit env p commits
  else st.fail p

/-- The lock has been taken. `success` is the result of `#processBlock`. -/
def handled (success : Bool) (p : Progress) (commit : Commit) (commits : List Commit) : BlockDownloads :=
  if commit.block.number ≠ st.blockNumber then st.await p (.calling commit commits (.returned .skipped))
  else if success then
    { st with lastBlock := commit.block, isCommitting := true }.await p
      (.calling commit commits .committing)
  else st.await p (.calling commit commits (.returned .invalid))

def resumed (p : Progress) (commit : Commit) (commits : List Commit) (result : ProcessorResult) :
    BlockDownloads :=
  if result = .invalid then st.fail p
  else
    st.nextCommit env { p with number := p.number + 1, previousBlockHash := commit.block.hash } commits

end Definitions

/-! ## Events -/

inductive Event
  | download (peer : Peer)
  | reply (id : Nat) (blocks : List Bytes)
  /-- A request fails. The peers are those of the repository. -/
  | replyFails (id : Nat) (peers : List Peer) (random : Nat)
  /-- `#processNextJob`, as the next piece. -/
  | processNextJob
  /-- `#replayJob` out of `#processBlocks`, as the next piece. -/
  | replayJob (peers : List Peer) (random : Nat)
  | decoded (id : Nat)
  | verified (id : Nat) (era : Nat)
  /-- What a run awaits is rejected. -/
  | rejected (id : Nat)
  | handled (id : Nat) (success : Bool)
  | resumed (id : Nat)
  /-- Consensus stores a block that it has decided itself. -/
  | commitLive (block : BlockHeader)
  /-- Consensus goes to the next block number. -/
  | commitFinished
  deriving DecidableEq, Repr

/-- The reply of a request: the job takes the blocks, if it is still there. -/
def replied (st : BlockDownloads) (id : Nat) (blocks : List Bytes) : BlockDownloads :=
  { st with
    requests := st.requests.erase id
    jobs := st.jobs.map fun job =>
      if job.id = id then { job with blocks := blocks, status := .readyToProcess } else job
    todo := .processNextJob }

def replyFailed (st : BlockDownloads) (id : Nat) (peers : List Peer) (random : Nat) : BlockDownloads :=
  let st := { st with requests := st.requests.erase id }
  let st :=
    match locate id st.jobs with
    | none => st
    | some (_, job, _) => (st.banPeer job.peer).replayJob peers random id
  { st with todo := .processNextJob }

def commitLive (st : BlockDownloads) (block : BlockHeader) : BlockDownloads :=
  { st with lastBlock := block, isCommitting := true }

def commitFinished (st : BlockDownloads) : BlockDownloads :=
  { st with
    blockNumber := st.blockNumber + 1
    isCommitting := false
    runs := st.runs.map fun run => { run with phase := run.phase.commitFinished } }

/-- The continuation of a run. -/
def continueRun (env : DownloadEnv) (st : BlockDownloads) (run : ProcessRun) (event : Event) :
    Option BlockDownloads :=
  match event, run.phase with
  | .decoded _, .decoding slice => some (st.decoded env run.toProgress slice)
  | .verified _ era, .verifying commits => some (st.verified env era run.toProgress commits)
  | .rejected _, phase => if phase.CanReject then some (st.fail run.toProgress) else none
  | .handled _ success, .calling commit commits .queued =>
    if st.isCommitting then none else some (st.handled success run.toProgress commit commits)
  | .resumed _, .calling commit commits (.returned result) =>
    some (st.resumed env run.toProgress commit commits result)
  | _, _ => none

/-- The run that an event continues. -/
def Event.run : Event → Option Nat
  | .decoded id | .verified id _ | .rejected id | .handled id _ | .resumed id => some id
  | _ => none

/-- The state while a run goes on. -/
def without (st : BlockDownloads) (id : Nat) : BlockDownloads :=
  { st with runs := st.runs.filter (·.job.id ≠ id) }

def step (env : DownloadEnv) (st : BlockDownloads) (event : Event) : Option BlockDownloads :=
  match event, st.todo with
  | .processNextJob, .processNextJob => some (st.processNextJob env)
  | .replayJob peers random, .replayJob job =>
    some { st.replayJob peers random job.id with todo := .idle }
  | .download peer, .idle => some (st.download peer)
  | .reply id blocks, .idle => if id ∈ st.requests then some (st.replied id blocks) else none
  | .replyFails id peers random, .idle =>
    if id ∈ st.requests then some (st.replyFailed id peers random) else none
  | .commitLive block, .idle =>
    if st.isCommitting = false ∧ block.number = st.blockNumber then some (st.commitLive block) else none
  | .commitFinished, .idle => if st.isCommitting then some st.commitFinished else none
  | event, .idle =>
    event.run.bind fun id =>
      (st.runs.find? (·.job.id = id)).bind fun run =>
        (st.without id).continueRun env run event
  | _, _ => none

/-! ## What the functions do -/

variable {env : DownloadEnv} {st st' : BlockDownloads} {peers : List Peer} {random : Nat}

/-- A run and what it awaits, before an event that continues it. -/
structure Continues (st : BlockDownloads) (id : Nat) (run : ProcessRun) (phase : ProcessPhase) : Prop where
  found : st.runs.find? (·.job.id = id) = some run
  phase : run.phase = phase
  idle : st.todo = .idle

/-- What a step does. -/
inductive Moved (env : DownloadEnv) (st : BlockDownloads) : Event → BlockDownloads → Prop
  | processNextJob (todo : st.todo = .processNextJob) : Moved env st .processNextJob (st.processNextJob env)
  | replayJob {peers : List Peer} {random : Nat} {job : DownloadJob} (todo : st.todo = .replayJob job) :
      Moved env st (.replayJob peers random) { st.replayJob peers random job.id with todo := .idle }
  | download {peer : Peer} (idle : st.todo = .idle) : Moved env st (.download peer) (st.download peer)
  | reply {id : Nat} {blocks : List Bytes} (idle : st.todo = .idle) (requested : id ∈ st.requests) :
      Moved env st (.reply id blocks) (st.replied id blocks)
  | replyFails {id : Nat} {peers : List Peer} {random : Nat} (idle : st.todo = .idle)
      (requested : id ∈ st.requests) :
      Moved env st (.replyFails id peers random) (st.replyFailed id peers random)
  | commitLive {block : BlockHeader} (idle : st.todo = .idle) (free : st.isCommitting = false)
      (number : block.number = st.blockNumber) : Moved env st (.commitLive block) (st.commitLive block)
  | commitFinished (idle : st.todo = .idle) (committing : st.isCommitting = true) :
      Moved env st .commitFinished st.commitFinished
  | decoded {id : Nat} {run : ProcessRun} {slice : List Bytes}
      (continues : st.Continues id run (.decoding slice)) :
      Moved env st (.decoded id) ((st.without id).decoded env run.toProgress slice)
  | verified {id era : Nat} {run : ProcessRun} {commits : List Commit}
      (continues : st.Continues id run (.verifying commits)) :
      Moved env st (.verified id era) ((st.without id).verified env era run.toProgress commits)
  | rejected {id : Nat} {run : ProcessRun} (continues : st.Continues id run run.phase) :
      Moved env st (.rejected id) ((st.without id).fail run.toProgress)
  | handled {id : Nat} {run : ProcessRun} {commit : Commit} {commits : List Commit} {success : Bool}
      (continues : st.Continues id run (.calling commit commits .queued)) (free : st.isCommitting = false) :
      Moved env st (.handled id success) ((st.without id).handled success run.toProgress commit commits)
  | resumed {id : Nat} {run : ProcessRun} {commit : Commit} {commits : List Commit}
      {result : ProcessorResult}
      (continues : st.Continues id run (.calling commit commits (.returned result))) :
      Moved env st (.resumed id) ((st.without id).resumed env run.toProgress commit commits result)

variable {id : Nat} {event : Event} {jobs before after : List DownloadJob} {job : DownloadJob}
variable {peer : Peer}

theorem moved_of_continueRun {run : ProcessRun} (is : event.run = some id)
    (found : st.runs.find? (·.job.id = id) = some run) (idle : st.todo = .idle)
    (taken : (st.without id).continueRun env run event = some st') : Moved env st event st' := by
  unfold continueRun at taken
  split at taken
  · next phase =>
    cases is
    cases taken
    exact .decoded ⟨found, phase, idle⟩
  · next phase =>
    cases is
    cases taken
    exact .verified ⟨found, phase, idle⟩
  · cases is
    split_ifs at taken
    cases taken
    exact .rejected ⟨found, rfl, idle⟩
  · next phase =>
    cases is
    split_ifs at taken with committing
    cases taken
    exact .handled ⟨found, phase, idle⟩ (Bool.eq_false_of_not_eq_true committing)
  · next phase =>
    cases is
    cases taken
    exact .resumed ⟨found, phase, idle⟩
  · contradiction

theorem moved_of_step (taken : st.step env event = some st') : Moved env st event st' := by
  unfold step at taken
  split at taken
  · next todo =>
    cases taken
    exact .processNextJob todo
  · next todo =>
    cases taken
    exact .replayJob todo
  · next idle =>
    cases taken
    exact .download idle
  · next idle =>
    split_ifs at taken with requested
    cases taken
    exact .reply idle requested
  · next idle =>
    split_ifs at taken with requested
    cases taken
    exact .replyFails idle requested
  · next idle =>
    split_ifs at taken with free
    cases taken
    exact .commitLive idle free.1 free.2
  · next idle =>
    split_ifs at taken with committing
    cases taken
    exact .commitFinished idle committing
  · obtain ⟨id, is, taken⟩ := Option.bind_eq_some_iff.mp taken
    obtain ⟨run, found, taken⟩ := Option.bind_eq_some_iff.mp taken
    exact moved_of_continueRun is found (by assumption) taken
  · contradiction

theorem eq_append_of_locate
    (h : locate id jobs = some (before, job, after)) : jobs = before ++ job :: after ∧ job.id = id := by
  induction jobs generalizing before with
  | nil => contradiction
  | cons first jobs ih =>
    simp only [locate] at h
    split_ifs at h with found
    · obtain ⟨rfl, rfl, rfl⟩ : [] = before ∧ first = job ∧ jobs = after := by simpa using h
      exact ⟨rfl, found⟩
    · obtain ⟨⟨before', job', after'⟩, located, eq⟩ := Option.map_eq_some_iff.mp h
      obtain ⟨rfl, rfl, rfl⟩ : first :: before' = before ∧ job' = job ∧ after' = after := by
        simpa using eq
      obtain ⟨rfl, same⟩ := ih located
      exact ⟨rfl, same⟩

theorem locate_eq_none_iff : locate id jobs = none ↔ ∀ job ∈ jobs, job.id ≠ id := by
  induction jobs with
  | nil => simp [locate]
  | cons first jobs ih =>
    simp only [locate, forall_mem_cons]
    split_ifs with found
    · simp [found]
    · simp [found, ih]

theorem locate_head :
    locate job.id (job :: jobs) = some ([], job, jobs) := if_pos rfl

theorem getRandomPeer_eq_none_iff : getRandomPeer peers random = none ↔ peers = [] := by
  cases peers with
  | nil => simp [getRandomPeer]
  | cons peer peers =>
    simp only [getRandomPeer, getElem?_eq_none_iff, reduceCtorEq, iff_false, not_le]
    exact mod_lt _ (zero_lt_succ _)

theorem getRandomPeer_mem (h : getRandomPeer peers random = some peer) : peer ∈ peers :=
  mem_of_getElem? h

theorem le_calculateBlockNumberTo {last : Nat} (above : last + 1 < peer.blockNumber) :
    last + 1 ≤ calculateBlockNumberTo peer last := by
  unfold calculateBlockNumberTo maxDownloadBlocks
  split_ifs <;> omega

variable (peers random) in
/-- A replay gives up the job and those after it, gives up the job because its blocks have all been
applied, or asks another peer. -/
theorem replayJob_cases (found : locate id st.jobs = some (before, job, after)) :
    st.replayJob peers random id = { st with jobs := before } ∨
    (before = [] ∧ after ≠ [] ∧ job.blockNumberTo ≤ st.stored ∧
      (∃ peer ∈ peers, st.stored + 1 < peer.blockNumber) ∧
      st.replayJob peers random id = { st with jobs := after }) ∨
    ∃ peer first last, (before ≠ [] → first = job.blockNumberFrom) ∧
      (before = [] → first = st.stored + 1 ∧ first ≤ last) ∧
      (before ≠ [] ∨ after ≠ [] → last = job.blockNumberTo) ∧
      st.replayJob peers random id = st.request (before ++ st.newJob peer first last :: after) := by
  unfold replayJob
  rw [found]
  dsimp only
  split
  · exact .inl rfl
  · next peer picked =>
    have member := getRandomPeer_mem picked
    rw [mem_filter, decide_eq_true_eq] at member
    refine .inr ?_
    cases before with
    | nil =>
      cases after with
      | nil =>
        have le : st.stored + 1 ≤ calculateBlockNumberTo peer (st.stored + 1 - 1) :=
          le_calculateBlockNumberTo (by simpa using member.2)
        refine .inr ⟨peer, st.stored + 1, calculateBlockNumberTo peer (st.stored + 1 - 1), by simp,
          fun _ => ⟨rfl, le⟩, by simp, ?_⟩
        exact if_neg fun beyond => not_lt.mpr le beyond.2
      | cons next after =>
        by_cases applied : st.stored + 1 > job.blockNumberTo
        · refine .inl ⟨rfl, by simp, Nat.lt_succ_iff.mp applied, ⟨peer, member.1, ?_⟩, ?_⟩
          · have := member.2
            simp at this
            omega
          · exact if_pos ⟨rfl, applied⟩
        · refine .inr ⟨peer, st.stored + 1, job.blockNumberTo, by simp,
            fun _ => ⟨rfl, Nat.le_of_not_lt applied⟩, by simp, ?_⟩
          exact if_neg fun beyond => applied beyond.2
    | cons first before =>
      refine .inr ⟨peer, job.blockNumberFrom, job.blockNumberTo, by simp, by simp, by simp, ?_⟩
      exact if_neg fun beyond => by simp at beyond

variable (random) in
/-- The replay of a first job whose blocks have all been applied. -/
theorem replayJob_applied {next : DownloadJob}
    (jobs : st.jobs = job :: next :: after) (applied : job.blockNumberTo ≤ st.stored)
    (above : ∃ peer ∈ peers, st.stored + 1 < peer.blockNumber) :
    st.replayJob peers random job.id = { st with jobs := next :: after } := by
  have required : max (st.stored + 1) job.blockNumberTo = st.stored + 1 := by omega
  unfold replayJob
  rw [jobs, locate_head]
  simp only [isEmpty_nil, isEmpty_cons, Bool.and_false, Bool.false_eq_true, if_true, if_false,
    required]
  split
  · next none =>
    rw [getRandomPeer_eq_none_iff, filter_eq_nil_iff] at none
    obtain ⟨peer, member, higher⟩ := above
    exact absurd (decide_eq_true higher) (none peer member)
  · exact if_pos ⟨trivial, lt_succ_of_le applied⟩

end BlockDownloads

end Mainsail.P2P
