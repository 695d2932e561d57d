import Mainsail.P2P.BlockDownloader

/-!
# Runs of the block downloader

Every job that is downloading has its request in flight, and the only job that is processed is the
first.
-/

namespace Mainsail.P2P.BlockDownloads

open BlockDownloads List

variable {env : DownloadEnv} {st st' : BlockDownloads} {p : Progress}
variable {peers : List Peer} {random : Nat}

/-! ## Jobs and their requests -/

/-- The jobs are different ones, and the requests in flight are those of the jobs that are downloading
and of jobs that have been given up. -/
structure Tracked (jobs : List DownloadJob) (nextId : Nat) (requests : List Nat) : Prop where
  nodup : (jobs.map (·.id)).Nodup
  lt : ∀ job ∈ jobs, job.id < nextId
  requests_nodup : requests.Nodup
  requests_lt : ∀ id ∈ requests, id < nextId
  requested : ∀ job ∈ jobs, job.status = .downloading ↔ job.id ∈ requests

namespace Tracked

variable {jobs jobs' before after : List DownloadJob} {nextId id : Nat} {requests : List Nat}
variable {job : DownloadJob}

theorem nil : Tracked [] 0 [] := by constructor <;> simp

theorem sublist (h : Tracked jobs nextId requests) (sub : jobs'.Sublist jobs) :
    Tracked jobs' nextId requests where
  nodup := h.nodup.sublist (sub.map _)
  lt := fun job member => h.lt job (sub.subset member)
  requests_nodup := h.requests_nodup
  requests_lt := h.requests_lt
  requested := fun job member => h.requested job (sub.subset member)

/-- A new job is put among the jobs, and its blocks are requested. -/
theorem insert (h : Tracked (before ++ after) nextId requests) (is : job.id = nextId)
    (status : job.status = .downloading) :
    Tracked (before ++ job :: after) (nextId + 1) (nextId :: requests) := by
  have perm : (before ++ job :: after).Perm (job :: (before ++ after)) := perm_middle
  have fresh : ∀ id ∈ (before ++ after).map (·.id), id ≠ nextId := by
    intro id member same
    obtain ⟨other, member', rfl⟩ := mem_map.mp member
    exact absurd (h.lt other member') (by omega)
  refine ⟨(perm.map _).nodup_iff.mpr (nodup_cons.mpr ⟨fun member => fresh _ member is, h.nodup⟩),
    ?_, nodup_cons.mpr ⟨fun member => ?_, h.requests_nodup⟩, ?_, ?_⟩
  · intro other member
    rcases mem_cons.mp (perm.mem_iff.mp member) with rfl | member
    · omega
    · exact Nat.lt_succ_of_lt (h.lt other member)
  · exact absurd (h.requests_lt _ member) (Nat.lt_irrefl _)
  · rintro id (_ | ⟨_, member⟩)
    · exact Nat.lt_succ_self _
    · exact Nat.lt_succ_of_lt (h.requests_lt id member)
  · intro other member
    rcases mem_cons.mp (perm.mem_iff.mp member) with rfl | member
    · simp [status, is]
    · have differs := fresh other.id (mem_map_of_mem member)
      rw [h.requested other member, mem_cons]
      exact ⟨.inr, fun h => h.resolve_left differs⟩

/-- A request is over that no job waits for. -/
theorem erase (h : Tracked jobs nextId requests) (absent : ∀ job ∈ jobs, job.id ≠ id) :
    Tracked jobs nextId (requests.erase id) where
  nodup := h.nodup
  lt := h.lt
  requests_nodup := h.requests_nodup.erase id
  requests_lt := fun id' member => h.requests_lt id' (mem_of_mem_erase member)
  requested := by
    intro job member
    rw [h.requested job member, Nodup.mem_erase_iff h.requests_nodup]
    exact ⟨fun requested => ⟨absent job member, requested⟩, And.right⟩

/-- A job has got its blocks. -/
theorem replied (h : Tracked jobs nextId requests) (blocks : List Bytes) :
    Tracked (jobs.map fun job =>
      if job.id = id then { job with blocks := blocks, status := .readyToProcess } else job)
      nextId (requests.erase id) := by
  have same : ∀ job : DownloadJob, (if job.id = id then
      { job with blocks := blocks, status := .readyToProcess } else job).id = job.id := by
    intro job
    split_ifs <;> rfl
  refine ⟨?_, ?_, h.requests_nodup.erase id, fun id' member => h.requests_lt id'
    (mem_of_mem_erase member), ?_⟩
  · rw [map_map]
    convert h.nodup using 2
    exact funext same
  · rw [forall_mem_map]
    intro job member
    rw [same]
    exact h.lt job member
  · rw [forall_mem_map]
    intro job member
    rw [same, Nodup.mem_erase_iff h.requests_nodup, ← h.requested job member]
    split_ifs with is
    · simp [is]
    · simp [is]

/-- A job that is not downloading takes another status of this kind. -/
theorem setStatus (h : Tracked (job :: jobs) nextId requests) (before : job.status ≠ .downloading)
    {status : JobStatus} (now : status ≠ .downloading) :
    Tracked ({ job with status := status } :: jobs) nextId requests where
  nodup := h.nodup
  lt := forall_mem_cons.mpr (forall_mem_cons.mp h.lt)
  requests_nodup := h.requests_nodup
  requests_lt := h.requests_lt
  requested := by
    obtain ⟨first, rest⟩ := forall_mem_cons.mp h.requested
    refine forall_mem_cons.mpr ⟨?_, rest⟩
    rw [← first]
    simp [before, now]

end Tracked

/-! ## The job that is processed -/

/-- No job is processed, there is a run for the first job, or the first job is about to be replayed. -/
inductive Shape (jobs : List DownloadJob) : List ProcessRun → DownloadTodo → Prop
  | quiet {todo : DownloadTodo} (unprocessed : ∀ job ∈ jobs, job.status ≠ .processing)
      (settled : ∀ job, todo ≠ .replayJob job) : Shape jobs [] todo
  | running {todo : DownloadTodo} (run : ProcessRun) (rest : List DownloadJob)
      (head : jobs = run.job :: rest) (status : run.job.status = .processing)
      (unprocessed : ∀ job ∈ rest, job.status ≠ .processing)
      (settled : ∀ job, todo ≠ .replayJob job) : Shape jobs [run] todo
  | replaying (job : DownloadJob) (rest : List DownloadJob) (head : jobs = job :: rest)
      (status : job.status = .processing) (unprocessed : ∀ job ∈ rest, job.status ≠ .processing) :
      Shape jobs [] (.replayJob job)

/-- The other jobs may change while the first one is processed. -/
theorem Shape.change {jobs jobs' : List DownloadJob} {runs : List ProcessRun} {todo todo' : DownloadTodo}
    (h : Shape jobs runs todo) (before : ∀ job, todo ≠ .replayJob job)
    (now : ∀ job, todo' ≠ .replayJob job) (nodup : (jobs'.map (·.id)).Nodup)
    (head : ∀ job rest, jobs = job :: rest → job.status = .processing → ∃ rest', jobs' = job :: rest')
    (old : ∀ job ∈ jobs', job.status = .processing → job ∈ jobs) : Shape jobs' runs todo' := by
  cases h with
  | quiet unprocessed =>
    exact .quiet (fun job member status => unprocessed job (old job member status) status) now
  | running run rest is status unprocessed =>
    obtain ⟨rest', rfl⟩ := head _ _ is status
    refine .running run rest' rfl status (fun job member processing => ?_) now
    have was := old job (mem_cons_of_mem _ member) processing
    rw [is] at was
    rcases mem_cons.mp was with rfl | was
    · exact (nodup_cons.mp nodup).1 (mem_map_of_mem member)
    · exact unprocessed job was processing
  | replaying job => exact absurd rfl (before job)

structure Wired (st : BlockDownloads) : Prop where
  tracked : Tracked st.jobs st.nextId st.requests
  shape : Shape st.jobs st.runs st.todo

/-- The state in the middle of a run of `#processBlocks`. -/
structure Busy (st : BlockDownloads) (p : Progress) : Prop where
  tracked : Tracked st.jobs st.nextId st.requests
  runs : st.runs = []
  head : ∃ rest, st.jobs = p.job :: rest ∧ ∀ job ∈ rest, job.status ≠ .processing
  status : p.job.status = .processing

namespace Busy

variable (h : st.Busy p)
include h

theorem await (q : Progress) (same : q.job = p.job) (phase : ProcessPhase) :
    (st.await q phase).Wired := by
  obtain ⟨rest, head, unprocessed⟩ := h.head
  refine ⟨h.tracked, ?_⟩
  show Shape st.jobs (⟨q, phase⟩ :: st.runs) .idle
  rw [h.runs]
  exact .running ⟨q, phase⟩ rest (same ▸ head) (same ▸ h.status) unprocessed (by simp)

theorem replaying : Shape st.jobs st.runs (.replayJob p.job) := by
  obtain ⟨rest, head, unprocessed⟩ := h.head
  rw [h.runs]
  exact .replaying p.job rest head h.status unprocessed

theorem jobFailed_eq :
    st.jobFailed p.job = { st.banPeer p.job.peer with todo := .replayJob p.job } := by
  obtain ⟨rest, head, -⟩ := h.head
  unfold jobFailed
  rw [head, locate_head]

theorem fail : (st.fail p).Wired := by
  unfold BlockDownloads.fail
  rw [h.jobFailed_eq]
  exact ⟨h.tracked, h.replaying⟩

theorem blocksMissing : (st.blocksMissing env p.job).Wired := by
  unfold BlockDownloads.blocksMissing
  dsimp only
  split_ifs <;> exact ⟨h.tracked, h.replaying⟩

theorem finish : (st.finish env p).Wired := by
  unfold BlockDownloads.finish
  dsimp only
  split_ifs
  · have busy : Busy { st with pendingCommits := [] } p := { h with }
    exact busy.blocksMissing
  · obtain ⟨rest, head, unprocessed⟩ := h.head
    refine ⟨h.tracked.sublist (tail_sublist _), ?_⟩
    show Shape st.jobs.tail st.runs .processNextJob
    rw [h.runs, head]
    exact .quiet unprocessed (by simp)

theorem nextSlice : (st.nextSlice env p).Wired := by
  unfold BlockDownloads.nextSlice
  split
  · exact h.finish
  · split
    · exact h.fail
    · refine h.await _ ?_ _
      rfl

theorem nextCommit (commits : List Commit) : (st.nextCommit env p commits).Wired := by
  cases commits with
  | nil => exact h.nextSlice
  | cons commit commits =>
    have busy : Busy { st with
        pendingCommits := st.pendingCommits.filter (·.block.number ≠ commit.block.number) } p :=
      { h with }
    exact busy.await p rfl _

end Busy

theorem Wired.start (lastBlock : BlockHeader) : (start lastBlock).Wired :=
  ⟨.nil, .quiet (by simp [BlockDownloads.start]) (by simp [BlockDownloads.start])⟩

namespace Wired

variable {id : Nat}

section

variable (h : st.Wired)
include h

/-- The run that an event continues is the one of the first job. -/
theorem continues {run : ProcessRun} {phase : ProcessPhase}
    (continues : st.Continues id run phase) :
    st.runs = [run] ∧ (st.without id).Busy run.toProgress := by
  have member := mem_of_find?_eq_some continues.found
  have is : run.job.id = id := by simpa using find?_some continues.found
  obtain ⟨tracked, shape⟩ := h
  rw [continues.idle] at shape
  generalize runs : st.runs = runs at shape member
  cases shape with
  | quiet => simp at member
  | running other rest head status unprocessed =>
    obtain rfl := mem_singleton.mp member
    refine ⟨rfl, tracked, ?_, ⟨rest, head, unprocessed⟩, status⟩
    simp [without, runs, is]

/-- The rest of the jobs changes in an idle moment. -/
theorem change (idle : st.todo = .idle) (tracked : Tracked st'.jobs st'.nextId st'.requests)
    (runs : st'.runs = st.runs) (now : ∀ job, st'.todo ≠ .replayJob job)
    (head : ∀ job rest, st.jobs = job :: rest → job.status = .processing →
      ∃ rest', st'.jobs = job :: rest')
    (old : ∀ job ∈ st'.jobs, job.status = .processing → job ∈ st.jobs) : st'.Wired := by
  refine ⟨tracked, ?_⟩
  rw [runs]
  exact h.shape.change (by simp [idle]) now tracked.nodup head old

theorem download (idle : st.todo = .idle) (peer : Peer) : (st.download peer).Wired := by
  unfold BlockDownloads.download
  split_ifs
  · exact h
  · refine h.change idle (Tracked.insert ?_ rfl rfl) rfl ?_ ?_ ?_
    · rw [append_nil]
      exact h.tracked
    · intro job
      rw [request, idle]
      simp
    · rintro job rest head -
      exact ⟨_, by rw [request, head]; rfl⟩
    · intro job member status
      rcases mem_append.mp member with member | member
      · exact member
      · obtain rfl := mem_singleton.mp member
        contradiction

/-- A job that is processed has no request in flight. -/
theorem not_requested {job : DownloadJob} (member : job ∈ st.jobs)
    (status : job.status = .processing) : job.id ∉ st.requests := by
  rw [← h.tracked.requested job member, status]
  simp

theorem replied (idle : st.todo = .idle) (requested : id ∈ st.requests)
    (blocks : List Bytes) : (st.replied id blocks).Wired := by
  refine h.change idle (h.tracked.replied blocks) rfl (fun job => by simp [BlockDownloads.replied]) ?_ ?_
  · intro job rest head status
    have other : job.id ≠ id := by
      rintro rfl
      exact h.not_requested (head ▸ mem_cons_self) status requested
    exact ⟨_, by rw [BlockDownloads.replied, head, map_cons, if_neg other]⟩
  · intro job member status
    obtain ⟨old, was, rfl⟩ := mem_map.mp member
    split_ifs at status ⊢ with is
    exact was

end

variable (peers random) in
/-- What a replay leaves of the jobs. -/
theorem replayJob_jobs {before after : List DownloadJob} {job : DownloadJob}
    (found : locate id st.jobs = some (before, job, after))
    (tracked : Tracked (before ++ after) st.nextId st.requests) :
    Tracked (st.replayJob peers random id).jobs (st.replayJob peers random id).nextId
      (st.replayJob peers random id).requests ∧
    (before ≠ [] → ∃ rest, (st.replayJob peers random id).jobs = before ++ rest) ∧
    (∀ other ∈ (st.replayJob peers random id).jobs, other.status = .processing →
      other ∈ before ++ after) ∧
    (st.replayJob peers random id).runs = st.runs := by
  rcases replayJob_cases peers random found with eq | ⟨rfl, -, -, -, eq⟩ | ⟨peer, first, last, -, -, -, eq⟩
  · rw [eq]
    exact ⟨tracked.sublist (sublist_append_left _ _), fun _ => ⟨[], by simp⟩,
      fun other member _ => mem_append_left _ member, rfl⟩
  · rw [eq]
    exact ⟨tracked, by simp, fun other member _ => member, rfl⟩
  · rw [eq]
    refine ⟨tracked.insert rfl rfl, fun _ => ⟨_, rfl⟩, fun other member status => ?_, rfl⟩
    rcases mem_cons.mp (perm_middle.mem_iff.mp member) with rfl | member
    · contradiction
    · exact member

variable (h : st.Wired)
include h

theorem replyFailed (idle : st.todo = .idle) (requested : id ∈ st.requests) :
    (st.replyFailed id peers random).Wired := by
  unfold BlockDownloads.replyFailed
  dsimp only
  cases found : locate id st.jobs with
  | none =>
    refine h.change idle (h.tracked.erase (locate_eq_none_iff.mp found)) rfl (by simp) ?_ ?_
    · intro job rest head _
      exact ⟨rest, head⟩
    · intro job member _
      exact member
  | some parts =>
    obtain ⟨before, job, after⟩ := parts
    obtain ⟨jobs, rfl⟩ := eq_append_of_locate found
    have sub : (before ++ after).Sublist st.jobs := by
      rw [jobs]
      exact (sublist_cons_self _ _).append_left _
    have absent : ∀ other ∈ before ++ after, other.id ≠ job.id := by
      have nodup := h.tracked.nodup
      rw [jobs, (perm_middle.map _).nodup_iff, map_cons, nodup_cons] at nodup
      intro other member same
      exact nodup.1 (same ▸ mem_map_of_mem member)
    set erased := { st with requests := st.requests.erase job.id }.banPeer job.peer
    have located : locate job.id erased.jobs = some (before, job, after) := found
    obtain ⟨tracked, keeps, old, runs⟩ :=
      replayJob_jobs peers random located ((h.tracked.sublist sub).erase absent)
    refine h.change idle tracked runs (by simp) ?_ ?_
    · intro other rest head status
      rw [jobs] at head
      cases before with
      | nil =>
        obtain ⟨rfl, rfl⟩ := cons.inj head
        exact absurd requested (h.not_requested (jobs ▸ mem_cons_self) status)
      | cons first before =>
        obtain ⟨rfl, -⟩ := cons.inj head
        obtain ⟨rest', eq⟩ := keeps (by simp)
        exact ⟨before ++ rest', eq⟩
    · intro other member status
      exact sub.subset (old other member status)

theorem replayJob {job : DownloadJob} (todo : st.todo = .replayJob job) :
    Wired { st.replayJob peers random job.id with todo := .idle } := by
  obtain ⟨tracked, shape⟩ := h
  rw [todo] at shape
  generalize idle : st.runs = runs at shape
  cases shape with
  | quiet _ settled | running _ _ _ _ _ settled => exact absurd rfl (settled job)
  | replaying _ rest head status unprocessed =>
    have located : locate job.id st.jobs = some ([], job, rest) := by rw [head, locate_head]
    obtain ⟨tracked, -, old, runs⟩ := replayJob_jobs peers random located
      (tracked.sublist (head ▸ sublist_cons_self _ _))
    refine ⟨tracked, ?_⟩
    show Shape (st.replayJob peers random job.id).jobs (st.replayJob peers random job.id).runs .idle
    rw [runs, idle]
    exact .quiet (fun other member status => unprocessed other (old other member status) status) (by simp)

/-- The first job is ready, so none is processed. -/
theorem busy_of_ready (todo : st.todo = .processNextJob) {job : DownloadJob}
    {jobs : List DownloadJob} (head : st.jobs = job :: jobs) (ready : job.status = .readyToProcess) :
    Busy { st with jobs := { job with status := .processing } :: jobs }
      (st.progress { job with status := .processing }) := by
  obtain ⟨tracked, shape⟩ := h
  rw [head] at tracked shape
  rw [todo] at shape
  generalize st.runs = runs at shape ⊢
  cases shape with
  | quiet unprocessed =>
    exact ⟨tracked.setStatus (by simp [ready]) (by simp), rfl,
      ⟨jobs, rfl, (forall_mem_cons.mp unprocessed).2⟩, rfl⟩
  | running run rest first status =>
    obtain rfl := (cons.inj first).1
    rw [status] at ready
    contradiction

theorem processNextJob (todo : st.todo = .processNextJob) : (st.processNextJob env).Wired := by
  have idle : Wired { st with todo := .idle } :=
    ⟨h.tracked, h.shape.change (by simp [todo]) (by simp) h.tracked.nodup
      (fun _ rest head _ => ⟨rest, head⟩) fun _ member _ => member⟩
  unfold BlockDownloads.processNextJob
  split
  · exact idle
  · next job jobs head =>
    split_ifs with ready
    · exact idle
    · exact (h.busy_of_ready todo head (not_not.mp ready)).nextSlice

theorem step {event : Event} (taken : st.step env event = some st') : st'.Wired := by
  cases moved_of_step taken with
  | processNextJob todo => exact h.processNextJob todo
  | replayJob todo => exact h.replayJob todo
  | download idle => exact h.download idle _
  | reply idle requested => exact h.replied idle requested _
  | replyFails idle requested => exact h.replyFailed idle requested
  | commitLive idle => exact ⟨h.tracked, h.shape⟩
  | commitFinished idle =>
    refine ⟨h.tracked, ?_⟩
    have shape := h.shape
    show Shape st.jobs (st.runs.map _) st.todo
    generalize st.runs = runs, st.todo = todo at shape idle
    cases shape with
    | quiet unprocessed settled => exact .quiet unprocessed settled
    | running run rest head status unprocessed settled =>
      exact .running _ rest head status unprocessed settled
    | replaying job => contradiction
  | decoded continues =>
    have busy := (h.continues continues).2
    unfold decoded
    split
    · exact busy.fail
    · split_ifs
      · exact busy.await _ rfl _
      · exact busy.fail
  | verified continues =>
    have busy := (h.continues continues).2
    unfold verified
    split_ifs
    · apply Busy.nextCommit
      exact { busy with }
    · exact busy.fail
  | rejected continues => exact (h.continues continues).2.fail
  | handled continues =>
    have busy := (h.continues continues).2
    unfold handled
    split_ifs
    · exact busy.await _ rfl _
    · refine Busy.await ?_ _ rfl _
      exact { busy with }
    · exact busy.await _ rfl _
  | resumed continues =>
    have busy := (h.continues continues).2
    unfold resumed
    split_ifs
    · exact busy.fail
    · apply Busy.nextCommit
      exact { busy with }

end Wired

/-! ## Nothing is left over -/

/-- Jobs are left only while blocks are requested or processed. -/
def Unwedged (st : BlockDownloads) : Prop :=
  st.todo = .idle → st.requests = [] → (∀ job ∈ st.jobs, job.status ≠ .processing) →
    st.isDownloading = false

/-- The first job is replayed after all its blocks have been applied, with another job behind it, when
no request is in flight, and a peer is known that is ahead. -/
def Overtaken (st : BlockDownloads) : Event → Prop
  | .replayJob peers _ =>
    st.requests = [] ∧ (∃ peer ∈ peers, st.stored + 1 < peer.blockNumber) ∧
      ∃ job ∈ st.jobs.head?, job.blockNumberTo ≤ st.stored ∧ 1 < st.jobs.length
  | _ => False

instance (st : BlockDownloads) : DecidablePred st.Overtaken := fun event =>
  match event with
  | .replayJob _ _ => inferInstanceAs (Decidable (_ ∧ _ ∧ _))
  | .download _ | .reply _ _ | .replyFails _ _ _ | .processNextJob | .decoded _ | .verified _ _ |
    .rejected _ | .handled _ _ | .resumed _ | .commitLive _ | .commitFinished =>
      inferInstanceAs (Decidable False)

/-- A run goes on, or something is left to do. -/
def Active (st : BlockDownloads) : Prop := st.todo = .idle → st.runs ≠ []

theorem Wired.unwedged (h : st.Wired) (active : st.Active) : st.Unwedged := by
  intro idle _ unprocessed
  have some := active idle
  have shape := h.shape
  rw [idle] at shape
  generalize st.runs = runs at shape some
  cases shape with
  | quiet => contradiction
  | running run rest head status => exact absurd status (unprocessed _ (head ▸ mem_cons_self))

namespace Busy

theorem active_fail (h : st.Busy p) : (st.fail p).Active := by
  unfold BlockDownloads.fail
  rw [h.jobFailed_eq]
  exact fun idle => nomatch idle

theorem active_finish : (st.finish env p).Active := by
  unfold BlockDownloads.finish BlockDownloads.blocksMissing
  dsimp only
  split_ifs <;> exact fun idle => nomatch idle

theorem active_nextSlice (h : st.Busy p) : (st.nextSlice env p).Active := by
  unfold BlockDownloads.nextSlice
  split
  · exact active_finish
  · split
    · exact h.active_fail
    · exact fun _ => cons_ne_nil _ _

theorem active_nextCommit (h : st.Busy p) (commits : List Commit) :
    (st.nextCommit env p commits).Active := by
  cases commits with
  | nil => exact h.active_nextSlice
  | cons commit commits => exact fun _ => cons_ne_nil _ _

end Busy

theorem Wired.unwedged_processNextJob (h : st.Wired) (todo : st.todo = .processNextJob) :
    (st.processNextJob env).Unwedged := by
  unfold BlockDownloads.processNextJob
  split
  · next none =>
    intro _ _ _
    simp [isDownloading, none]
  · next job jobs head =>
    split_ifs with ready
    · intro _ requests unprocessed
      have member : job ∈ st.jobs := head ▸ mem_cons_self
      have downloading := h.tracked.requested job member
      rw [show st.requests = [] from requests] at downloading
      have processing := unprocessed job member
      cases status : job.status <;> simp_all
    · have busy := h.busy_of_ready todo head (not_not.mp ready)
      exact busy.nextSlice.unwedged busy.active_nextSlice

/-- A replay out of `#processBlocks` leaves a job over exactly if the job has been overtaken. -/
theorem Wired.unwedged_replayJob_iff (h : st.Wired) {job : DownloadJob} (todo : st.todo = .replayJob job) :
    Unwedged { st.replayJob peers random job.id with todo := .idle } ↔
      ¬ st.Overtaken (.replayJob peers random) := by
  obtain ⟨-, shape⟩ := h
  rw [todo] at shape
  generalize st.runs = runs at shape
  cases shape with
  | quiet _ settled | running _ _ _ _ _ settled => exact absurd rfl (settled job)
  | replaying _ rest head _ unprocessed =>
    constructor
    · rintro unwedged ⟨requests, above, first, is, applied, more⟩
      obtain rfl : job = first := by simpa [head] using is
      obtain ⟨next, after, rfl⟩ : ∃ next after, rest = next :: after := by
        cases rest with
        | nil => simp [head] at more
        | cons next after => exact ⟨next, after, rfl⟩
      have eq := replayJob_applied random head applied above
      rw [eq] at unwedged
      exact absurd (unwedged rfl requests unprocessed) (by simp [isDownloading])
    · intro kept
      have located : locate job.id st.jobs = some ([], job, rest) := by rw [head, locate_head]
      rcases replayJob_cases peers random located with
        eq | ⟨-, more, applied, above, eq⟩ | ⟨peer, first, last, -, -, -, eq⟩
      · rw [eq]
        exact fun _ _ _ => rfl
      · rw [eq]
        intro _ requests _
        have longer : 1 < st.jobs.length := by
          rw [head, length_cons]
          have := length_pos_iff.mpr more
          omega
        exact absurd ⟨requests, above, job, by simp [head], applied, longer⟩ kept
      · rw [eq]
        exact fun _ requests => absurd requests (cons_ne_nil _ _)

/-- A step keeps the jobs from being left over exactly if it does not replay a job that has been
overtaken. -/
theorem Wired.unwedged_step_iff (h : st.Wired) (unwedged : st.Unwedged) {event : Event}
    (taken : st.step env event = some st') : st'.Unwedged ↔ ¬ st.Overtaken event := by
  have wired : st'.Wired := h.step taken
  cases moved_of_step taken with
  | replayJob todo => exact h.unwedged_replayJob_iff todo
  | processNextJob todo => exact iff_of_true (h.unwedged_processNextJob todo) id
  | download idle =>
    refine iff_of_true ?_ id
    unfold BlockDownloads.download
    split_ifs
    · exact unwedged
    · exact fun _ requests => absurd requests (cons_ne_nil _ _)
  | reply | replyFails => exact iff_of_true (fun idle => nomatch idle) id
  | commitLive | commitFinished => exact iff_of_true unwedged id
  | decoded continues =>
    refine iff_of_true (wired.unwedged ?_) id
    have busy := (h.continues continues).2
    unfold decoded
    split
    · exact busy.active_fail
    · split_ifs
      · exact fun _ => cons_ne_nil _ _
      · exact busy.active_fail
  | verified continues =>
    refine iff_of_true (wired.unwedged ?_) id
    have busy := (h.continues continues).2
    unfold verified
    split_ifs
    · apply Busy.active_nextCommit
      exact { busy with }
    · exact busy.active_fail
  | rejected continues => exact iff_of_true (wired.unwedged (h.continues continues).2.active_fail) id
  | handled continues =>
    refine iff_of_true (wired.unwedged ?_) id
    unfold handled
    split_ifs <;> exact fun _ => cons_ne_nil _ _
  | resumed continues =>
    refine iff_of_true (wired.unwedged ?_) id
    have busy := (h.continues continues).2
    unfold resumed
    split_ifs
    · exact busy.active_fail
    · apply Busy.active_nextCommit
      exact { busy with }

/-- The states that the downloader reaches. -/
abbrev Runs (env : DownloadEnv) (ok : BlockDownloads → Event → Prop) (lastBlock : BlockHeader) :
    BlockDownloads → Prop :=
  Transition.Reach (step env) ok (start lastBlock)

/-- In a run in which no job is overtaken before its replay no job is left over, and the first replay
of a job that has been overtaken leaves one over. -/
theorem unwedged_of_runs {lastBlock : BlockHeader}
    (run : Runs env (fun st event => ¬ st.Overtaken event) lastBlock st) :
    st.Unwedged ∧ ∀ event st', st.step env event = some st' → (st'.Unwedged ↔ ¬ st.Overtaken event) := by
  have kept : st.Wired ∧ st.Unwedged := by
    refine run.invariant (P := fun st => st.Wired ∧ st.Unwedged) ⟨Wired.start lastBlock, fun _ _ _ => rfl⟩ ?_
    rintro st event st' ⟨wired, unwedged⟩ ahead taken
    exact ⟨wired.step taken, (wired.unwedged_step_iff unwedged taken).mpr ahead⟩
  exact ⟨kept.2, fun event st' taken => kept.1.unwedged_step_iff kept.2 taken⟩

namespace Overtaking

/-- The block of each number has the number as its hash. -/
def hashes (n : Nat) : Bytes := [UInt8.ofNat n]

def block (n : Nat) : BlockHeader := ⟨n, hashes n, 0⟩

def node : DownloadEnv where
  fromBytes
    | [number] => some ⟨block number.toNat, ⟨⟨[], []⟩, 0⟩⟩
    | _ => none
  hasValidSignature _ commit previousBlockHash :=
    commit.block.hash = hashes commit.block.number ∧ previousBlockHash = hashes (commit.block.number - 1)
  roundEnd number := some (number + 53)
  maxPayload _ := 0

def peer (blockNumber : Nat) : Peer := ⟨"127.0.0.1", blockNumber⟩

/-- A job for block 5 and one for block 6 are requested. The block of the second one arrives first, and
then something else than a block for the first one. Consensus commits block 5 before it is decoded. -/
def failing : List Event :=
  [.download (peer 6), .download (peer 7), .reply 1 [[6]], .processNextJob, .reply 0 [[]], .processNextJob,
    .commitLive (block 5), .commitFinished, .decoded 0]

/-- Nothing is committed before the first job is replayed. Its block arrives then, and both are applied. -/
def retried : List Event :=
  failing.take 6 ++ [.decoded 0, .replayJob [peer 7] 0, .reply 2 [[5]], .processNextJob, .decoded 2,
    .verified 2 0, .handled 2 true, .commitFinished, .resumed 2, .processNextJob, .decoded 1,
    .verified 1 0, .handled 1 true, .commitFinished, .resumed 1, .processNextJob]

end Overtaking

open Overtaking

theorem unwedged_of_runs_retried :
    ∃ st : BlockDownloads, (st.stored, st.todo, st.requests) = (6, .idle, []) ∧
      st.isDownloading = false ∧
      ∀ event st', st.step node event = some st' → (st'.Unwedged ↔ ¬ st.Overtaken event) := by
  have ran : (Transition.run (step node) (start (block 4)) retried).map (fun st =>
      ((st.stored, st.todo, st.requests), decide (∀ job ∈ st.jobs, job.status ≠ .processing))) =
      some ((6, .idle, []), true) := by
    decide +kernel
  have guarded : Transition.Guarded (step node) (fun st event => ¬ st.Overtaken event) (start (block 4))
      retried := by
    decide +kernel
  obtain ⟨st, run, observed⟩ := Transition.Reach.exists_of_run ran guarded
  obtain ⟨observed, settled⟩ := Prod.mk.inj observed
  obtain ⟨unwedged, next⟩ := unwedged_of_runs run
  refine ⟨st, observed, unwedged ?_ ?_ (of_decide_eq_true settled), next⟩
  · exact congrArg (·.2.1) observed
  · exact congrArg (·.2.2) observed

/-- The first job is overtaken and removed. Nobody processes the second one. -/
theorem exists_wedged : ∃ st, Runs node (fun _ _ => True) (block 4) st ∧ ¬ st.Unwedged := by
  have ran : (Transition.run (step node) (start (block 4)) (failing ++ [.replayJob [peer 7] 0])).map
      (fun st => (st.todo, st.requests, st.jobs.map (·.status))) =
      some (.idle, [], [.readyToProcess]) := by
    decide +kernel
  obtain ⟨st, run, observed⟩ : ∃ st, Runs node (fun _ _ => True) (block 4) st ∧ _ :=
    Transition.Reach.exists_of_run ran (.of_forall fun _ _ _ => trivial)
  simp only [Prod.mk.injEq] at observed
  obtain ⟨idle, requests, statuses⟩ := observed
  obtain ⟨job, jobs, ready⟩ : ∃ job, st.jobs = [job] ∧ job.status = .readyToProcess := by
    simpa [map_eq_singleton_iff] using statuses
  refine ⟨st, run, fun unwedged => ?_⟩
  have := unwedged idle requests (by simp [jobs, ready])
  simp [isDownloading, jobs] at this

end Mainsail.P2P.BlockDownloads
