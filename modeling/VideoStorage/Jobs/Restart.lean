import VideoStorage.Jobs.Chains
import VideoStorage.Jobs.NoLoss

/-!
# Restarts of the service

The process can be killed at any step. What was in memory is gone then: the
channel, the jobs in progress, the jobs that spawned tasks had still to add, and
the connections. `JobSetManager::new` reads the pending jobs from their file and
sends each to the channel (`manager_restarted`). Input files stay.

An entry of the pending set stands for an accepted job, so a restart has to bring
back every job that has not ended. It can also bring back one that has: the
handler removes the entry after the job has ended, and a restart between the two
runs the job again. Such a job counts as not ended from then on, and it is served
as the others are, since no other request has created the input file of its id
(`OwnInputs`).
-/

set_option autoImplicit false

namespace VideoStorage.Jobs

open RustStd TransitionSystem Concurrent

/-! ## The restart -/

/-- A pending job, read back from the file. -/
def QueuedJob.reloaded (queued : QueuedJob) : QueuedJob := { queued with job := queued.job.reloaded }

/-- The requests of the pending entries. -/
def JobQueue.pendingOwners (queue : JobQueue) : List Nat := queue.pending.map QueuedJob.owner

/-- `JobSetManager::new` and `AppState::new` over the files that are left. -/
def JobQueue.restarted (queue : JobQueue) : JobQueue where
  isS3 := queue.isS3
  pending := queue.pending.map QueuedJob.reloaded
  channel := queue.pending.map QueuedJob.reloaded
  inProgress := []
  adding := []
  uploads := queue.uploads
  handler := .waiting
  ended := queue.ended.filter fun i => i ∉ queue.pendingOwners
  skipped := queue.skipped.filter fun i => i ∉ queue.pendingOwners

/-- A connection is closed. The job of a request that was added is in the channel
now, as if the request had been answered. -/
def JobRequest.dropped (request : JobRequest) : JobRequest :=
  { request with point := if request.point.wasAdded then .answered else .refused }

def JobSystem.restarted (s : JobSystem) : JobSystem :=
  ⟨s.shared.restarted, s.processes.map JobRequest.dropped⟩

/-- A restart has the jobs that `JobSetManager::new` reads from the file, and the
channel has what it sends. -/
theorem manager_restarted {text : JsonText} {queue : JobQueue}
    (reads : (queue.manager text).ReadsBack text) :
    queue.restarted.pending.map QueuedJob.job =
        (JobSetManager.new text (queue.manager text).file).1.jobs ∧
      queue.restarted.channel.map QueuedJob.job =
        (JobSetManager.new text (queue.manager text).file).2 := by
  have loaded : JobSetManager.load text (queue.manager text).file =
      queue.restarted.pending.map QueuedJob.job := by
    refine (JobSetManager.load_of_stored reads (JobSetManager.stored_toJson _)).trans ?_
    change (queue.pending.map QueuedJob.job).map RawJob.reloaded =
      (queue.pending.map QueuedJob.reloaded).map QueuedJob.job
    rw [List.map_map, List.map_map]
    rfl
  exact ⟨loaded.symm, loaded.symm⟩

/-! ## Whose the entries are -/

theorem RequestPoint.hasInput_of_wasAdded {point : RequestPoint} (added : point.wasAdded = true) :
    point.hasInput = true := by
  cases point <;> first | rfl | cases added

/-- The pending ids are distinct, and an input file of the id of an entry has been
created by its request. -/
structure OwnInputs (s : JobSystem) : Prop where
  distinct : DistinctIds s.shared.pending
  inputs : ∀ entry ∈ s.shared.entries, ∀ request, s.processes[entry.owner]? = some request →
    request.uploads = true → ∀ k, s.shared.uploads (Job.id entry) = some k → k = entry.owner

namespace OwnInputs

variable {s : JobSystem} {held : Str → Option Nat}

/-- The entries are fewer or the same, and so are the input files. -/
theorem fewer (own : OwnInputs s) {next : JobQueue} (distinct : DistinctIds next.pending)
    (entries : ∀ entry ∈ next.entries, entry ∈ s.shared.entries)
    (uploads : ∀ id k, next.uploads id = some k → s.shared.uploads id = some k) :
    OwnInputs ⟨next, s.processes⟩ where
  distinct := distinct
  inputs entry member request found uploaded k created :=
    own.inputs entry (entries entry member) request found uploaded k (uploads _ k created)

/-- A request has moved on, with the same job. -/
theorem set (own : OwnInputs s) {i : Nat} {request request' : JobRequest}
    (found : s.processes[i]? = some request) (job : request'.job = request.job) :
    OwnInputs ⟨s.shared, s.processes.set i request'⟩ where
  distinct := own.distinct
  inputs entry member other there uploaded := by
    by_cases same : i = entry.owner
    · subst same
      have here : request' = other := by
        rw [List.getElem?_set_self (List.getElem?_eq_some_iff.mp found).1] at there
        exact Option.some.inj there
      refine own.inputs entry member request found ?_
      rw [JobRequest.uploads, ← job, here]
      exact uploaded
    · rw [List.getElem?_set_ne same] at there
      exact own.inputs entry member other there uploaded

theorem spawn (own : OwnInputs s) (books : Books s.shared s.processes) (job : RawJob) :
    OwnInputs (Concurrent.spawn s ⟨job, .arrived⟩) where
  distinct := own.distinct
  inputs entry member request there uploaded := by
    obtain ⟨adder, found, -, -⟩ := books.entries entry member
    have less := (List.getElem?_eq_some_iff.mp found).1
    exact own.inputs entry member request
      ((List.getElem?_append_left less).symm.trans there) uploaded

/-- An entry of a request that was sent and has not ended has its own input. -/
theorem of_live (ledger : Ledger held s) {i : Nat} {request : JobRequest}
    (found : s.processes[i]? = some request) (has : request.point.hasInput = true)
    (live : i ∉ s.shared.ended) (uploaded : request.uploads = true) (k : Nat)
    (created : s.shared.uploads request.id = some k) : k = i :=
  (ledger.requests i request found).input uploaded has live k created

/-- No entry is of the id of a request that has passed the check and not added its
job. -/
theorem none_in_window (books : Books s.shared s.processes) (ledger : Ledger held s)
    {i : Nat} {request : JobRequest} (found : s.processes[i]? = some request)
    (inWindow : request.point.inWindow = true) (early : request.point.wasAdded = false)
    {entry : QueuedJob} (member : entry ∈ s.shared.entries) : Job.id entry ≠ request.id := by
  intro same
  have unsent : request.point.wasSent = false := by
    cases sent : request.point.wasSent with
    | false => rfl
    | true => rw [RequestPoint.wasAdded_of_wasSent sent] at early; cases early
  have holds := (ledger.requests i request found).engaged
    (by rw [RequestPoint.engaged, inWindow, Bool.true_or]) (books.not_ended found unsent)
  have owner := ledger.entries entry member i (same ▸ holds)
  obtain ⟨adder, there, -, added⟩ := books.entries entry member
  rw [owner, found] at there
  cases there
  rw [early] at added
  cases added

/-! ### Steps of the queue -/

theorem of_queueStep (own : OwnInputs s) (books : Books s.shared s.processes)
    (ledger : Ledger held s) {queue : JobQueue} (step : QueueStep s.shared queue) :
    OwnInputs ⟨queue, s.processes⟩ := by
  cases step with
  | skip _ _ _ => exact own.fewer own.distinct (fun _ member => member) fun _ _ here => here
  | receive _ => exact own.fewer own.distinct (fun _ member => member) fun _ _ here => here
  | @resend i job next adding found continues spawned =>
      refine ⟨own.distinct, fun entry member request there uploaded k created => ?_⟩
      have old : entry ∈ s.shared.entries ∨ entry = next := by
        rcases List.mem_append.mp member with listed | adds
        · exact .inl (List.mem_append_left _ listed)
        · rcases spawned with rfl | rfl
          · exact .inl (List.mem_append_right _ adds)
          · rcases List.mem_append.mp adds with before | new
            · exact .inl (List.mem_append_right _ before)
            · exact .inr (List.mem_singleton.mp new)
      rcases old with before | rfl
      · exact own.inputs entry before request there uploaded k created
      · -- The new entry belongs to the request of a job in progress, which has not ended.
        obtain ⟨live, sender, sends, id, sent⟩ := books.tasks job (Books.task_of_inProgress found)
        rw [continues.2] at there ⊢
        obtain rfl := Option.some.inj (sends.symm.trans there)
        rw [continues.1, ← id] at created
        exact of_live ledger sends
          (RequestPoint.hasInput_of_wasAdded (RequestPoint.wasAdded_of_wasSent sent))
          live uploaded k created
  | finish _ _ _ => exact own.fewer own.distinct (fun _ member => member) fun _ _ here => here
  | clear _ _ =>
      refine own.fewer (distinctIds_removeJob own.distinct _) (fun entry member => ?_)
        fun _ _ here => here
      rcases List.mem_append.mp member with listed | adds
      · exact List.mem_append_left _ (mem_removeJob.mp listed).1
      · exact List.mem_append_right _ adds
  | act _ fewer => exact own.fewer own.distinct (fun _ member => member) fewer
  | @addSpawned i job found =>
      refine own.fewer (distinctIds_addJob own.distinct job) (fun entry member => ?_)
        fun _ _ here => here
      rcases List.mem_append.mp member with listed | adds
      · rcases mem_addJob.mp listed with ⟨old, -⟩ | rfl
        · exact List.mem_append_left _ old
        · exact List.mem_append_right _ (List.mem_of_getElem? found)
      · exact List.mem_append_right _ (List.mem_of_mem_eraseIdx adds)
  | removeInput id =>
      exact own.fewer own.distinct (fun _ member => member) (fewer_update_none _ id)

/-! ### Steps of a request -/

/-- A request creates its input file. No entry is of its id. -/
theorem create (own : OwnInputs s) {i : Nat} {request : JobRequest}
    (none : ∀ entry ∈ s.shared.entries, Job.id entry ≠ request.id) :
    OwnInputs ⟨{ s.shared with
      uploads := Function.update s.shared.uploads request.id (some i) }, s.processes⟩ where
  distinct := own.distinct
  inputs entry member other there uploaded k created := by
    have before : s.shared.uploads (Job.id entry) = some k := by
      have now : Function.update s.shared.uploads request.id (some i) (Job.id entry) = some k :=
        created
      rwa [Function.update_of_ne (none entry member)] at now
    exact own.inputs entry member other there uploaded k before

/-- A request adds its job, which has the input the request has created. -/
theorem enter (own : OwnInputs s) {i : Nat} {request : JobRequest}
    (found : s.processes[i]? = some request)
    (mine : request.uploads = true → ∀ k, s.shared.uploads request.id = some k → k = i) :
    OwnInputs ⟨{ s.shared with pending := addJob s.shared.pending ⟨request.job, i⟩ },
      s.processes⟩ where
  distinct := distinctIds_addJob own.distinct _
  inputs entry member other there uploaded k created := by
    have old : entry ∈ s.shared.entries ∨ entry = ⟨request.job, i⟩ := by
      rcases List.mem_append.mp member with listed | adds
      · rcases mem_addJob.mp listed with ⟨before, -⟩ | here
        · exact .inl (List.mem_append_left _ before)
        · exact .inr here
      · exact .inl (List.mem_append_right _ adds)
    rcases old with before | rfl
    · exact own.inputs entry before other there uploaded k created
    · obtain rfl := Option.some.inj (found.symm.trans there)
      exact mine uploaded k created

theorem of_requestStep (own : OwnInputs s) (books : Books s.shared s.processes)
    (ledger : Ledger held s) {i : Nat} {request request' : JobRequest}
    {action : JobRequestAction} {queue : JobQueue} (found : s.processes[i]? = some request)
    (step : JobRequestStep i s.shared request action queue request') :
    OwnInputs ⟨queue, s.processes.set i request'⟩ := by
  cases step with
  | refuse _ => exact own.set found rfl
  | check _ _ => exact own.set found rfl
  | create point =>
      have none : ∀ entry ∈ s.shared.entries, Job.id entry ≠ request.id := fun _ member =>
        none_in_window books ledger found (by rw [point]; rfl) (by rw [point]; rfl) member
      exact (own.create none).set found rfl
  | fail _ =>
      have removed : OwnInputs ⟨{ s.shared with
          uploads := Function.update s.shared.uploads request.id none }, s.processes⟩ :=
        own.fewer own.distinct (fun _ member => member) (fewer_update_none _ _)
      exact removed.set found rfl
  | add point =>
      refine (own.enter found fun uploaded k created => ?_).set found rfl
      rcases point with writing | ⟨-, migrates⟩
      · have live := books.not_ended found (by rw [writing]; rfl)
        exact of_live ledger found (by rw [writing]; rfl) live uploaded k created
      · rw [uploaded] at migrates
        cases migrates
  | send _ =>
      have sent : OwnInputs ⟨{ s.shared with
          channel := s.shared.channel ++ [⟨request.job, i⟩] }, s.processes⟩ :=
        own.fewer own.distinct (fun _ member => member) fun _ _ here => here
      exact sent.set found rfl
  | answer _ => exact own.set found rfl

theorem of_jobStep {t : JobSystem} {action : JobAction} (own : OwnInputs s)
    (books : Books s.shared s.processes) (ledger : Ledger held s)
    (moved : jobStep s action = some t) : OwnInputs t := by
  cases action with
  | upload job =>
      cases moved
      exact own.spawn books _
  | migrate job =>
      cases moved
      exact own.spawn books _
  | request i action =>
      obtain ⟨request, request', queue, found, stepped, rfl⟩ := act_eq_some moved
      exact own.of_requestStep books ledger found (jobRequestStep_cases stepped)
  | queue action =>
      obtain ⟨queue, stepped, rfl⟩ := Option.map_eq_some_iff.mp moved
      exact own.of_queueStep books ledger (queueStep_cases stepped)

end OwnInputs

/-! ## A restart keeps the books -/

/-- What holds in every run: the books, a ledger and the owners of the entries. -/
structure Recoverable (s : JobSystem) : Prop where
  books : Books s.shared s.processes
  ledger : ∃ held, Ledger held s
  own : OwnInputs s

namespace Recoverable

variable {s : JobSystem}

theorem start (isS3 : Bool) : Recoverable (noJobs isS3) where
  books := Books.start isS3
  ledger := ⟨_, Ledger.start isS3⟩
  own := ⟨List.nodup_nil, nofun⟩

end Recoverable

end VideoStorage.Jobs
