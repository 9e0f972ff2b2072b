import Mathlib.Logic.Function.Basic
import VideoStorage.Library.Concurrent
import VideoStorage.Jobs.Manager

/-!
# Requests and the job handler

An upload or a migrate request looks for a pending job of its id, an upload
writes the input file, and then the job is added to the pending set, sent to the
channel and the request answered with 202. These are steps of their own, and
those of several requests interleave.

The job handler takes jobs from the channel into the map of jobs in progress,
skipping one whose id is there, and handles their results. It is one task: while
it waits for the lock of the pending set it does nothing else. The job that
follows a conversion is added to the pending set by a task of its own.
-/

set_option autoImplicit false

namespace VideoStorage.Jobs

open RustStd TransitionSystem Concurrent

/-- A job in the queue, and the request it was accepted for. -/
structure QueuedJob where
  job : RawJob
  owner : Nat
  deriving DecidableEq

instance : Job QueuedJob where
  kind queued := Job.kind queued.job
  id queued := Job.id queued.job
  needPermit queued := Job.needPermit queued.job
  waitForRetry queued :=
    (Job.waitForRetry queued.job).map fun (wait, job) => (wait, { queued with job })
  onFinalFailure queued := Job.onFinalFailure queued.job

def QueuedJob.nextJob (isS3 : Bool) (queued : QueuedJob) : Option QueuedJob :=
  (queued.job.nextJob isS3).map fun job => { queued with job }

/-- What follows a job is of the same id, for the same request. -/
def QueuedJob.Continues (next queued : QueuedJob) : Prop :=
  Job.id next = Job.id queued ∧ next.owner = queued.owner

theorem QueuedJob.continues_nextJob {isS3 : Bool} {queued next : QueuedJob}
    (follows : queued.nextJob isS3 = some next) : next.Continues queued := by
  obtain ⟨job, followed, rfl⟩ := Option.map_eq_some_iff.mp follows
  exact ⟨RawJob.id_nextJob followed, rfl⟩

theorem QueuedJob.continues_waitForRetry {queued again : QueuedJob} {wait : Nat}
    (retried : Job.waitForRetry queued = some (wait, again)) : again.Continues queued := by
  obtain ⟨⟨_, job⟩, waited, here⟩ := Option.map_eq_some_iff.mp retried
  cases here
  exact ⟨RawJob.id_waitForRetry waited, rfl⟩

theorem id_onFinalFailure (queued : QueuedJob) :
    (Job.onFinalFailure queued).jobId = Job.id queued := by
  obtain ⟨job, owner⟩ := queued
  cases job <;> rfl

/-! ## The queue -/

/-- Where the job handler is: waiting for a job or a result, or handling the
result of a job. -/
inductive HandlerPoint where
  | waiting
  | removing (id : Str)
  | failing (failure : FailureJob)
  | acting (jobId : Str) (kind : JobKind) (actions : List Action)

/-- The id the handler is about to remove from the pending set. -/
def HandlerPoint.clears : HandlerPoint → Option Str
  | removing id => some id
  | failing failure => some failure.jobId
  | _ => none

/-- The pending set, the channel, the jobs in progress and the input files. -/
structure JobQueue where
  isS3 : Bool
  pending : List QueuedJob
  channel : List QueuedJob
  inProgress : List QueuedJob
  /-- Jobs that spawned tasks have still to add to the pending set. -/
  adding : List QueuedJob
  /-- The request that last created an input file. -/
  uploads : Str → Option Nat
  handler : HandlerPoint
  /-- Requests whose job has run to `Done` or to its final failure. -/
  ended : List Nat
  /-- Requests whose job was skipped as in progress. -/
  skipped : List Nat

namespace JobQueue

/-- The jobs in the channel or in progress. -/
def tasks (queue : JobQueue) : List QueuedJob := queue.channel ++ queue.inProgress

/-- `StreamMap::add_if_not_in_progress`. -/
def addIfNotInProgress (inProgress : List QueuedJob) (job : QueuedJob) : List QueuedJob × Bool :=
  if inProgress.any fun task => Job.id task = Job.id job then (inProgress, false)
  else (inProgress ++ [job], true)

/-- `Action::execute_action`. Of the files it removes, the queue has the input
files. -/
def executeAction (uploads : Str → Option Nat) (jobId : Str) (kind : JobKind) (action : Action) :
    Str → Option Nat :=
  match action, kind with
  | .cleanup, .convert => Function.update uploads jobId none
  | _, _ => uploads

end JobQueue

inductive QueueAction where
  /-- The handler takes a job from the channel. -/
  | receive
  /-- The task of a job in progress is finished, its work done or failed. -/
  | complete (i : Nat) (succeeds : Bool)
  /-- The handler goes on with the result of a job. -/
  | proceed
  /-- A spawned task adds its job to the pending set. -/
  | addSpawned (i : Nat)
  /-- A conversion removes its input file. -/
  | removeInput (i : Nat)

/-- `start_job_handler`, and the tasks it runs. -/
def queueStep (queue : JobQueue) : QueueAction → Option JobQueue
  | .receive =>
      match queue.handler, queue.channel with
      | .waiting, job :: rest =>
          let (inProgress, added) := JobQueue.addIfNotInProgress queue.inProgress job
          if added then some { queue with channel := rest, inProgress }
          else some { queue with channel := rest, skipped := queue.skipped ++ [job.owner] }
      | _, _ => none
  | .complete i succeeds =>
      match queue.handler, queue.inProgress[i]? with
      | .waiting, some job =>
          let queue := { queue with inProgress := queue.inProgress.eraseIdx i }
          let ended := queue.ended ++ [job.owner]
          if succeeds then
            match job.nextJob queue.isS3 with
            | some next =>
                some { queue with
                  adding := queue.adding ++ [next]
                  channel := queue.channel ++ [next] }
            | none => some { queue with handler := .removing (Job.id job), ended }
          else
            match Job.waitForRetry job with
            | some (_, again) => some { queue with channel := queue.channel ++ [again] }
            | none => some { queue with handler := .failing (Job.onFinalFailure job), ended }
      | _, _ => none
  | .proceed =>
      match queue.handler with
      | .waiting => none
      | .removing id =>
          some { queue with pending := removeJob queue.pending id, handler := .waiting }
      | .failing failure =>
          some { queue with
            pending := removeJob queue.pending failure.jobId
            handler := .acting failure.jobId failure.kind failure.actions }
      | .acting _ _ [] => some { queue with handler := .waiting }
      | .acting jobId kind (action :: actions) =>
          some { queue with
            uploads := JobQueue.executeAction queue.uploads jobId kind action
            handler := .acting jobId kind actions }
  | .addSpawned i =>
      queue.adding[i]?.map fun job =>
        { queue with pending := addJob queue.pending job, adding := queue.adding.eraseIdx i }
  | .removeInput i =>
      match queue.inProgress[i]? with
      | some ⟨.convert job, _⟩ =>
          some { queue with uploads := Function.update queue.uploads job.id none }
      | _ => none

/-- A job of an id is pending. -/
def Listed (pending : List QueuedJob) (id : Str) : Prop := ∃ job ∈ pending, Job.id job = id

/-- What one step of the handler and its tasks can do. -/
inductive QueueStep (queue : JobQueue) : JobQueue → Prop where
  | skip {job task : QueuedJob} {rest : List QueuedJob} (channel : queue.channel = job :: rest)
      (member : task ∈ queue.inProgress) (same : Job.id task = Job.id job) :
      QueueStep queue
        { queue with channel := rest, skipped := queue.skipped ++ [job.owner] }
  | receive {job : QueuedJob} {rest : List QueuedJob} (channel : queue.channel = job :: rest) :
      QueueStep queue { queue with channel := rest, inProgress := queue.inProgress ++ [job] }
  | resend {i : Nat} {job next : QueuedJob} {adding : List QueuedJob}
      (found : queue.inProgress[i]? = some job) (continues : next.Continues job)
      (spawned : adding = queue.adding ∨ adding = queue.adding ++ [next]) :
      QueueStep queue
        { queue with
          inProgress := queue.inProgress.eraseIdx i
          channel := queue.channel ++ [next]
          adding }
  | finish {i : Nat} {job : QueuedJob} {handler : HandlerPoint} (waits : queue.handler.clears = none)
      (found : queue.inProgress[i]? = some job) (clears : handler.clears = some (Job.id job)) :
      QueueStep queue
        { queue with
          inProgress := queue.inProgress.eraseIdx i
          handler
          ended := queue.ended ++ [job.owner] }
  | clear {id : Str} {handler : HandlerPoint} (clears : queue.handler.clears = some id)
      (cleared : handler.clears = none) :
      QueueStep queue { queue with pending := removeJob queue.pending id, handler }
  | act {handler : HandlerPoint} {uploads : Str → Option Nat}
      (cleared : handler.clears = none)
      (fewer : ∀ id n, uploads id = some n → queue.uploads id = some n) :
      QueueStep queue { queue with uploads, handler }
  | addSpawned {i : Nat} {job : QueuedJob} (found : queue.adding[i]? = some job) :
      QueueStep queue
        { queue with
          pending := addJob queue.pending job
          adding := queue.adding.eraseIdx i }
  | removeInput (id : Str) :
      QueueStep queue { queue with uploads := Function.update queue.uploads id none }

theorem fewer_update_none (uploads : Str → Option Nat) (id : Str) :
    ∀ other n, Function.update uploads id none other = some n → uploads other = some n := by
  intro other n here
  by_cases same : other = id
  · subst same
    rw [Function.update_self] at here
    cases here
  · rwa [Function.update_of_ne same] at here

theorem fewer_executeAction (uploads : Str → Option Nat) (jobId : Str) (kind : JobKind)
    (action : Action) : ∀ id n, JobQueue.executeAction uploads jobId kind action id = some n →
      uploads id = some n := by
  unfold JobQueue.executeAction
  split
  · exact fewer_update_none uploads jobId
  · exact fun _ _ here => here

theorem queueStep_cases {queue next : JobQueue} {action : QueueAction}
    (step : queueStep queue action = some next) : QueueStep queue next := by
  cases action with
  | receive =>
      simp only [queueStep] at step
      split at step
      · rename_i job rest _ channel
        simp only [JobQueue.addIfNotInProgress] at step
        split at step
        · rename_i busy
          obtain ⟨task, member, same⟩ := List.any_eq_true.mp busy
          cases step
          exact .skip channel member (of_decide_eq_true same)
        · cases step
          exact .receive channel
      · cases step
  | complete i succeeds =>
      simp only [queueStep] at step
      split at step
      · rename_i job handler found
        have waits : queue.handler.clears = none := by rw [handler]; rfl
        cases succeeds with
        | true =>
            simp only [if_true] at step
            split at step
            · rename_i next' follows
              cases step
              exact .resend found (QueuedJob.continues_nextJob follows) (.inr rfl)
            · cases step
              exact .finish waits found rfl
        | false =>
            simp only [Bool.false_eq_true, if_false] at step
            split at step
            · rename_i again retried
              cases step
              exact .resend found (QueuedJob.continues_waitForRetry retried) (.inl rfl)
            · cases step
              exact .finish waits found (congrArg some (id_onFinalFailure job))
      · cases step
  | proceed =>
      simp only [queueStep] at step
      split at step
      · cases step
      · rename_i handler
        cases step
        exact .clear (by rw [handler]; rfl) rfl
      · rename_i handler
        cases step
        exact .clear (by rw [handler]; rfl) rfl
      · cases step
        exact .act rfl fun _ _ here => here
      · cases step
        exact .act rfl (fewer_executeAction _ _ _ _)
  | addSpawned i =>
      obtain ⟨job, found, rfl⟩ := Option.map_eq_some_iff.mp step
      exact .addSpawned found
  | removeInput i =>
      simp only [queueStep] at step
      split at step
      · cases step
        exact .removeInput _
      · cases step

/-! ## Requests -/

inductive RequestPoint where
  | arrived
  | checked
  | writing
  | added
  | sent
  | answered
  | refused
  deriving DecidableEq, Repr

namespace RequestPoint

/-- Between the check for a pending job and the addition to the pending set. -/
def inWindow : RequestPoint → Bool
  | checked | writing => true
  | _ => false

/-- The job was added to the pending set. -/
def wasAdded : RequestPoint → Bool
  | added | sent | answered => true
  | _ => false

/-- The job was sent to the channel. -/
def wasSent : RequestPoint → Bool
  | sent | answered => true
  | _ => false

/-- The input file was created. -/
def hasInput : RequestPoint → Bool
  | writing | added | sent | answered => true
  | _ => false

theorem wasAdded_of_wasSent {point : RequestPoint} (sent : point.wasSent = true) :
    point.wasAdded = true := by
  cases point <;> first | rfl | cases sent

end RequestPoint

/-- A request to `upload_mp4_raw` or `migrate_videos` whose parameters are
valid. -/
structure JobRequest where
  job : RawJob
  point : RequestPoint

def JobRequest.id (request : JobRequest) : Str := Job.id request.job

/-- The request uploads an input file. -/
def JobRequest.uploads (request : JobRequest) : Bool := Job.kind request.job = .convert

inductive JobRequestAction where
  | check
  | create
  | fail
  | add
  | send
  | answer

/-- One step of request `i`. -/
def jobRequestStep (i : Nat) (queue : JobQueue) (request : JobRequest) :
    JobRequestAction → Option (JobQueue × JobRequest)
  | .check =>
      match request.point with
      | .arrived =>
          if queue.pending.any fun job => Job.id job = request.id then
            some (queue, { request with point := .refused })
          else some (queue, { request with point := .checked })
      | _ => none
  | .create =>
      match request.point, request.uploads with
      | .checked, true =>
          some ({ queue with uploads := Function.update queue.uploads request.id (some i) },
            { request with point := .writing })
      | _, _ => none
  | .fail =>
      match request.point with
      | .checked => some (queue, { request with point := .refused })
      | .writing =>
          some ({ queue with uploads := Function.update queue.uploads request.id none },
            { request with point := .refused })
      | _ => none
  | .add =>
      match request.point, request.uploads with
      | .writing, true | .checked, false =>
          some ({ queue with pending := addJob queue.pending ⟨request.job, i⟩ },
            { request with point := .added })
      | _, _ => none
  | .send =>
      match request.point with
      | .added =>
          some ({ queue with channel := queue.channel ++ [⟨request.job, i⟩] },
            { request with point := .sent })
      | _ => none
  | .answer =>
      match request.point with
      | .sent => some (queue, { request with point := .answered })
      | _ => none

/-- What one step of a request can do. -/
inductive JobRequestStep (i : Nat) (queue : JobQueue) (request : JobRequest) :
    JobRequestAction → JobQueue → JobRequest → Prop where
  | refuse {action : JobRequestAction} (early : request.point.wasAdded = false) :
      JobRequestStep i queue request action queue { request with point := .refused }
  | check (point : request.point = .arrived) (absent : ¬ Listed queue.pending request.id) :
      JobRequestStep i queue request .check queue { request with point := .checked }
  | create (point : request.point = .checked) :
      JobRequestStep i queue request .create
        { queue with uploads := Function.update queue.uploads request.id (some i) }
        { request with point := .writing }
  | fail (point : request.point = .writing) :
      JobRequestStep i queue request .fail
        { queue with uploads := Function.update queue.uploads request.id none }
        { request with point := .refused }
  | add (point : request.point = .writing ∨ request.point = .checked ∧ request.uploads = false) :
      JobRequestStep i queue request .add
        { queue with pending := addJob queue.pending ⟨request.job, i⟩ }
        { request with point := .added }
  | send (point : request.point = .added) :
      JobRequestStep i queue request .send
        { queue with channel := queue.channel ++ [⟨request.job, i⟩] }
        { request with point := .sent }
  | answer (point : request.point = .sent) :
      JobRequestStep i queue request .answer queue { request with point := .answered }

theorem jobRequestStep_cases {i : Nat} {queue next : JobQueue} {request request' : JobRequest}
    {action : JobRequestAction}
    (step : jobRequestStep i queue request action = some (next, request')) :
    JobRequestStep i queue request action next request' := by
  cases action with
  | check =>
      simp only [jobRequestStep] at step
      split at step
      · rename_i point
        split at step
        · cases step
          exact .refuse (by rw [point]; rfl)
        · rename_i absent
          cases step
          refine .check point fun ⟨job, member, same⟩ => absent ?_
          exact List.any_eq_true.mpr ⟨job, member, decide_eq_true same⟩
      · cases step
  | create =>
      simp only [jobRequestStep] at step
      split at step
      · rename_i point _
        cases step
        exact .create point
      · cases step
  | fail =>
      simp only [jobRequestStep] at step
      split at step
      · rename_i point
        cases step
        exact .refuse (by rw [point]; rfl)
      · rename_i point
        cases step
        exact .fail point
      · cases step
  | add =>
      simp only [jobRequestStep] at step
      split at step
      · rename_i point _
        cases step
        exact .add (.inl point)
      · rename_i point uploads
        cases step
        exact .add (.inr ⟨point, uploads⟩)
      · cases step
  | send =>
      simp only [jobRequestStep] at step
      split at step
      · rename_i point
        cases step
        exact .send point
      · cases step
  | answer =>
      simp only [jobRequestStep] at step
      split at step
      · rename_i point
        cases step
        exact .answer point
      · cases step

/-! ## The system -/

abbrev JobSystem := Concurrent JobQueue JobRequest

inductive JobAction where
  | upload (job : ConvertJob)
  | migrate (job : MigrateJob)
  | request (i : Nat) (action : JobRequestAction)
  | queue (action : QueueAction)

def jobStep : TransitionSystem JobSystem JobAction
  | s, .upload job => some (s.spawn ⟨.convert job, .arrived⟩)
  | s, .migrate job => some (s.spawn ⟨.migrate job, .arrived⟩)
  | s, .request i action => s.act (jobRequestStep i) i action
  | s, .queue action => (queueStep s.shared action).map fun queue => { s with shared := queue }

/-- No job and no request. -/
def noJobs (isS3 : Bool) : JobSystem where
  shared := ⟨isS3, [], [], [], [], fun _ => none, .waiting, [], []⟩
  processes := []

end VideoStorage.Jobs
