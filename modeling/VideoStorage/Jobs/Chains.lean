import VideoStorage.Jobs.Books

/-!
# A chain of jobs leaves no entry

A conversion is followed, with S3, by an upload of its output. `next_job` returns
the upload job and leaves its addition to the pending set to a task of its own,
which replaces the entry of the conversion. Nothing orders this addition before
the end of the upload: when it comes after the handler has removed the entry, the
finished chain stays pending, its id is refused, and a restart uploads again
(`addition_after_the_end`).

Where the handler removes the id of an ended chain only after the additions that
were spawned for the chain, no entry of it is left (`chain_leaves_nothing`).
-/

set_option autoImplicit false

namespace VideoStorage.Jobs

open RustStd SerdeJson TransitionSystem Concurrent

/-- The condition under which no entry is left: the handler removes the id of a
chain, which is the one that ended last, when no spawned task has still to add a
job of that chain. -/
def clearsAlone (s : JobSystem) : JobAction → Bool
  | .queue .proceed =>
      match s.shared.handler.clears, s.shared.ended.getLast? with
      | some _, some i => s.shared.adding.all fun job => !decide (job.owner = i)
      | _, _ => true
  | _ => true

/-! ## The file of the pending set -/

/-- The pending set of the queue, with its file. -/
def JobQueue.manager (text : JsonText) (queue : JobQueue) : JobSetManager :=
  JobSetManager.save text (queue.pending.map QueuedJob.job)

theorem map_addJob (pending : List QueuedJob) (job : QueuedJob) :
    (addJob pending job).map QueuedJob.job = addJob (pending.map QueuedJob.job) job.job := by
  rw [addJob, addJob, List.map_append, List.filter_map]
  rfl

theorem map_removeJob (pending : List QueuedJob) (id : Str) :
    (removeJob pending id).map QueuedJob.job = removeJob (pending.map QueuedJob.job) id := by
  rw [removeJob, removeJob, List.filter_map]
  rfl

/-- A step leaves the pending set and its file as they are, or is an addition or a
removal. -/
def ManagerStep (text : JsonText) (queue next : JobQueue) : Prop :=
  next.manager text = queue.manager text ∨
    ∃ action, JobSetManager.readsBack text (queue.manager text) action = true ∧
      JobSetManager.step text (queue.manager text) action = some (next.manager text)

theorem managerStep_of_pending {text : JsonText} {queue next : JobQueue}
    (same : next.pending = queue.pending) : ManagerStep text queue next :=
  .inl (by rw [JobQueue.manager, JobQueue.manager, same])

theorem managerStep_add {text : JsonText} {queue next : JobQueue} {job : QueuedJob}
    (added : next.pending = addJob queue.pending job) : ManagerStep text queue next := by
  refine .inr ⟨.add job.job, rfl, ?_⟩
  rw [JobQueue.manager, JobQueue.manager, added, map_addJob]
  rfl

theorem managerStep_remove {text : JsonText} {queue next : JobQueue} {id : Str}
    (removed : next.pending = removeJob queue.pending id) : ManagerStep text queue next := by
  refine .inr ⟨.remove id, rfl, ?_⟩
  rw [JobQueue.manager, JobQueue.manager, removed, map_removeJob]
  rfl

theorem managerStep_of_jobStep (text : JsonText) {s t : JobSystem} {action : JobAction}
    (moved : jobStep s action = some t) : ManagerStep text s.shared t.shared := by
  cases action with
  | upload job =>
      cases moved
      exact .inl rfl
  | migrate job =>
      cases moved
      exact .inl rfl
  | request i action =>
      obtain ⟨request, request', queue, found, stepped, rfl⟩ := act_eq_some moved
      cases jobRequestStep_cases stepped with
      | refuse _ => exact managerStep_of_pending rfl
      | check _ _ => exact managerStep_of_pending rfl
      | create _ => exact managerStep_of_pending rfl
      | fail _ => exact managerStep_of_pending rfl
      | add _ => exact managerStep_add rfl
      | send _ => exact managerStep_of_pending rfl
      | answer _ => exact managerStep_of_pending rfl
  | queue action =>
      obtain ⟨queue, stepped, rfl⟩ := Option.map_eq_some_iff.mp moved
      cases queueStep_cases stepped with
      | skip _ _ _ => exact managerStep_of_pending rfl
      | receive _ => exact managerStep_of_pending rfl
      | resend _ _ _ => exact managerStep_of_pending rfl
      | finish _ _ _ => exact managerStep_of_pending rfl
      | clear _ _ => exact managerStep_remove rfl
      | act _ _ => exact managerStep_of_pending rfl
      | addSpawned _ => exact managerStep_add rfl
      | removeInput _ => exact managerStep_of_pending rfl

/-- In every run the file holds the pending set, whose ids are distinct. -/
theorem consistent_of_run (text : JsonText) {allowed : JobSystem → JobAction → Bool} {isS3 : Bool}
    {s : JobSystem} (run : Run jobStep allowed (noJobs isS3) s) :
    (s.shared.manager text).Consistent text := by
  have start : ((noJobs isS3).shared.manager text).Consistent text := by
    refine JobSetManager.consistent_save ?_
    exact List.nodup_nil
  have kept : ∀ {s t : JobSystem} {action : JobAction}, (s.shared.manager text).Consistent text →
      allowed s action = true → jobStep s action = some t →
      (t.shared.manager text).Consistent text := by
    intro s t action consistent _ moved
    rcases managerStep_of_jobStep text moved with same | ⟨change, reads, changed⟩
    · rwa [same]
    · exact JobSetManager.consistent_step consistent reads changed
  exact @Run.invariant _ _ _ _ (fun s => (s.shared.manager text).Consistent text) _ _ run start kept

/-! ## What is left of a chain -/

/-- The id is free: it is not pending, a new request of it passes the check, and a
restart runs no job of it. -/
structure Free (queue : JobQueue) (id : Str) : Prop where
  unlisted : ¬ Listed queue.pending id
  accepted : ∀ (k : Nat) (request : JobRequest), request.id = id → request.point = .arrived →
    jobRequestStep k queue request .check = some (queue, { request with point := .checked })
  restart : ∀ text : JsonText, (queue.manager text).ReadsBack text →
    ∀ job ∈ (JobSetManager.new text (queue.manager text).file).2, Job.id job ≠ id

/-- The ended chain of a request has no entry and will have none, and its id is
free unless another request of it has a job that has not ended. -/
structure ChainGone (s : JobSystem) (i : Nat) (request : JobRequest) : Prop where
  noEntry : ∀ entry ∈ s.shared.entries, entry.owner ≠ i
  free : (∀ k other, s.processes[k]? = some other → other.id = request.id →
    other.point.wasAdded = true → k ∈ s.shared.ended) → Free s.shared request.id

/-- An entry of a chain that has ended is there only until the handler removes it. -/
structure Chains (s : JobSystem) : Prop where
  books : Books s.shared s.processes
  leaving : ∀ entry ∈ s.shared.entries, entry.owner ∈ s.shared.ended →
    s.shared.handler.clears = some (Job.id entry) ∧
      s.shared.ended.getLast? = some entry.owner

/-- Where the handler has an id to remove, it removes it next. -/
theorem removed_of_clears {queue next : JobQueue} {action : QueueAction} {id : Str}
    (clears : queue.handler.clears = some id) (step : queueStep queue action = some next)
    (cleared : next.handler.clears = none) :
    action = .proceed ∧ next.pending = removeJob queue.pending id ∧ next.adding = queue.adding := by
  cases action with
  | receive =>
      simp only [queueStep] at step
      split at step
      · rename_i handler _
        rw [handler] at clears
        cases clears
      · cases step
  | complete i succeeds =>
      simp only [queueStep] at step
      split at step
      · rename_i handler _
        rw [handler] at clears
        cases clears
      · cases step
  | proceed =>
      refine ⟨rfl, ?_⟩
      simp only [queueStep] at step
      split at step <;> rename_i handler <;> rw [handler] at clears <;> cases clears <;>
        cases step <;> exact ⟨rfl, rfl⟩
  | addSpawned i =>
      obtain ⟨job, found, rfl⟩ := Option.map_eq_some_iff.mp step
      rw [clears] at cleared
      cases cleared
  | removeInput i =>
      simp only [queueStep] at step
      split at step
      · cases step
        rw [clears] at cleared
        cases cleared
      · cases step

namespace Chains

variable {s : JobSystem}

/-- The queue has moved on and no chain has ended: what entries there are, were
there or belong to a job that is running. -/
theorem move (chains : Chains s) {queue : JobQueue} (books : Books queue s.processes)
    (ended : queue.ended = s.shared.ended)
    (handler : queue.handler.clears = s.shared.handler.clears)
    (entries : ∀ entry ∈ queue.entries, entry ∈ s.shared.entries ∨ entry.owner ∉ s.shared.ended) :
    Chains ⟨queue, s.processes⟩ where
  books := books
  leaving entry member isOver := by
    change entry.owner ∈ queue.ended at isOver
    change queue.handler.clears = _ ∧ queue.ended.getLast? = _
    rw [ended] at isOver
    rw [ended, handler]
    rcases entries entry member with before | running
    · exact chains.leaving entry before isOver
    · exact absurd isOver running

/-- The handler has nothing to remove any more, and the ended chains have no entry. -/
theorem clear (chains : Chains s) {queue : JobQueue} {action : QueueAction}
    (allowed : clearsAlone s (.queue action) = true)
    (step : queueStep s.shared action = some queue) (books : Books queue s.processes)
    (ended : queue.ended = s.shared.ended) (cleared : queue.handler.clears = none)
    (entries : ∀ entry ∈ queue.entries, entry ∈ s.shared.entries) :
    Chains ⟨queue, s.processes⟩ where
  books := books
  leaving entry member isOver := by
    exfalso
    change entry ∈ queue.entries at member
    change entry.owner ∈ queue.ended at isOver
    obtain ⟨clears, last⟩ := chains.leaving entry (entries entry member) (ended ▸ isOver)
    obtain ⟨rfl, removed, adding⟩ := removed_of_clears clears step cleared
    rcases List.mem_append.mp member with listed | adds
    · rw [removed] at listed
      exact (mem_removeJob.mp listed).2 rfl
    · rw [adding] at adds
      simp only [clearsAlone, clears, last, List.all_eq_true, Bool.not_eq_true',
        decide_eq_false_iff_not] at allowed
      exact allowed entry adds rfl

/-- A chain has ended: the handler removes its id next. -/
theorem finish (chains : Chains s) {i : Nat} {job : QueuedJob} {handler : HandlerPoint}
    (waits : s.shared.handler.clears = none) (found : s.shared.inProgress[i]? = some job)
    (clears : handler.clears = some (Job.id job)) :
    Chains ⟨{ s.shared with
      inProgress := s.shared.inProgress.eraseIdx i
      handler
      ended := s.shared.ended ++ [job.owner] }, s.processes⟩ where
  books := chains.books.finish handler found
  leaving entry member isOver := by
    obtain ⟨request, there, id, -⟩ := chains.books.entries entry member
    rcases List.mem_append.mp isOver with before | now
    · have leaves := (chains.leaving entry member before).1
      rw [waits] at leaves
      cases leaves
    · have owner : entry.owner = job.owner := List.mem_singleton.mp now
      obtain ⟨-, sender, here, same, -⟩ :=
        chains.books.tasks job (Books.task_of_inProgress found)
      rw [owner, here] at there
      obtain rfl := Option.some.inj there
      refine ⟨?_, ?_⟩
      · rw [← id, same]
        exact clears
      · rw [owner]
        exact List.getLast?_concat

theorem of_queueStep (chains : Chains s) {queue : JobQueue} {action : QueueAction}
    (allowed : clearsAlone s (.queue action) = true)
    (step : queueStep s.shared action = some queue) : Chains ⟨queue, s.processes⟩ := by
  have books := chains.books.of_queueStep (queueStep_cases step)
  cases queueStep_cases step with
  | skip _ _ _ => exact chains.move books rfl rfl fun entry member => .inl member
  | receive _ => exact chains.move books rfl rfl fun entry member => .inl member
  | @resend i job again adding found continues spawned =>
      refine chains.move books rfl rfl fun entry member => ?_
      rcases List.mem_append.mp member with listed | adds
      · exact .inl (List.mem_append_left _ listed)
      · rcases spawned with rfl | rfl
        · exact .inl (List.mem_append_right _ adds)
        · rcases List.mem_append.mp adds with before | new
          · exact .inl (List.mem_append_right _ before)
          · rw [List.mem_singleton.mp new, continues.2]
            exact .inr (chains.books.tasks job (Books.task_of_inProgress found)).1
  | finish waits found clears => exact chains.finish waits found clears
  | clear _ cleared =>
      refine chains.clear allowed step books rfl cleared fun entry member => ?_
      rcases List.mem_append.mp member with listed | adds
      · exact List.mem_append_left _ (mem_removeJob.mp listed).1
      · exact List.mem_append_right _ adds
  | act cleared _ => exact chains.clear allowed step books rfl cleared fun _ member => member
  | @addSpawned i job found =>
      refine chains.move books rfl rfl fun entry member => .inl ?_
      rcases List.mem_append.mp member with listed | adds
      · rcases mem_addJob.mp listed with ⟨old, -⟩ | rfl
        · exact List.mem_append_left _ old
        · exact List.mem_append_right _ (List.mem_of_getElem? found)
      · exact List.mem_append_right _ (List.mem_of_mem_eraseIdx adds)
  | removeInput _ => exact chains.move books rfl rfl fun entry member => .inl member

/-- A step of a request: it may add an entry of its own, before its chain has
ended. -/
theorem of_requestStep (chains : Chains s) {i : Nat} {request request' : JobRequest}
    {action : JobRequestAction} {queue : JobQueue} (found : s.processes[i]? = some request)
    (step : JobRequestStep i s.shared request action queue request') :
    Chains ⟨queue, s.processes.set i request'⟩ := by
  have books := chains.books.of_requestStep found step
  have unchanged : queue.entries = s.shared.entries → queue.ended = s.shared.ended →
      queue.handler = s.shared.handler → Chains ⟨queue, s.processes.set i request'⟩ := by
    intro entries ended handler
    refine ⟨books, fun entry member isOver => ?_⟩
    change entry ∈ queue.entries at member
    change entry.owner ∈ queue.ended at isOver
    change queue.handler.clears = _ ∧ queue.ended.getLast? = _
    rw [handler, ended]
    exact chains.leaving entry (entries ▸ member) (ended ▸ isOver)
  cases step with
  | refuse _ => exact unchanged rfl rfl rfl
  | check _ _ => exact unchanged rfl rfl rfl
  | create _ => exact unchanged rfl rfl rfl
  | fail _ => exact unchanged rfl rfl rfl
  | add point =>
      have unsent : request.point.wasSent = false := by
        rcases point with writing | ⟨checked, -⟩
        · rw [writing]; rfl
        · rw [checked]; rfl
      refine ⟨books, fun entry member isOver => ?_⟩
      rcases List.mem_append.mp member with listed | adds
      · rcases mem_addJob.mp listed with ⟨old, -⟩ | rfl
        · exact chains.leaving entry (List.mem_append_left _ old) isOver
        · exact absurd isOver (chains.books.not_ended found unsent)
      · exact chains.leaving entry (List.mem_append_right _ adds) isOver
  | send _ => exact unchanged rfl rfl rfl
  | answer _ => exact unchanged rfl rfl rfl

theorem of_jobStep {t : JobSystem} {action : JobAction} (chains : Chains s)
    (allowed : clearsAlone s action = true) (moved : jobStep s action = some t) : Chains t := by
  cases action with
  | upload job =>
      have books := chains.books.of_jobStep moved
      cases moved
      exact ⟨books, chains.leaving⟩
  | migrate job =>
      have books := chains.books.of_jobStep moved
      cases moved
      exact ⟨books, chains.leaving⟩
  | request i action =>
      obtain ⟨request, request', queue, found, stepped, rfl⟩ := act_eq_some moved
      exact chains.of_requestStep found (jobRequestStep_cases stepped)
  | queue action =>
      obtain ⟨queue, stepped, rfl⟩ := Option.map_eq_some_iff.mp moved
      exact chains.of_queueStep allowed stepped

theorem start (isS3 : Bool) : Chains (noJobs isS3) := ⟨Books.start isS3, nofun⟩

/-- An entry of an ended chain is about to be removed. -/
theorem not_ended_of_entry (chains : Chains s) {request : JobRequest}
    (cleared : s.shared.handler.clears ≠ some request.id) {entry : QueuedJob}
    (member : entry ∈ s.shared.entries) (same : Job.id entry = request.id) :
    entry.owner ∉ s.shared.ended :=
  fun isOver => cleared (same ▸ (chains.leaving entry member isOver).1)

end Chains

/-- An id that is not pending is free. -/
theorem free_of_unlisted {queue : JobQueue} {id : Str}
    (consistent : ∀ text, (queue.manager text).Consistent text)
    (unlisted : ¬ Listed queue.pending id) : Free queue id where
  unlisted := unlisted
  accepted k request here point := by
    have none : ¬ queue.pending.any (fun job => decide (Job.id job = request.id)) = true := by
      intro pending
      obtain ⟨job, member, same⟩ := List.any_eq_true.mp pending
      exact unlisted ⟨job, member, (of_decide_eq_true same).trans here⟩
    simp only [jobRequestStep, point]
    rw [if_neg none]
  restart text reads job member same := by
    change job ∈ JobSetManager.load text (queue.manager text).file at member
    rw [JobSetManager.load_file (consistent text) reads] at member
    obtain ⟨raw, listed, rfl⟩ := List.mem_map.mp member
    obtain ⟨entry, pending, rfl⟩ := List.mem_map.mp listed
    exact unlisted ⟨entry, pending, (entry.job.reloads_reloaded.id).symm.trans same⟩

/-- **A finished chain leaves no pending entry**, in every run in which the handler
removes the id of an ended chain only after the additions spawned for it. -/
theorem chain_leaves_nothing {isS3 : Bool} {s : JobSystem}
    (run : Run jobStep clearsAlone (noJobs isS3) s) {i : Nat} {request : JobRequest}
    (found : s.processes[i]? = some request) (ended : i ∈ s.shared.ended)
    (cleared : s.shared.handler.clears ≠ some request.id) : ChainGone s i request := by
  have chains := Run.invariant run (Chains.start isS3) Chains.of_jobStep
  refine ⟨?_, fun others => free_of_unlisted (fun text => consistent_of_run text run) ?_⟩
  · rintro entry member rfl
    obtain ⟨adder, there, id, -⟩ := chains.books.entries entry member
    obtain rfl := Option.some.inj (found.symm.trans there)
    exact chains.not_ended_of_entry cleared member id.symm ended
  · rintro ⟨entry, listed, same⟩
    have member : entry ∈ s.shared.entries := List.mem_append_left _ listed
    obtain ⟨adder, there, id, added⟩ := chains.books.entries entry member
    exact chains.not_ended_of_entry cleared member same
      (others _ adder there (id.trans same) added)

/-- A conversion that is followed by an upload, whose addition comes in time. -/
def chainInOrder : List JobAction :=
  [.upload (.new "a".toList 30 .new), .request 0 .check, .request 0 .create, .request 0 .add,
    .request 0 .send, .request 0 .answer, .queue .receive, .queue (.removeInput 0),
    .queue (.complete 0 true), .queue (.addSpawned 0), .queue .receive,
    .queue (.complete 0 true), .queue .proceed]

theorem chain_leaves_nothing_inOrder :
    ∃ s request, exec jobStep clearsAlone (noJobs true) chainInOrder = some s ∧
      s.processes[0]? = some request ∧ ChainGone s 0 request :=
  ⟨_, _, rfl, rfl, chain_leaves_nothing
    (@run_of_exec _ _ jobStep clearsAlone (noJobs true) _ chainInOrder rfl) rfl
    (List.mem_singleton_self 0) nofun⟩

/-- The addition comes after the upload has ended and its entry was removed. All
tasks are finished, and the id is still pending and refused. -/
theorem addition_after_the_end :
    ∃ s request, exec jobStep anything (noJobs true)
        [.upload (.new "a".toList 30 .new), .request 0 .check, .request 0 .create, .request 0 .add,
          .request 0 .send, .request 0 .answer, .queue .receive, .queue (.complete 0 true),
          .queue .receive, .queue (.complete 0 true), .queue .proceed, .queue (.addSpawned 0)] =
        some s ∧
      s.processes = [request] ∧ s.shared.ended = [0] ∧ s.shared.tasks = [] ∧
      s.shared.adding = [] ∧ s.shared.handler = .waiting ∧
      s.shared.pending = [⟨.upload ⟨"a".toList, none⟩, 0⟩] ∧
      (jobRequestStep 1 s.shared ⟨request.job, .arrived⟩ .check).map (fun next => next.2.point) =
        some .refused ∧
      ¬ ChainGone s 0 request := by
  refine ⟨_, _, rfl, rfl, rfl, rfl, rfl, rfl, rfl, rfl, fun gone => ?_⟩
  exact gone.noEntry _ (List.mem_singleton_self _) rfl

end VideoStorage.Jobs
