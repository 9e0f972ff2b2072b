import Mathlib.Data.List.Perm.Basic
import VideoStorage.Jobs.Handler

/-!
# Whose jobs are in the queue

Every job in the channel or in progress belongs to a request that has sent one of
its id, no request has two of them, and none has one once its job has ended.
Every entry of the pending set belongs to a request that has added one of its id.
This holds in every run of requests and the job handler (`Books.of_jobStep`).
-/

set_option autoImplicit false

namespace VideoStorage.Jobs

open RustStd TransitionSystem Concurrent

/-- The request a job was accepted for has sent a job of its id. -/
def Sender (requests : List JobRequest) (job : QueuedJob) : Prop :=
  ∃ request, requests[job.owner]? = some request ∧
    request.id = Job.id job ∧ request.point.wasSent = true

/-- The request an entry belongs to has added a job of its id. -/
def Adder (requests : List JobRequest) (entry : QueuedJob) : Prop :=
  ∃ request, requests[entry.owner]? = some request ∧
    request.id = Job.id entry ∧ request.point.wasAdded = true

theorem Sender.adder {requests : List JobRequest} {job : QueuedJob} (sender : Sender requests job) :
    Adder requests job := by
  obtain ⟨request, found, id, sent⟩ := sender
  exact ⟨request, found, id, RequestPoint.wasAdded_of_wasSent sent⟩

/-- The entries of the pending set, and those that are still to be added. -/
def JobQueue.entries (queue : JobQueue) : List QueuedJob := queue.pending ++ queue.adding

structure Books (queue : JobQueue) (requests : List JobRequest) : Prop where
  tasks : ∀ job ∈ queue.tasks, job.owner ∉ queue.ended ∧ Sender requests job
  owners : (queue.tasks.map QueuedJob.owner).Nodup
  ended : ∀ k ∈ queue.ended, ∃ request, requests[k]? = some request ∧
    request.point.wasSent = true
  entries : ∀ entry ∈ queue.entries, Adder requests entry

namespace Books

variable {queue next : JobQueue} {requests : List JobRequest}

/-- A job that was not sent has not ended. -/
theorem not_ended (books : Books queue requests) {i : Nat} {request : JobRequest}
    (found : requests[i]? = some request) (unsent : request.point.wasSent = false) :
    i ∉ queue.ended := by
  intro member
  obtain ⟨other, there, sent⟩ := books.ended i member
  obtain rfl := Option.some.inj (found.symm.trans there)
  rw [unsent] at sent
  cases sent

/-- A job that was not sent is not in the queue. -/
theorem not_task (books : Books queue requests) {i : Nat} {request : JobRequest}
    (found : requests[i]? = some request) (unsent : request.point.wasSent = false) :
    i ∉ queue.tasks.map QueuedJob.owner := by
  intro member
  obtain ⟨job, inside, rfl⟩ := List.mem_map.mp member
  obtain ⟨-, other, there, -, sent⟩ := books.tasks job inside
  obtain rfl := Option.some.inj (found.symm.trans there)
  rw [unsent] at sent
  cases sent

/-! ## Steps of the queue -/

/-- The jobs and the entries continue those that were there. -/
theorem move (books : Books queue requests) (ended : next.ended = queue.ended)
    (owners : (next.tasks.map QueuedJob.owner).Nodup)
    (tasks : ∀ job ∈ next.tasks, ∃ before ∈ queue.tasks, job.Continues before)
    (entries : ∀ entry ∈ next.entries,
      ∃ before ∈ queue.tasks ++ queue.entries, entry.Continues before) :
    Books next requests where
  tasks job member := by
    obtain ⟨before, inside, id, owner⟩ := tasks job member
    rw [ended, Sender, id, owner]
    exact books.tasks before inside
  owners := owners
  ended := ended ▸ books.ended
  entries entry member := by
    obtain ⟨before, inside, id, owner⟩ := entries entry member
    rw [Adder, id, owner]
    rcases List.mem_append.mp inside with task | listed
    · exact (books.tasks before task).2.adder
    · exact books.entries before listed

/-- The entries are fewer or the same, and the jobs stay. -/
theorem fewer (books : Books queue requests) (ended : next.ended = queue.ended)
    (tasks : next.tasks = queue.tasks) (entries : ∀ entry ∈ next.entries, entry ∈ queue.entries) :
    Books next requests :=
  books.move ended (tasks ▸ books.owners) (fun job member => ⟨job, tasks ▸ member, rfl, rfl⟩)
    fun entry member => ⟨entry, List.mem_append_right _ (entries entry member), rfl, rfl⟩

/-- The job that has finished its work, and the jobs that remain. -/
theorem tasks_perm {i : Nat} {job : QueuedJob} (found : queue.inProgress[i]? = some job) :
    (job :: (queue.channel ++ queue.inProgress.eraseIdx i)).Perm queue.tasks := by
  obtain ⟨less, here⟩ := List.getElem?_eq_some_iff.mp found
  have taken := List.getElem_cons_eraseIdx_perm less
  rw [here] at taken
  exact List.perm_middle.symm.trans (taken.append_left queue.channel)

theorem task_of_inProgress {i : Nat} {job : QueuedJob}
    (found : queue.inProgress[i]? = some job) : job ∈ queue.tasks :=
  (tasks_perm found).mem_iff.mp (List.mem_cons_self ..)

/-- The job that takes the place of one whose attempt is over. -/
theorem resend_perm {i : Nat} {job again : QueuedJob} (found : queue.inProgress[i]? = some job)
    (continues : again.Continues job) :
    ((queue.channel ++ [again] ++ queue.inProgress.eraseIdx i).map QueuedJob.owner).Perm
      (queue.tasks.map QueuedJob.owner) := by
  have moved : (queue.channel ++ [again] ++ queue.inProgress.eraseIdx i).Perm
      (again :: (queue.channel ++ queue.inProgress.eraseIdx i)) := by
    rw [List.append_assoc]
    exact List.perm_middle
  have owners := moved.map QueuedJob.owner
  rw [List.map_cons, continues.2, ← List.map_cons] at owners
  exact owners.trans ((tasks_perm found).map _)

theorem continues_resend {i : Nat} {job again : QueuedJob}
    (found : queue.inProgress[i]? = some job) (continues : again.Continues job) :
    ∀ task ∈ queue.channel ++ [again] ++ queue.inProgress.eraseIdx i,
      ∃ before ∈ queue.tasks, task.Continues before := by
  intro task member
  rcases List.mem_append.mp member with sent | remaining
  · rcases List.mem_append.mp sent with waiting | new
    · exact ⟨task, List.mem_append_left _ waiting, rfl, rfl⟩
    · obtain rfl := List.mem_singleton.mp new
      exact ⟨job, task_of_inProgress found, continues⟩
  · exact ⟨task, List.mem_append_right _ (List.mem_of_mem_eraseIdx remaining), rfl, rfl⟩

theorem receive_perm {job : QueuedJob} {rest : List QueuedJob}
    (channel : queue.channel = job :: rest) :
    (rest ++ (queue.inProgress ++ [job])).Perm queue.tasks := by
  rw [JobQueue.tasks, channel, ← List.append_assoc]
  exact List.perm_append_singleton job _

/-- A job has ended. -/
theorem finish (books : Books queue requests) {i : Nat} {job : QueuedJob} (handler : HandlerPoint)
    (found : queue.inProgress[i]? = some job) :
    Books { queue with
      inProgress := queue.inProgress.eraseIdx i
      handler
      ended := queue.ended ++ [job.owner] } requests := by
  have perm := tasks_perm found
  obtain ⟨-, sender, here, -, sent⟩ := books.tasks job (task_of_inProgress found)
  have distinct := (perm.map QueuedJob.owner).nodup_iff.mpr books.owners
  rw [List.map_cons, List.nodup_cons] at distinct
  refine ⟨fun task inside => ?_, distinct.2, fun k inside => ?_, books.entries⟩
  · obtain ⟨unended, sends⟩ := books.tasks task (perm.mem_iff.mp (List.mem_cons_of_mem _ inside))
    refine ⟨fun now => ?_, sends⟩
    rcases List.mem_append.mp now with before | here
    · exact unended before
    · exact distinct.1 (List.mem_singleton.mp here ▸ List.mem_map_of_mem inside)
  · rcases List.mem_append.mp inside with before | now
    · exact books.ended k before
    · exact ⟨sender, List.mem_singleton.mp now ▸ here, sent⟩

theorem of_queueStep (books : Books queue requests) (step : QueueStep queue next) :
    Books next requests := by
  have same : ∀ entry ∈ queue.entries,
      ∃ before ∈ queue.tasks ++ queue.entries, entry.Continues before :=
    fun entry member => ⟨entry, List.mem_append_right _ member, rfl, rfl⟩
  cases step with
  | @skip job task rest channel _ _ =>
      have tasks : queue.tasks = job :: (rest ++ queue.inProgress) := by
        rw [JobQueue.tasks, channel, List.cons_append]
      have owners := books.owners
      rw [tasks, List.map_cons, List.nodup_cons] at owners
      refine books.move rfl owners.2 (fun job member => ?_) same
      exact ⟨job, tasks ▸ List.mem_cons_of_mem _ member, rfl, rfl⟩
  | receive channel =>
      have perm := receive_perm channel
      refine books.move rfl ((perm.map _).nodup_iff.mpr books.owners) (fun job member => ?_) same
      exact ⟨job, perm.mem_iff.mp member, rfl, rfl⟩
  | @resend i job again adding found continues spawned =>
      refine books.move rfl ((resend_perm found continues).nodup_iff.mpr books.owners)
        (continues_resend found continues) fun entry member => ?_
      rcases List.mem_append.mp member with listed | adds
      · exact same entry (List.mem_append_left _ listed)
      · rcases spawned with rfl | rfl
        · exact same entry (List.mem_append_right _ adds)
        · rcases List.mem_append.mp adds with before | new
          · exact same entry (List.mem_append_right _ before)
          · obtain rfl := List.mem_singleton.mp new
            exact ⟨job, List.mem_append_left _ (task_of_inProgress found), continues⟩
  | finish _ found _ => exact books.finish _ found
  | clear _ _ =>
      refine books.fewer rfl rfl fun entry member => ?_
      rcases List.mem_append.mp member with listed | adds
      · exact List.mem_append_left _ (mem_removeJob.mp listed).1
      · exact List.mem_append_right _ adds
  | act _ _ => exact books.fewer rfl rfl fun _ member => member
  | @addSpawned i job found =>
      refine books.fewer rfl rfl fun entry member => ?_
      rcases List.mem_append.mp member with listed | adds
      · rcases mem_addJob.mp listed with ⟨old, -⟩ | rfl
        · exact List.mem_append_left _ old
        · exact List.mem_append_right _ (List.mem_of_getElem? found)
      · exact List.mem_append_right _ (List.mem_of_mem_eraseIdx adds)
  | removeInput _ => exact books.fewer rfl rfl fun _ member => member

/-! ## Steps of a request -/

theorem spawn (books : Books queue requests) (request : JobRequest) :
    Books queue (requests ++ [request]) where
  tasks job member := ⟨(books.tasks job member).1, exists_at_spawn _ (books.tasks job member).2⟩
  owners := books.owners
  ended k member := exists_at_spawn _ (books.ended k member)
  entries entry member := exists_at_spawn _ (books.entries entry member)

/-- A request has moved on. -/
theorem set (books : Books queue requests) {i : Nat} {request request' : JobRequest}
    (found : requests[i]? = some request) (id : request'.id = request.id)
    (sent : request.point.wasSent = true → request'.point.wasSent = true)
    (added : request.point.wasAdded = true → request'.point.wasAdded = true) :
    Books queue (requests.set i request') where
  tasks job member := ⟨(books.tasks job member).1,
    exists_at_set found (fun has => ⟨id.trans has.1, sent has.2⟩) (books.tasks job member).2⟩
  owners := books.owners
  ended k member := exists_at_set found sent (books.ended k member)
  entries entry member :=
    exists_at_set found (fun has => ⟨id.trans has.1, added has.2⟩) (books.entries entry member)

/-- Only input files change. -/
theorem withUploads (books : Books queue requests) (uploads : Str → Option Nat) :
    Books { queue with uploads } requests :=
  books.fewer rfl rfl fun _ member => member

/-- A request has added its job. -/
theorem enter (books : Books queue requests) {i : Nat} {request : JobRequest}
    (found : requests[i]? = some request) (unsent : request.point.wasSent = false) :
    Books { queue with pending := addJob queue.pending ⟨request.job, i⟩ }
      (requests.set i { request with point := .added }) := by
  have moved : Books queue (requests.set i { request with point := .added }) :=
    books.set found rfl (fun sent => by rw [unsent] at sent; cases sent) fun _ => rfl
  refine ⟨moved.tasks, moved.owners, moved.ended, fun entry member => ?_⟩
  rcases List.mem_append.mp member with listed | adds
  · rcases mem_addJob.mp listed with ⟨old, -⟩ | rfl
    · exact moved.entries entry (List.mem_append_left _ old)
    · exact ⟨_, List.getElem?_set_self (List.getElem?_eq_some_iff.mp found).1, rfl, rfl⟩
  · exact moved.entries entry (List.mem_append_right _ adds)

theorem send_perm (i : Nat) (request : JobRequest) (queue : JobQueue) :
    (queue.channel ++ [(⟨request.job, i⟩ : QueuedJob)] ++ queue.inProgress).Perm
      (⟨request.job, i⟩ :: queue.tasks) := by
  rw [List.append_assoc]
  exact List.perm_middle

/-- A request has sent its job. -/
theorem send (books : Books queue requests) {i : Nat} {request : JobRequest}
    (found : requests[i]? = some request) (unsent : request.point.wasSent = false) :
    Books { queue with channel := queue.channel ++ [⟨request.job, i⟩] }
      (requests.set i { request with point := .sent }) := by
  have moved : Books queue (requests.set i { request with point := .sent }) :=
    books.set found rfl (fun _ => rfl) fun _ => rfl
  have perm := send_perm i request queue
  have owners := perm.map QueuedJob.owner
  rw [List.map_cons] at owners
  refine ⟨fun job member => ?_, ?_, moved.ended, moved.entries⟩
  · rcases List.mem_cons.mp (perm.mem_iff.mp member) with rfl | other
    · exact ⟨books.not_ended found unsent, _,
        List.getElem?_set_self (List.getElem?_eq_some_iff.mp found).1, rfl, rfl⟩
    · exact moved.tasks job other
  · exact owners.nodup_iff.mpr (List.nodup_cons.mpr ⟨books.not_task found unsent, books.owners⟩)

theorem of_requestStep (books : Books queue requests) {i : Nat} {request request' : JobRequest}
    {action : JobRequestAction} (found : requests[i]? = some request)
    (step : JobRequestStep i queue request action next request') :
    Books next (requests.set i request') := by
  have early : request.point.wasAdded = false → ∀ point,
      Books queue (requests.set i { request with point }) := by
    intro before point
    refine books.set found rfl (fun sent => ?_) fun added => ?_
    · rw [RequestPoint.wasAdded_of_wasSent sent] at before
      cases before
    · rw [before] at added
      cases added
  cases step with
  | refuse before => exact early before .refused
  | check point _ => exact early (by rw [point]; rfl) .checked
  | create point => exact (early (by rw [point]; rfl) .writing).withUploads _
  | fail point => exact (early (by rw [point]; rfl) .refused).withUploads _
  | add point =>
      refine books.enter found ?_
      rcases point with writing | ⟨checked, -⟩
      · rw [writing]; rfl
      · rw [checked]; rfl
  | send point => exact books.send found (by rw [point]; rfl)
  | answer point => exact books.set found rfl (fun _ => rfl) fun _ => rfl

/-! ## Runs -/

theorem of_jobStep {s t : JobSystem} {action : JobAction} (books : Books s.shared s.processes)
    (moved : jobStep s action = some t) : Books t.shared t.processes := by
  cases action with
  | upload job =>
      cases moved
      exact books.spawn _
  | migrate job =>
      cases moved
      exact books.spawn _
  | request i action =>
      obtain ⟨request, request', queue, found, stepped, rfl⟩ := act_eq_some moved
      exact books.of_requestStep found (jobRequestStep_cases stepped)
  | queue action =>
      obtain ⟨queue, stepped, rfl⟩ := Option.map_eq_some_iff.mp moved
      exact books.of_queueStep (queueStep_cases stepped)

theorem start (isS3 : Bool) : Books (noJobs isS3).shared (noJobs isS3).processes where
  tasks := nofun
  owners := List.nodup_nil
  ended := nofun
  entries := nofun

end Books

end VideoStorage.Jobs
