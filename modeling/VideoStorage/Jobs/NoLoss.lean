import VideoStorage.Jobs.Books

/-!
# No accepted job is lost or doubled

A job answered with 202 should be in the channel or in progress, once, until it
has run to `Done` or to its final failure. Its entry in the pending set should
stay its own, and its input file should not be written by another request.

The check for a pending job of the same id and the addition to the pending set
are separate steps, and two requests of one id can both pass the check
(`two_uploads_of_one_id`). A second gap is the spawned addition of an upload
job, which can come after the job it adds has ended. Where a request passes the
check only when neither gap is open for its id, no accepted job is lost
(`accepted_served`).

The proof gives every id a holder, the last request that passed the check for it
and whose job has not ended. Everything of that id in the queue belongs to its
holder, beside what `Books` says of every run.
-/

set_option autoImplicit false

namespace VideoStorage.Jobs

open RustStd TransitionSystem Concurrent

/-- What an accepted job is promised while it has not ended. -/
structure Served (queue : JobQueue) (i : Nat) (request : JobRequest) : Prop where
  running : (queue.tasks.map QueuedJob.owner).count i = 1
  notSkipped : i ∉ queue.skipped
  pending : Listed queue.pending request.id
  ownEntry : ∀ job ∈ queue.pending, Job.id job = request.id → job.owner = i
  /-- An input file of its id, where there is one, has been created by its request. -/
  noOthersInput : request.uploads = true → ∀ k, queue.uploads request.id = some k → k = i

/-- The condition under which jobs are not lost: a request passes the check only
when no other request of its id is between the check and the addition, and no
spawned task has still to add a job of its id. -/
def passesAlone (s : JobSystem) : JobAction → Bool
  | .request i .check =>
      match s.processes[i]? with
      | some request =>
          (s.shared.pending.any fun job => decide (Job.id job = request.id)) ||
            (s.processes.all fun other =>
                !(decide (other.id = request.id) && other.point.inWindow)) &&
              s.shared.adding.all fun job => !decide (Job.id job = request.id)
      | none => true
  | _ => true

/-! ## The ledger -/

/-- The request has passed the check. -/
def RequestPoint.engaged (point : RequestPoint) : Bool := point.inWindow || point.wasAdded

theorem RequestPoint.engaged_of_hasInput {point : RequestPoint} (has : point.hasInput = true) :
    point.engaged = true := by
  cases point <;> first | rfl | cases has

/-- What the queue has of request `i`, until its job has ended. -/
structure RequestOk (held : Str → Option Nat) (queue : JobQueue) (i : Nat)
    (request : JobRequest) : Prop where
  engaged : request.point.engaged = true → i ∉ queue.ended → held request.id = some i
  added : request.point.wasAdded = true → i ∉ queue.ended → Listed queue.pending request.id
  sent : request.point.wasSent = true → i ∉ queue.ended → i ∈ queue.tasks.map QueuedJob.owner
  input : request.uploads = true → request.point.hasInput = true → i ∉ queue.ended →
    ∀ k, queue.uploads request.id = some k → k = i

/-- `held` gives the holder of an id. -/
structure Ledger (held : Str → Option Nat) (s : JobSystem) : Prop where
  requests : ∀ i request, s.processes[i]? = some request → RequestOk held s.shared i request
  entries : ∀ job ∈ s.shared.pending ++ s.shared.adding, ∀ k, held (Job.id job) = some k →
    job.owner = k
  clearing : ∀ id, s.shared.handler.clears = some id →
    held id = none ∧ Listed s.shared.pending id
  skipped : s.shared.skipped = []

namespace Ledger

variable {held : Str → Option Nat} {s : JobSystem}

/-- A job in the channel or in progress belongs to the holder of its id. -/
theorem held_of_task (ledger : Ledger held s) (books : Books s.shared s.processes)
    {job : QueuedJob} (member : job ∈ s.shared.tasks) : held (Job.id job) = some job.owner := by
  obtain ⟨live, request, found, id, sent⟩ := books.tasks job member
  rw [← id]
  refine (ledger.requests _ request found).engaged ?_ live
  rw [RequestPoint.engaged, RequestPoint.wasAdded_of_wasSent sent, Bool.or_true]

/-- The request that acts has moved on, and the queue has what it should of it. -/
theorem set (ledger : Ledger held s) {i : Nat} {request : JobRequest}
    (ok : RequestOk held s.shared i request) :
    Ledger held ⟨s.shared, s.processes.set i request⟩ where
  requests := forall_at_set ledger.requests ok
  entries := ledger.entries
  clearing := ledger.clearing
  skipped := ledger.skipped

theorem spawn (ledger : Ledger held s) (job : RawJob) :
    Ledger held (Concurrent.spawn s ⟨job, .arrived⟩) where
  requests := forall_at_spawn ledger.requests ⟨nofun, nofun, nofun, nofun⟩
  entries := ledger.entries
  clearing := ledger.clearing
  skipped := ledger.skipped

/-! ## Steps of the queue -/

/-- Jobs move between the channel and the jobs in progress, or are followed by
others of the same id and request. -/
theorem move (ledger : Ledger held s) {channel inProgress adding : List QueuedJob}
    (owners : ((channel ++ inProgress).map QueuedJob.owner).Perm
      (s.shared.tasks.map QueuedJob.owner))
    (entries : ∀ job ∈ adding, ∀ k, held (Job.id job) = some k → job.owner = k) :
    Ledger held ⟨{ s.shared with channel, inProgress, adding }, s.processes⟩ where
  requests i request found :=
    let ok := ledger.requests i request found
    ⟨ok.engaged, ok.added, fun sent live => owners.mem_iff.mpr (ok.sent sent live), ok.input⟩
  entries job member := by
    rcases List.mem_append.mp member with listed | spawned
    · exact ledger.entries job (List.mem_append_left _ listed)
    · exact entries job spawned
  clearing := ledger.clearing
  skipped := ledger.skipped

theorem receive (ledger : Ledger held s) {job : QueuedJob} {rest : List QueuedJob}
    (channel : s.shared.channel = job :: rest) :
    Ledger held ⟨{ s.shared with
      channel := rest, inProgress := s.shared.inProgress ++ [job] }, s.processes⟩ :=
  ledger.move ((Books.receive_perm channel).map _)
    fun job member => ledger.entries job (List.mem_append_right _ member)

/-- A job of an id that is in progress is never received. -/
theorem no_skip (ledger : Ledger held s) (books : Books s.shared s.processes)
    {job task : QueuedJob} {rest : List QueuedJob}
    (channel : s.shared.channel = job :: rest) (member : task ∈ s.shared.inProgress)
    (same : Job.id task = Job.id job) : False := by
  have tasks : s.shared.tasks = job :: (rest ++ s.shared.inProgress) := by
    rw [JobQueue.tasks, channel, List.cons_append]
  have first : held (Job.id job) = some job.owner :=
    ledger.held_of_task books (tasks ▸ List.mem_cons_self ..)
  have second : held (Job.id task) = some task.owner :=
    ledger.held_of_task books (List.mem_append_right _ member)
  have owner : task.owner = job.owner :=
    Option.some.inj (second.symm.trans (same ▸ first))
  have distinct := books.owners
  rw [tasks, List.map_cons, List.nodup_cons] at distinct
  exact distinct.1 (List.mem_map.mpr ⟨task, List.mem_append_right _ member, owner⟩)

theorem resend (ledger : Ledger held s) (books : Books s.shared s.processes) {i : Nat}
    {job next : QueuedJob} {adding : List QueuedJob} (found : s.shared.inProgress[i]? = some job)
    (continues : next.Continues job)
    (spawned : adding = s.shared.adding ∨ adding = s.shared.adding ++ [next]) :
    Ledger held ⟨{ s.shared with
      inProgress := s.shared.inProgress.eraseIdx i
      channel := s.shared.channel ++ [next]
      adding }, s.processes⟩ := by
  refine ledger.move (Books.resend_perm found continues) fun task member => ?_
  have old := ledger.entries task
  rcases spawned with rfl | rfl
  · exact old (List.mem_append_right _ member)
  · rcases List.mem_append.mp member with before | new
    · exact old (List.mem_append_right _ before)
    · intro k holds
      obtain rfl := List.mem_singleton.mp new
      have owner := ledger.held_of_task books (Books.task_of_inProgress found)
      rw [continues.1] at holds
      exact continues.2.trans (Option.some.inj (owner.symm.trans holds))

/-- What the queue has of a request whose job is not the one that has ended. -/
theorem requestOk_finish (ledger : Ledger held s) (books : Books s.shared s.processes)
    {i : Nat} {job : QueuedJob} (handler : HandlerPoint)
    (found : s.shared.inProgress[i]? = some job) {k : Nat}
    {request : JobRequest} (there : s.processes[k]? = some request) :
    RequestOk (Function.update held (Job.id job) none) { s.shared with
      inProgress := s.shared.inProgress.eraseIdx i
      handler
      ended := s.shared.ended ++ [job.owner] } k request := by
  have holds := ledger.held_of_task books (Books.task_of_inProgress found)
  have ok := ledger.requests k request there
  have before : k ∉ s.shared.ended ++ [job.owner] → k ∉ s.shared.ended ∧ k ≠ job.owner := by
    intro now
    rw [List.mem_append, List.mem_singleton, not_or] at now
    exact now
  refine ⟨fun engaged now => ?_, fun added now => ok.added added (before now).1,
    fun has now => ?_, fun uploads has now => ok.input uploads has (before now).1⟩
  · have is := ok.engaged engaged (before now).1
    have differ : request.id ≠ Job.id job := by
      intro same
      rw [same, holds] at is
      exact (before now).2 (Option.some.inj is).symm
    rwa [Function.update_of_ne differ]
  · have running :=
      ((Books.tasks_perm found).map QueuedJob.owner).mem_iff.mpr (ok.sent has (before now).1)
    rw [List.map_cons, List.mem_cons] at running
    exact running.resolve_left (before now).2

/-- A job has ended, and its id has no holder any more. -/
theorem finish (ledger : Ledger held s) (books : Books s.shared s.processes) {i : Nat}
    {job : QueuedJob} {handler : HandlerPoint} (found : s.shared.inProgress[i]? = some job)
    (clears : handler.clears = some (Job.id job)) :
    Ledger (Function.update held (Job.id job) none) ⟨{ s.shared with
      inProgress := s.shared.inProgress.eraseIdx i
      handler
      ended := s.shared.ended ++ [job.owner] }, s.processes⟩ := by
  obtain ⟨live, sender, here, id, sent⟩ := books.tasks job (Books.task_of_inProgress found)
  refine ⟨fun k request => ledger.requestOk_finish books handler found,
    fun entry inside k is => ?_, fun id' is => ?_, ledger.skipped⟩
  · have differ : Job.id entry ≠ Job.id job := by
      intro same
      rw [same, Function.update_self] at is
      cases is
    rw [Function.update_of_ne differ] at is
    exact ledger.entries entry inside k is
  · obtain rfl := Option.some.inj (clears.symm.trans is)
    refine ⟨Function.update_self .., ?_⟩
    rw [← id]
    exact (ledger.requests _ sender here).added (RequestPoint.wasAdded_of_wasSent sent) live

/-- The handler removes the entry of a job that has ended. -/
theorem clear (ledger : Ledger held s) {id : Str} {handler : HandlerPoint}
    (clears : s.shared.handler.clears = some id) (cleared : handler.clears = none) :
    Ledger held ⟨{ s.shared with pending := removeJob s.shared.pending id, handler },
      s.processes⟩ where
  requests i request found := by
    have ok := ledger.requests i request found
    refine ⟨ok.engaged, fun added live => ?_, ok.sent, ok.input⟩
    obtain ⟨job, member, same⟩ := ok.added added live
    refine ⟨job, mem_removeJob.mpr ⟨member, fun here => ?_⟩, same⟩
    have holds := ok.engaged (by rw [RequestPoint.engaged, added, Bool.or_true]) live
    rw [← same, here, (ledger.clearing id clears).1] at holds
    cases holds
  entries job member := by
    refine ledger.entries job ?_
    rcases List.mem_append.mp member with listed | spawned
    · exact List.mem_append_left _ (mem_removeJob.mp listed).1
    · exact List.mem_append_right _ spawned
  clearing id is := absurd (cleared.symm.trans is) nofun
  skipped := ledger.skipped

/-- Input files are removed. -/
theorem removeInputs (ledger : Ledger held s) {handler : HandlerPoint}
    {uploads : Str → Option Nat}
    (clears : handler.clears = none ∨ handler.clears = s.shared.handler.clears)
    (fewer : ∀ id k, uploads id = some k → s.shared.uploads id = some k) :
    Ledger held ⟨{ s.shared with uploads, handler }, s.processes⟩ where
  requests i request found :=
    let ok := ledger.requests i request found
    ⟨ok.engaged, ok.added, ok.sent,
      fun uploads has live k here => ok.input uploads has live k (fewer _ k here)⟩
  entries := ledger.entries
  clearing id is := by
    rcases clears with cleared | same
    · exact absurd (cleared.symm.trans is) nofun
    · exact ledger.clearing id (same ▸ is)
  skipped := ledger.skipped

/-- A job of a holder is added to the pending set. -/
theorem add (ledger : Ledger held s) {job : QueuedJob} {adding : List QueuedJob}
    (own : ∀ k, held (Job.id job) = some k → job.owner = k)
    (fewer : ∀ task ∈ adding, task ∈ s.shared.adding) :
    Ledger held ⟨{ s.shared with pending := addJob s.shared.pending job, adding },
      s.processes⟩ := by
  have listed : ∀ id, Listed s.shared.pending id → Listed (addJob s.shared.pending job) id := by
    rintro id ⟨entry, member, same⟩
    by_cases here : Job.id entry = Job.id job
    · exact ⟨job, mem_addJob.mpr (.inr rfl), here ▸ same⟩
    · exact ⟨entry, mem_addJob.mpr (.inl ⟨member, here⟩), same⟩
  refine ⟨fun i request found => ?_, fun entry member => ?_, fun id is => ?_, ledger.skipped⟩
  · have ok := ledger.requests i request found
    exact ⟨ok.engaged, fun added live => listed _ (ok.added added live), ok.sent, ok.input⟩
  · rcases List.mem_append.mp member with pending | spawned
    · rcases mem_addJob.mp pending with ⟨old, -⟩ | rfl
      · exact ledger.entries entry (List.mem_append_left _ old)
      · exact own
    · exact ledger.entries entry (List.mem_append_right _ (fewer entry spawned))
  · exact ⟨(ledger.clearing id is).1, listed id (ledger.clearing id is).2⟩

/-! ## Steps of a request -/

/-- A request that passes the check alone holds its id. -/
theorem hold (ledger : Ledger held s) {i : Nat} {request : JobRequest}
    (absent : ¬ Listed s.shared.pending request.id)
    (alone : ∀ other ∈ s.processes, other.id = request.id → other.point.inWindow = false)
    (noneSpawned : ∀ job ∈ s.shared.adding, Job.id job ≠ request.id) :
    Ledger (Function.update held request.id (some i)) s := by
  -- Every other request of the id has ended: it is past the window, and its job is not pending.
  have quiet : ∀ k other, s.processes[k]? = some other → other.point.engaged = true →
      k ∉ s.shared.ended → other.id ≠ request.id := by
    intro k other there engaged live same
    rw [RequestPoint.engaged, alone other (List.mem_of_getElem? there) same, Bool.false_or]
      at engaged
    exact absent (same ▸ (ledger.requests k other there).added engaged live)
  refine ⟨fun k other there => ?_, fun job member k is => ?_, fun id is => ?_, ledger.skipped⟩
  · have ok := ledger.requests k other there
    refine ⟨fun engaged live => ?_, ok.added, ok.sent, ok.input⟩
    rw [Function.update_of_ne (quiet k other there engaged live)]
    exact ok.engaged engaged live
  · have differ : Job.id job ≠ request.id := by
      rcases List.mem_append.mp member with listed | spawned
      · exact fun same => absent ⟨job, listed, same⟩
      · exact noneSpawned job spawned
    rw [Function.update_of_ne differ] at is
    exact ledger.entries job member k is
  · have old := ledger.clearing id is
    have differ : id ≠ request.id := fun same => absent (same ▸ old.2)
    exact ⟨(Function.update_of_ne differ ..).trans old.1, old.2⟩

/-- A request creates its input file. -/
theorem create (ledger : Ledger held s) (books : Books s.shared s.processes)
    {i : Nat} {request : JobRequest}
    (found : s.processes[i]? = some request) (point : request.point = .checked) :
    Ledger held ⟨{ s.shared with
      uploads := Function.update s.shared.uploads request.id (some i) },
      s.processes.set i { request with point := .writing }⟩ := by
  have ok := ledger.requests i request found
  have live := books.not_ended found (by rw [point]; rfl)
  have holds := ok.engaged (by rw [point]; rfl) live
  have written : Ledger held ⟨{ s.shared with
      uploads := Function.update s.shared.uploads request.id (some i) }, s.processes⟩ := by
    refine ⟨fun k other there => ?_, ledger.entries, ledger.clearing, ledger.skipped⟩
    have old := ledger.requests k other there
    refine ⟨old.engaged, old.added, old.sent, fun uploads has unended creator here => ?_⟩
    have engaged := RequestPoint.engaged_of_hasInput has
    by_cases same : other.id = request.id
    · have mine := old.engaged engaged unended
      rw [same, holds] at mine
      simp only [same, Function.update_self] at here
      exact (Option.some.inj here).symm.trans (Option.some.inj mine)
    · simp only [Function.update_of_ne same] at here
      exact old.input uploads has unended creator here
  refine written.set ⟨fun _ _ => holds, nofun, nofun, fun _ _ _ k here => ?_⟩
  have mine : Function.update s.shared.uploads request.id (some i) request.id = some k := here
  rw [Function.update_self] at mine
  exact (Option.some.inj mine).symm

/-- A request adds its job to the pending set. -/
theorem enter (ledger : Ledger held s) (books : Books s.shared s.processes)
    {i : Nat} {request : JobRequest}
    (found : s.processes[i]? = some request)
    (point : request.point = .writing ∨ request.point = .checked ∧ request.uploads = false) :
    Ledger held ⟨{ s.shared with pending := addJob s.shared.pending ⟨request.job, i⟩ },
      s.processes.set i { request with point := .added }⟩ := by
  have inWindow : request.point.inWindow = true := by
    rcases point with writing | ⟨checked, -⟩
    · rw [writing]; rfl
    · rw [checked]; rfl
  have unsent : request.point.wasSent = false := by
    rcases point with writing | ⟨checked, -⟩
    · rw [writing]; rfl
    · rw [checked]; rfl
  have ok := ledger.requests i request found
  have holds := ok.engaged (by rw [RequestPoint.engaged, inWindow, Bool.true_or])
    (books.not_ended found unsent)
  have listed : Ledger held ⟨{ s.shared with
      pending := addJob s.shared.pending ⟨request.job, i⟩ }, s.processes⟩ :=
    ledger.add (fun k is => Option.some.inj (holds.symm.trans is)) fun _ member => member
  refine listed.set ⟨fun _ _ => holds,
    fun _ _ => ⟨⟨request.job, i⟩, mem_addJob.mpr (.inr rfl), rfl⟩, nofun,
    fun uploads _ => ok.input uploads ?_⟩
  rcases point with writing | ⟨-, migrates⟩
  · rw [writing]; rfl
  · rw [show request.uploads = true from uploads] at migrates
    cases migrates

/-- A request sends its job to the channel. -/
theorem send (ledger : Ledger held s) {i : Nat} {request : JobRequest}
    (found : s.processes[i]? = some request) (point : request.point = .added) :
    Ledger held ⟨{ s.shared with channel := s.shared.channel ++ [⟨request.job, i⟩] },
      s.processes.set i { request with point := .sent }⟩ := by
  have owners := (Books.send_perm i request s.shared).map QueuedJob.owner
  rw [List.map_cons] at owners
  refine ⟨forall_at_set (fun k other there => ?_) ?_, ledger.entries, ledger.clearing,
    ledger.skipped⟩
  · have ok := ledger.requests k other there
    exact ⟨ok.engaged, ok.added,
      fun sent unended => owners.mem_iff.mpr (List.mem_cons_of_mem _ (ok.sent sent unended)),
      ok.input⟩
  · have ok := ledger.requests i request found
    exact ⟨fun _ => ok.engaged (by rw [point]; rfl), fun _ => ok.added (by rw [point]; rfl),
      fun _ _ => owners.mem_iff.mpr (List.mem_cons_self ..),
      fun uploads _ => ok.input uploads (by rw [point]; rfl)⟩

/-! ## Runs -/

theorem of_queueStep (ledger : Ledger held s) (books : Books s.shared s.processes)
    {queue : JobQueue} (step : QueueStep s.shared queue) :
    ∃ held, Ledger held ⟨queue, s.processes⟩ := by
  cases step with
  | skip channel member same => exact (ledger.no_skip books channel member same).elim
  | receive channel => exact ⟨held, ledger.receive channel⟩
  | resend found continues spawned => exact ⟨held, ledger.resend books found continues spawned⟩
  | finish waits found clears => exact ⟨_, ledger.finish books found clears⟩
  | clear clears cleared => exact ⟨held, ledger.clear clears cleared⟩
  | act cleared fewer => exact ⟨held, ledger.removeInputs (.inl cleared) fewer⟩
  | addSpawned found =>
      have member := List.mem_append_right s.shared.pending (List.mem_of_getElem? found)
      exact ⟨held, ledger.add (ledger.entries _ member) fun _ => List.mem_of_mem_eraseIdx⟩
  | removeInput id => exact ⟨held, ledger.removeInputs (.inr rfl) (fewer_update_none _ id)⟩

/-- What the condition says of a check that passes. -/
theorem alone_of_passesAlone {i : Nat} {request : JobRequest}
    (allowed : passesAlone s (.request i .check) = true)
    (found : s.processes[i]? = some request) (absent : ¬ Listed s.shared.pending request.id) :
    (∀ other ∈ s.processes, other.id = request.id → other.point.inWindow = false) ∧
      ∀ job ∈ s.shared.adding, Job.id job ≠ request.id := by
  simp only [passesAlone, found, Bool.or_eq_true, List.any_eq_true, decide_eq_true_eq,
    Bool.and_eq_true, List.all_eq_true, Bool.not_eq_true', Bool.and_eq_false_iff,
    decide_eq_false_iff_not] at allowed
  rcases allowed with listed | ⟨alone, noneSpawned⟩
  · exact (absent listed).elim
  · exact ⟨fun other member same => (alone other member).resolve_left (absurd same), noneSpawned⟩

theorem of_requestStep (ledger : Ledger held s) (books : Books s.shared s.processes) {i : Nat}
    {request request' : JobRequest} {action : JobRequestAction} {queue : JobQueue}
    (found : s.processes[i]? = some request)
    (allowed : passesAlone s (.request i action) = true)
    (step : JobRequestStep i s.shared request action queue request') :
    ∃ held, Ledger held ⟨queue, s.processes.set i request'⟩ := by
  have ok := ledger.requests i request found
  cases step with
  | refuse _ => exact ⟨held, ledger.set ⟨nofun, nofun, nofun, nofun⟩⟩
  | check point absent =>
      obtain ⟨alone, noneSpawned⟩ := alone_of_passesAlone allowed found absent
      exact ⟨_, (ledger.hold absent alone noneSpawned).set
        ⟨fun _ _ => Function.update_self .., nofun, nofun, nofun⟩⟩
  | create point => exact ⟨held, ledger.create books found point⟩
  | fail _ =>
      have removed := ledger.removeInputs (.inr rfl) (fewer_update_none s.shared.uploads request.id)
      exact ⟨held, removed.set ⟨nofun, nofun, nofun, nofun⟩⟩
  | add point => exact ⟨held, ledger.enter books found point⟩
  | send point => exact ⟨held, ledger.send found point⟩
  | answer point =>
      refine ⟨held, ledger.set ⟨fun _ => ok.engaged ?_, fun _ => ok.added ?_,
        fun _ => ok.sent ?_, fun uploads _ => ok.input uploads ?_⟩⟩ <;> rw [point] <;> rfl

theorem of_jobStep {t : JobSystem} {action : JobAction}
    (kept : Books s.shared s.processes ∧ ∃ held, Ledger held s)
    (allowed : passesAlone s action = true) (moved : jobStep s action = some t) :
    Books t.shared t.processes ∧ ∃ held, Ledger held t := by
  obtain ⟨books, held, ledger⟩ := kept
  refine ⟨books.of_jobStep moved, ?_⟩
  cases action with
  | upload job =>
      cases moved
      exact ⟨held, ledger.spawn (.convert job)⟩
  | migrate job =>
      cases moved
      exact ⟨held, ledger.spawn (.migrate job)⟩
  | request i action =>
      obtain ⟨request, request', queue, found, stepped, rfl⟩ := act_eq_some moved
      exact ledger.of_requestStep books found allowed (jobRequestStep_cases stepped)
  | queue action =>
      obtain ⟨queue, stepped, rfl⟩ := Option.map_eq_some_iff.mp moved
      exact ledger.of_queueStep books (queueStep_cases stepped)

theorem start (isS3 : Bool) : Ledger (fun _ => none) (noJobs isS3) where
  requests := nofun
  entries := nofun
  clearing := nofun
  skipped := rfl

/-- What the ledger says of a job that was sent and has not ended. -/
theorem served (ledger : Ledger held s) (books : Books s.shared s.processes)
    {i : Nat} {request : JobRequest}
    (found : s.processes[i]? = some request) (sent : request.point.wasSent = true)
    (live : i ∉ s.shared.ended) : Served s.shared i request := by
  have ok := ledger.requests i request found
  have added := RequestPoint.wasAdded_of_wasSent sent
  have holds := ok.engaged (by rw [RequestPoint.engaged, added, Bool.or_true]) live
  have hasInput : request.point.hasInput = true := by
    cases point : request.point <;> first | rfl | (rw [point] at sent; cases sent)
  refine ⟨List.count_eq_one_of_mem books.owners (ok.sent sent live), ?_, ok.added added live,
    fun job member same => ?_, fun uploads => ok.input uploads hasInput live⟩
  · rw [ledger.skipped]
    exact List.not_mem_nil
  · exact ledger.entries job (List.mem_append_left _ member) i (same ▸ holds)

end Ledger

/-- **No accepted job is lost or doubled**, in every run whose requests pass the
check alone. -/
theorem accepted_served {isS3 : Bool} {s : JobSystem}
    (run : Run jobStep passesAlone (noJobs isS3) s) {i : Nat} {request : JobRequest}
    (found : s.processes[i]? = some request) (answered : request.point = .answered)
    (running : i ∉ s.shared.ended) : Served s.shared i request := by
  obtain ⟨books, held, ledger⟩ :=
    Run.invariant run ⟨Books.start isS3, _, Ledger.start isS3⟩ Ledger.of_jobStep
  exact ledger.served books found (by rw [answered]; rfl) running

/-- An upload and a migration of another video, the upload in progress. -/
def uploadAndMigrate : List JobAction :=
  [.upload (.new "a".toList 30 .new), .migrate (.new "b".toList "x".toList "y".toList []),
    .request 0 .check, .request 1 .check, .request 0 .create, .request 1 .add, .request 0 .add,
    .request 0 .send, .request 0 .answer, .request 1 .send, .queue .receive]

theorem accepted_served_upload :
    ∃ s request, exec jobStep passesAlone (noJobs false) uploadAndMigrate = some s ∧
      s.processes[0]? = some request ∧ Served s.shared 0 request :=
  ⟨_, _, rfl, rfl, accepted_served
    (@run_of_exec _ _ jobStep passesAlone (noJobs false) _ uploadAndMigrate rfl) rfl rfl nofun⟩

/-- Two uploads of one id that both pass the check: the second truncates the
input file, replaces the pending entry of the first, and its own job is skipped
as in progress. Both are answered with 202. -/
theorem two_uploads_of_one_id :
    ∃ s first second, exec jobStep anything (noJobs false)
        [.upload (.new "a".toList 30 .new), .upload (.new "a".toList 40 .new),
          .request 0 .check, .request 1 .check, .request 0 .create, .request 0 .add,
          .request 0 .send, .request 0 .answer, .request 1 .create, .request 1 .add,
          .request 1 .send, .request 1 .answer, .queue .receive, .queue .receive] = some s ∧
      s.processes = [first, second] ∧ first.point = .answered ∧ second.point = .answered ∧
      s.shared.ended = [] ∧ s.shared.skipped = [1] ∧ s.shared.uploads first.id = some 1 ∧
      s.shared.pending.map QueuedJob.owner = [1] ∧
      ¬ Served s.shared 0 first ∧ ¬ Served s.shared 1 second := by
  refine ⟨_, _, _, rfl, rfl, rfl, rfl, rfl, rfl, rfl, rfl, fun served => ?_, fun served => ?_⟩
  · exact absurd (served.noOthersInput rfl 1 rfl) (by decide)
  · exact served.notSkipped (List.mem_singleton_self 1)

end VideoStorage.Jobs
