import VideoStorage.Library.Semaphore
import VideoStorage.Library.TransitionSystem
import VideoStorage.Jobs.Task

/-!
# The permits of the job handler

A task asks for permits of its kind before its work and holds them to its end, a
wait for a retry included. Uploads share one permit. A conversion asks for one
permit for each variant, and for all of them when it has more variants than there
are permits.

The semaphores are a parameter. When no more permits of a semaphore are held than
it has, the work that goes on at one time stays within the pools
(`permits_bounded`): one upload, no more migrations than configured, and
conversions with no more variants than permits, save one that is wider and then
runs alone. When a semaphore serves somebody while nobody holds its permits, no
task waits for ever (`permits_served`): none asks for more than its semaphore has.
-/

set_option autoImplicit false

namespace VideoStorage.Jobs

open TransitionSystem Concurrent Semaphore

variable {State : Type}

/-- `JobSemaphores`. -/
structure JobSemaphores (State : Type) where
  convert : State
  upload : State
  migrate : State

namespace JobSemaphores

/-- The semaphores `start_job_handler` makes. -/
def new (semaphore : Semaphore State) (limits : PermitLimits) : JobSemaphores State :=
  ⟨semaphore.new limits.permits, semaphore.new 1, semaphore.new limits.migratePermits⟩

def forKind (semaphores : JobSemaphores State) : JobKind → State
  | .upload => semaphores.upload
  | .migrate => semaphores.migrate
  | .convert => semaphores.convert

def withKind (semaphores : JobSemaphores State) (state : State) : JobKind → JobSemaphores State
  | .upload => { semaphores with upload := state }
  | .migrate => { semaphores with migrate := state }
  | .convert => { semaphores with convert := state }

theorem forKind_new (semaphore : Semaphore State) (limits : PermitLimits) (kind : JobKind) :
    (new semaphore limits).forKind kind = semaphore.new (limits.poolLimit kind) := by
  cases kind <;> rfl

@[simp] theorem forKind_withKind (semaphores : JobSemaphores State) (state : State)
    (kind : JobKind) : (semaphores.withKind state kind).forKind kind = state := by
  cases kind <;> rfl

theorem forKind_withKind_of_ne (semaphores : JobSemaphores State) (state : State)
    {kind other : JobKind} (differ : other ≠ kind) :
    (semaphores.withKind state kind).forKind other = semaphores.forKind other := by
  cases kind <;> cases other <;> first | rfl | exact absurd rfl differ

end JobSemaphores

/-- The task of a job, and what it has of its permits. It runs while it holds them. -/
structure PermitTask where
  job : RawJob
  claim : PermitClaim

/-- The semaphores, and the tasks since the start. -/
abbrev PermitSystem (State : Type) := Concurrent (JobSemaphores State) PermitTask

inductive PermitAction where
  /-- The task of a job begins. -/
  | start (job : RawJob)
  /-- A task that waits is given its permits. -/
  | grant (i : Nat)
  /-- A task that holds permits is at its end. -/
  | finish (i : Nat)

/-- A task is in another phase, and the semaphore of its kind in another state. -/
def PermitSystem.move (s : PermitSystem State) (i : Nat) (task : PermitTask) (state : State)
    (phase : ClaimPhase) : PermitSystem State :=
  ⟨s.shared.withKind state (Job.kind task.job),
    s.processes.set i ⟨task.job, task.claim.permits, phase⟩⟩

/-- What `gen_task` does with the semaphores. A task whose permits do not fit in a
`u32` panics. -/
def permitStep (semaphore : Semaphore State) (limits : PermitLimits) :
    TransitionSystem (PermitSystem State) PermitAction
  | s, .start job =>
      let kind := Job.kind job
      if 0 < Job.needPermit job then
        (limits.acquire kind (Job.needPermit job)).map fun permits =>
          ⟨s.shared.withKind
              (semaphore.ask (s.shared.forKind kind) s.processes.length permits.toNat) kind,
            s.processes ++ [⟨job, permits.toNat, .waiting⟩]⟩
      else some (s.spawn ⟨job, 0, .held⟩)
  | s, .grant i => do
      let task ← s.processes[i]?
      if task.claim.phase = .waiting then
        (semaphore.grant (s.shared.forKind (Job.kind task.job)) i).map fun state =>
          s.move i task state .held
      else none
  | s, .finish i => do
      let task ← s.processes[i]?
      if task.claim.phase = .held then
        some (s.move i task
          (semaphore.release (s.shared.forKind (Job.kind task.job)) task.claim.permits) .returned)
      else none

/-- No semaphore has been asked. -/
def noTasks (semaphore : Semaphore State) (limits : PermitLimits) : PermitSystem State :=
  ⟨.new semaphore limits, []⟩

/-- Tasks get their permits and end, and none begins. -/
def finishing (_ : PermitSystem State) : PermitAction → Bool
  | .start _ => false
  | .grant _ | .finish _ => true

/-! ## What a task asks for -/

/-- The permits of a task. -/
def PermitLimits.share (limits : PermitLimits) (job : RawJob) : Nat :=
  min (Job.needPermit job) (limits.poolLimit (Job.kind job))

theorem PermitLimits.acquire_eq_some {limits : PermitLimits} {job : RawJob} {permits : UInt32}
    (acquired : limits.acquire (Job.kind job) (Job.needPermit job) = some permits) :
    permits.toNat = limits.share job := by
  unfold PermitLimits.acquire at acquired
  split at acquired
  · rename_i fits
    cases acquired
    exact UInt32.toNat_ofNat_of_lt' fits
  · cases acquired

/-- Every task needs a permit. -/
theorem RawJob.needPermit_pos (job : RawJob) : 0 < Job.needPermit job := by
  cases job with
  | convert job =>
      have codecs := List.length_pos_of_ne_nil job.codecs.deref_ne_nil
      have scales := List.length_pos_of_ne_nil job.scales.deref_ne_nil
      exact Nat.lt_min.mpr ⟨Nat.mul_pos codecs scales, by decide⟩
  | upload job => exact Nat.one_pos
  | migrate job => exact Nat.one_pos

theorem PermitLimits.share_pos {limits : PermitLimits} {job : RawJob}
    (pool : 0 < limits.poolLimit (Job.kind job)) : 0 < limits.share job :=
  Nat.lt_min.mpr ⟨job.needPermit_pos, pool⟩

/-! ## Steps -/

/-- What one step does: a task asks for its share, it is given it, or it gives it
back. -/
inductive PermitStep (semaphore : Semaphore State) (limits : PermitLimits) (s : PermitSystem State) :
    PermitAction → PermitSystem State → Prop where
  | start (job : RawJob) :
      PermitStep semaphore limits s (.start job)
        ⟨s.shared.withKind (semaphore.ask (s.shared.forKind (Job.kind job)) s.processes.length
            (limits.share job)) (Job.kind job),
          s.processes ++ [⟨job, limits.share job, .waiting⟩]⟩
  | grant {i permits : Nat} {job : RawJob} {state : State}
      (found : s.processes[i]? = some ⟨job, permits, .waiting⟩)
      (granted : semaphore.grant (s.shared.forKind (Job.kind job)) i = some state) :
      PermitStep semaphore limits s (.grant i) (s.move i ⟨job, permits, .waiting⟩ state .held)
  | finish {i permits : Nat} {job : RawJob} (found : s.processes[i]? = some ⟨job, permits, .held⟩) :
      PermitStep semaphore limits s (.finish i) (s.move i ⟨job, permits, .held⟩
        (semaphore.release (s.shared.forKind (Job.kind job)) permits) .returned)

theorem permitStep_cases {semaphore : Semaphore State} {limits : PermitLimits}
    {s t : PermitSystem State} {action : PermitAction}
    (moved : permitStep semaphore limits s action = some t) :
    PermitStep semaphore limits s action t := by
  cases action with
  | start job =>
      simp only [permitStep, if_pos job.needPermit_pos] at moved
      obtain ⟨permits, acquired, rfl⟩ := Option.map_eq_some_iff.mp moved
      rw [PermitLimits.acquire_eq_some acquired]
      exact .start job
  | grant i =>
      obtain ⟨⟨job, permits, phase⟩, found, rest⟩ := Option.bind_eq_some_iff.mp moved
      dsimp only at rest
      split at rest
      · rename_i waits
        subst waits
        obtain ⟨state, granted, rfl⟩ := Option.map_eq_some_iff.mp rest
        exact .grant found granted
      · cases rest
  | finish i =>
      obtain ⟨⟨job, permits, phase⟩, found, rest⟩ := Option.bind_eq_some_iff.mp moved
      dsimp only at rest
      split at rest
      · rename_i holds
        subst holds
        cases rest
        exact .finish found
      · cases rest

/-- What a task claims of the semaphore of a kind. -/
def PermitTask.claimOf (kind : JobKind) (task : PermitTask) : PermitClaim :=
  if Job.kind task.job = kind then task.claim else ⟨0, .returned⟩

/-- The claims on the semaphore of a kind. -/
def PermitSystem.claims (s : PermitSystem State) (kind : JobKind) : List PermitClaim :=
  s.processes.map (PermitTask.claimOf kind)

/-- Each semaphore is used by the tasks of its kind, each for its share. -/
structure PermitsKept (semaphore : Semaphore State) (limits : PermitLimits)
    (s : PermitSystem State) : Prop where
  used : ∀ kind, semaphore.Used (limits.poolLimit kind) (s.shared.forKind kind)
    (PermitSystem.claims s kind)
  shares : ∀ task ∈ s.processes, task.claim.permits = limits.share task.job

namespace PermitsKept

variable {semaphore : Semaphore State} {limits : PermitLimits} {s t : PermitSystem State}

theorem start (semaphore : Semaphore State) (limits : PermitLimits) :
    PermitsKept semaphore limits (noTasks semaphore limits) where
  used kind := by
    rw [noTasks, JobSemaphores.forKind_new]
    exact .new
  shares := nofun

/-- A task moves on, and its semaphore with it. -/
theorem move (kept : PermitsKept semaphore limits s) {i permits : Nat} {job : RawJob}
    {phase next : ClaimPhase} {state : State}
    (found : s.processes[i]? = some ⟨job, permits, phase⟩)
    (used : semaphore.Used (limits.poolLimit (Job.kind job)) state
      ((PermitSystem.claims s (Job.kind job)).set i ⟨permits, next⟩)) :
    PermitsKept semaphore limits (s.move i ⟨job, permits, phase⟩ state next) where
  used kind := by
    rw [PermitSystem.claims, PermitSystem.move, List.map_set]
    by_cases same : kind = Job.kind job
    · subst same
      rw [JobSemaphores.forKind_withKind, PermitTask.claimOf, if_pos rfl]
      exact used
    · rw [JobSemaphores.forKind_withKind_of_ne _ _ same, PermitTask.claimOf,
        if_neg (Ne.symm same)]
      -- The claims on the other semaphores stay.
      have there : (PermitSystem.claims s kind)[i]? = some ⟨0, .returned⟩ := by
        rw [PermitSystem.claims, List.getElem?_map, found, Option.map_some, PermitTask.claimOf,
          if_neg (Ne.symm same)]
      obtain ⟨less, here⟩ := List.getElem?_eq_some_iff.mp there
      have stays := kept.used kind
      rwa [← List.set_getElem_self less, here] at stays
  shares := by
    have share := kept.shares _ (List.mem_of_getElem? found)
    exact forall_set kept.shares share

theorem of_permitStep {action : PermitAction} (kept : PermitsKept semaphore limits s)
    (moved : permitStep semaphore limits s action = some t) : PermitsKept semaphore limits t := by
  have claim : ∀ {i permits : Nat} {job : RawJob} {phase : ClaimPhase},
      s.processes[i]? = some ⟨job, permits, phase⟩ →
        (PermitSystem.claims s (Job.kind job))[i]? = some ⟨permits, phase⟩ := by
    intro i permits job phase found
    rw [PermitSystem.claims, List.getElem?_map, found, Option.map_some, PermitTask.claimOf,
      if_pos rfl]
  cases permitStep_cases moved with
  | start job =>
      refine ⟨fun kind => ?_, forall_spawn kept.shares rfl⟩
      rw [PermitSystem.claims, List.map_append, List.map_singleton]
      by_cases same : kind = Job.kind job
      · subst same
        rw [JobSemaphores.forKind_withKind, PermitTask.claimOf, if_pos rfl]
        have asked := (kept.used (Job.kind job)).ask (limits.share job)
        rwa [PermitSystem.claims, List.length_map] at asked
      · rw [JobSemaphores.forKind_withKind_of_ne _ _ same, PermitTask.claimOf,
          if_neg (Ne.symm same)]
        exact (kept.used kind).skip
  | grant found granted => exact kept.move found ((kept.used _).grant (claim found) granted)
  | finish found => exact kept.move found ((kept.used _).release (claim found))

theorem of_run (run : Reachable (permitStep semaphore limits) (noTasks semaphore limits) s) :
    PermitsKept semaphore limits s :=
  Run.invariant run (start semaphore limits) fun kept _ => kept.of_permitStep

end PermitsKept

/-! ## The work that goes on at one time -/

/-- A task of a kind that holds its permits. -/
def PermitTask.runs (kind : JobKind) (task : PermitTask) : Bool :=
  decide (Job.kind task.job = kind ∧ task.claim.phase = .held)

/-- The jobs of a kind whose tasks hold permits. -/
def PermitSystem.running (s : PermitSystem State) (kind : JobKind) : List RawJob :=
  (s.processes.filter (PermitTask.runs kind)).map PermitTask.job

/-- What runs stays within the pools. -/
structure PermitsBounded (limits : PermitLimits) (s : PermitSystem State) : Prop where
  shares : ∀ kind, total limits.share (PermitSystem.running s kind) ≤ limits.poolLimit kind
  tasks : ∀ kind, 0 < limits.poolLimit kind →
    (PermitSystem.running s kind).length ≤ limits.poolLimit kind
  /-- A conversion of as many variants as there are permits, or more, runs alone. -/
  wide : ∀ job ∈ PermitSystem.running s .convert, 0 < limits.permits →
    limits.permits ≤ Job.needPermit job → PermitSystem.running s .convert = [job]

/-- The shares of those that run are what is held of the semaphore. -/
theorem total_running {limits : PermitLimits} (kind : JobKind) {tasks : List PermitTask}
    (shares : ∀ task ∈ tasks, task.claim.permits = limits.share task.job) :
    total limits.share ((tasks.filter (PermitTask.runs kind)).map PermitTask.job) =
      total PermitClaim.holds (tasks.map (PermitTask.claimOf kind)) := by
  induction tasks with
  | nil => rfl
  | cons first rest ih =>
      have tail := ih fun task member => shares task (List.mem_cons_of_mem _ member)
      have here := shares first (List.mem_cons_self ..)
      rw [List.map_cons, total, ← tail]
      by_cases runs : Job.kind first.job = kind ∧ first.claim.phase = .held
      · have picked : first.runs kind = true := decide_eq_true runs
        rw [List.filter_cons_of_pos picked, List.map_cons, total, PermitTask.claimOf,
          if_pos runs.1, PermitClaim.holds, if_pos runs.2, here]
      · have none : (PermitTask.claimOf kind first).holds = 0 := by
          rw [PermitTask.claimOf, PermitClaim.holds]
          by_cases same : Job.kind first.job = kind
          · rw [if_pos same, if_neg fun held => runs ⟨same, held⟩]
          · rw [if_neg same]
            rfl
        rw [List.filter_cons_of_neg (by simpa [PermitTask.runs] using runs), none, Nat.zero_add]

theorem length_le_total {limits : PermitLimits} {jobs : List RawJob}
    (shares : ∀ job ∈ jobs, 0 < limits.share job) :
    jobs.length ≤ total limits.share jobs := by
  induction jobs with
  | nil => exact Nat.le_refl _
  | cons first rest ih =>
      have tail := ih fun job member => shares job (List.mem_cons_of_mem _ member)
      have here := shares first (List.mem_cons_self ..)
      change rest.length + 1 ≤ limits.share first + total _ _
      omega

/-- A job whose share is everything leaves nothing for another. -/
theorem eq_singleton_of_share {limits : PermitLimits} {size : Nat} {jobs : List RawJob}
    (shares : ∀ job ∈ jobs, 0 < limits.share job)
    (within : total limits.share jobs ≤ size) {job : RawJob} (member : job ∈ jobs)
    (all : limits.share job = size) : jobs = [job] := by
  obtain ⟨before, after, rfl⟩ := List.append_of_mem member
  rw [total_append] at within
  change _ + (limits.share job + total limits.share after) ≤ size at within
  have left : before.length ≤ total limits.share before := length_le_total
    fun other inside => shares other (List.mem_append_left _ inside)
  have right : after.length ≤ total limits.share after := length_le_total
    fun other inside => shares other (List.mem_append_right _ (List.mem_cons_of_mem _ inside))
  have none : before.length = 0 ∧ after.length = 0 := by omega
  rw [List.eq_nil_of_length_eq_zero none.1, List.eq_nil_of_length_eq_zero none.2]
  rfl

/-- **The pools are respected**: in every run the shares of the tasks of a kind that
run are no more than there are permits, so there are no more of these tasks either,
and a conversion that needs all permits runs alone. -/
theorem permits_bounded {semaphore : Semaphore State} (limited : semaphore.Limits)
    (limits : PermitLimits) {s : PermitSystem State}
    (run : Reachable (permitStep semaphore limits) (noTasks semaphore limits) s) :
    PermitsBounded limits s := by
  have kept := PermitsKept.of_run run
  have shares : ∀ kind,
      total limits.share (PermitSystem.running s kind) ≤ limits.poolLimit kind := by
    intro kind
    rw [PermitSystem.running, total_running kind kept.shares]
    exact limited (kept.used kind)
  have kinds : ∀ kind, ∀ job ∈ PermitSystem.running s kind, Job.kind job = kind := by
    intro kind job member
    obtain ⟨task, runs, rfl⟩ := List.mem_map.mp member
    exact (of_decide_eq_true (List.mem_filter.mp runs).2).1
  have positive : ∀ kind, 0 < limits.poolLimit kind →
      ∀ job ∈ PermitSystem.running s kind, 0 < limits.share job :=
    fun kind pool job member => PermitLimits.share_pos ((kinds kind job member).symm ▸ pool)
  refine ⟨shares, fun kind pool => ?_, fun job member pool needs => ?_⟩
  · exact (length_le_total (positive kind pool)).trans (shares kind)
  · refine eq_singleton_of_share (positive .convert pool) (shares .convert) member ?_
    rw [PermitLimits.share, kinds .convert job member]
    exact Nat.min_eq_right needs

/-- Three conversions of six variants each, of which two get the twelve permits, and
a wide one behind the third. -/
def narrowThenWide : List PermitAction :=
  let job : RawJob := .convert (.new "a".toList 30 .new)
  let wide : RawJob := .convert
    (.new "b".toList 30 ⟨(List.range 12).map fun i => ⟨UInt32.ofNat i, 1⟩⟩)
  [.start job, .start job, .start job, .start wide, .grant 0, .grant 1]

theorem permits_bounded_narrow :
    ∃ s, exec (permitStep fifo ⟨12, 1⟩) anything (noTasks fifo ⟨12, 1⟩) narrowThenWide = some s ∧
      (PermitSystem.running s .convert).length = 2 ∧ PermitsBounded ⟨12, 1⟩ s :=
  ⟨_, rfl, rfl, permits_bounded limits_fifo ⟨12, 1⟩
    (@run_of_exec _ _ (permitStep fifo ⟨12, 1⟩) anything _ _ narrowThenWide rfl)⟩

/-! ## Nobody waits for ever -/

/-- The steps a task has left: to get its permits, and to end. -/
def PermitTask.stepsLeft (task : PermitTask) : Nat :=
  match task.claim.phase with
  | .waiting => 2
  | .held => 1
  | .returned => 0

def PermitSystem.stepsLeft (s : PermitSystem State) : Nat :=
  total PermitTask.stepsLeft s.processes

def PermitTask.ended (task : PermitTask) : Prop := task.claim.phase = .returned

/-- When no more tasks begin, all of them end. -/
structure PermitsServed (semaphore : Semaphore State) (limits : PermitLimits)
    (s : PermitSystem State) : Prop where
  /-- Until all tasks have ended, one of them can take a step. -/
  goesOn : (∃ task ∈ s.processes, ¬ task.ended) →
    ∃ action t, finishing s action = true ∧ permitStep semaphore limits s action = some t
  /-- All tasks have ended after as many steps as they have left, whichever these are. -/
  ends : ∀ actions t, exec (permitStep semaphore limits) finishing s actions = some t →
    actions.length ≤ PermitSystem.stepsLeft s ∧
      (actions.length = PermitSystem.stepsLeft s ↔ ∀ task ∈ t.processes, task.ended)

theorem stepsLeft_eq_zero (s : PermitSystem State) :
    PermitSystem.stepsLeft s = 0 ↔ ∀ task ∈ s.processes, task.ended := by
  have single : ∀ task : PermitTask, task.stepsLeft = 0 ↔ task.ended := by
    intro task
    rw [PermitTask.stepsLeft, PermitTask.ended]
    cases task.claim.phase <;> decide
  refine ⟨fun none task member => ?_, fun ended => total_eq_zero fun task member =>
    (single task).mpr (ended task member)⟩
  have part : task.stepsLeft ≤ PermitSystem.stepsLeft s := le_total_of_mem _ member
  exact (single task).mp (Nat.le_zero.mp (none ▸ part))

/-- Every step of a task is one less. -/
theorem stepsLeft_permitStep {semaphore : Semaphore State} {limits : PermitLimits}
    {s t : PermitSystem State} {action : PermitAction} (allowed : finishing s action = true)
    (moved : permitStep semaphore limits s action = some t) :
    1 + PermitSystem.stepsLeft t = PermitSystem.stepsLeft s := by
  cases permitStep_cases moved with
  | start job => cases allowed
  | @grant i permits job state found granted =>
      have sum := @total_set_add _ PermitTask.stepsLeft _ _ _ found ⟨job, permits, .held⟩
      change total PermitTask.stepsLeft (s.processes.set i _) + 2 = _ + 1 at sum
      rw [PermitSystem.stepsLeft, PermitSystem.stepsLeft, PermitSystem.move]
      dsimp only
      omega
  | @finish i permits job found =>
      have sum := @total_set_add _ PermitTask.stepsLeft _ _ _ found ⟨job, permits, .returned⟩
      change total PermitTask.stepsLeft (s.processes.set i _) + 1 = _ + 0 at sum
      rw [PermitSystem.stepsLeft, PermitSystem.stepsLeft, PermitSystem.move]
      dsimp only
      omega

theorem length_add_stepsLeft {semaphore : Semaphore State} {limits : PermitLimits}
    {s t : PermitSystem State} {actions : List PermitAction}
    (ran : exec (permitStep semaphore limits) finishing s actions = some t) :
    actions.length + PermitSystem.stepsLeft t = PermitSystem.stepsLeft s := by
  induction actions generalizing s with
  | nil =>
      cases ran
      exact Nat.zero_add _
  | cons action more ih =>
      rw [exec] at ran
      split at ran
      · rename_i allowed
        obtain ⟨next, moved, rest⟩ := Option.bind_eq_some_iff.mp ran
        have first := stepsLeft_permitStep allowed moved
        have later := ih rest
        rw [List.length_cons]
        omega
      · cases ran

theorem PermitLimits.share_le (limits : PermitLimits) (job : RawJob) :
    limits.share job ≤ limits.poolLimit (Job.kind job) := Nat.min_le_right _ _

/-- Where no task runs, and one waits, one is served: no task has asked for more
permits than there are. -/
theorem grant_of_idle {semaphore : Semaphore State} (serves : semaphore.Serves)
    {limits : PermitLimits} {s : PermitSystem State} (kept : PermitsKept semaphore limits s)
    (idle : ∀ task ∈ s.processes, task.claim.phase ≠ .held) {task : PermitTask}
    (member : task ∈ s.processes) (waits : task.claim.phase = .waiting) :
    ∃ i t, permitStep semaphore limits s (.grant i) = some t := by
  have claims : ∀ claim ∈ PermitSystem.claims s (Job.kind task.job),
      claim.phase ≠ .held ∧ claim.permits ≤ limits.poolLimit (Job.kind task.job) := by
    intro claim listed
    obtain ⟨other, inside, rfl⟩ := List.mem_map.mp listed
    rw [PermitTask.claimOf]
    split
    · rename_i same
      refine ⟨idle other inside, ?_⟩
      rw [kept.shares other inside, ← same]
      exact limits.share_le other.job
    · exact ⟨by decide, Nat.zero_le _⟩
  have mine : task.claim ∈ PermitSystem.claims s (Job.kind task.job) := by
    refine List.mem_map.mpr ⟨task, member, ?_⟩
    rw [PermitTask.claimOf, if_pos rfl]
  obtain ⟨i, permits, next, there, granted⟩ := serves (kept.used _) claims ⟨_, mine, waits⟩
  rw [PermitSystem.claims, List.getElem?_map] at there
  obtain ⟨other, found, claim⟩ := Option.map_eq_some_iff.mp there
  rw [PermitTask.claimOf] at claim
  split at claim
  · rename_i same
    refine ⟨i, s.move i other next .held, ?_⟩
    have phase : other.claim.phase = .waiting := by rw [claim]
    rw [permitStep, Option.bind_eq_bind, found, Option.bind_some, if_pos phase, same, granted]
    rfl
  · cases claim

/-- **No task waits for ever**: from every state that is reached, when no more tasks
begin, a step is possible until all tasks have ended, and they have after two steps
for each that waits and one for each that runs. -/
theorem permits_served {semaphore : Semaphore State} (serves : semaphore.Serves)
    (limits : PermitLimits) {s : PermitSystem State}
    (run : Reachable (permitStep semaphore limits) (noTasks semaphore limits) s) :
    PermitsServed semaphore limits s := by
  have kept := PermitsKept.of_run run
  constructor
  · rintro ⟨task, member, going⟩
    by_cases runs : ∃ other ∈ s.processes, other.claim.phase = .held
    · obtain ⟨other, inside, held⟩ := runs
      obtain ⟨i, found⟩ := List.mem_iff_getElem?.mp inside
      refine ⟨.finish i, s.move i other
        (semaphore.release (s.shared.forKind (Job.kind other.job)) other.claim.permits) .returned,
        rfl, ?_⟩
      rw [permitStep, Option.bind_eq_bind, found, Option.bind_some, if_pos held]
    · have idle : ∀ other ∈ s.processes, other.claim.phase ≠ .held :=
        fun other inside held => runs ⟨other, inside, held⟩
      have waits : task.claim.phase = .waiting := by
        cases phase : task.claim.phase with
        | waiting => rfl
        | held => exact absurd phase (idle task member)
        | returned => exact absurd phase going
      obtain ⟨i, t, moved⟩ := grant_of_idle serves kept idle member waits
      exact ⟨.grant i, t, rfl, moved⟩
  · intro actions t ran
    have sum := length_add_stepsLeft ran
    rw [← stepsLeft_eq_zero]
    omega

theorem permits_served_narrow :
    ∃ s, exec (permitStep fifo ⟨12, 1⟩) anything (noTasks fifo ⟨12, 1⟩) narrowThenWide = some s ∧
      PermitSystem.stepsLeft s = 6 ∧ PermitsServed fifo ⟨12, 1⟩ s :=
  ⟨_, rfl, rfl, permits_served serves_fifo ⟨12, 1⟩
    (@run_of_exec _ _ (permitStep fifo ⟨12, 1⟩) anything _ _ narrowThenWide rfl)⟩

end VideoStorage.Jobs
