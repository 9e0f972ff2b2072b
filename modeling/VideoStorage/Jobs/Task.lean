import VideoStorage.Jobs.Handler

/-!
# Attempts of a job

`gen_task` runs a job once and says what follows: nothing, a next job, another
attempt, or the final failure.

The job handler does not see the type of a job. A `RawJob` hides it behind a
table of functions, a clone of it hides a clone, and every result that is handed
back is hidden once more. The retry counter of a job is a cell that all its
clones share. None of this changes what an attempt gives: an erased job behaves
as the job it hides, with the counter read from its cell (`genTask_read`).
-/

set_option autoImplicit false

namespace VideoStorage.Jobs

open RustStd

inductive JobResult (J : Type) where
  | done
  | next (job : J)
  | retry (job : J)
  | err (failure : FailureJob)
  deriving DecidableEq

def JobResult.map {J K : Type} (f : J → K) : JobResult J → JobResult K
  | done => done
  | next job => next (f job)
  | retry job => retry (f job)
  | err failure => err failure

/-! ## The jobs themselves -/

namespace RawJob

/-- `gen_task`, when `gen_job` has succeeded or failed. -/
def genTask (isS3 : Bool) (job : RawJob) (succeeds : Bool) : JobResult RawJob :=
  if succeeds then
    match job.nextJob isS3 with
    | some next => .next next
    | none => .done
  else
    match Job.waitForRetry job with
    | some (_, again) => .retry again
    | none => .err (Job.onFinalFailure job)

/-- How often a job is tried again, when that is bounded. -/
def retriesLeft : RawJob → Option Nat
  | .convert job => some (5 - job.retryTimes.toNat)
  | .upload _ => none
  | .migrate job => some (MigrateJob.maxRetries.toNat - job.retryTimes.toNat)

/-- The two jobs differ in their retry counters only. -/
structure SameButRetries (again job : RawJob) : Prop where
  kind : Job.kind again = Job.kind job
  id : Job.id again = Job.id job
  needPermit : Job.needPermit again = Job.needPermit job
  onFinalFailure : Job.onFinalFailure again = Job.onFinalFailure job
  nextJob : ∀ isS3, again.nextJob isS3 = job.nextJob isS3

theorem SameButRetries.refl (job : RawJob) : job.SameButRetries job :=
  ⟨rfl, rfl, rfl, rfl, fun _ => rfl⟩

theorem SameButRetries.trans {first second third : RawJob} (left : first.SameButRetries second)
    (right : second.SameButRetries third) : first.SameButRetries third :=
  ⟨left.kind.trans right.kind, left.id.trans right.id, left.needPermit.trans right.needPermit,
    left.onFinalFailure.trans right.onFinalFailure,
    fun isS3 => (left.nextJob isS3).trans (right.nextJob isS3)⟩

theorem toNat_succ_of_lt {counter limit : UInt8} (less : counter < limit) :
    (counter + 1).toNat = counter.toNat + 1 := by
  have bound := UInt8.lt_iff_toNat_lt.mp less
  have top := limit.toNat_lt
  rw [UInt8.toNat_add]
  exact Nat.mod_eq_of_lt (Nat.lt_of_le_of_lt bound top)

/-- A job without retries left is not tried again. -/
theorem waitForRetry_of_zero {job : RawJob} (left : job.retriesLeft = some 0) :
    Job.waitForRetry job = none := by
  cases job with
  | convert job =>
      have spent : ¬ job.retryTimes < 5 := fun less => by
        have bound := UInt8.lt_iff_toNat_lt.mp less
        have zero := Option.some.inj left
        have five : (5 : UInt8).toNat = 5 := rfl
        omega
      simp only [Job.waitForRetry, if_neg spent, Option.map_none]
  | upload job => cases left
  | migrate job =>
      have spent : ¬ job.retryTimes < MigrateJob.maxRetries := fun less => by
        have bound := UInt8.lt_iff_toNat_lt.mp less
        have zero := Option.some.inj left
        omega
      simp only [Job.waitForRetry, if_neg spent, Option.map_none]

/-- A job with retries left is tried again, with one less. -/
theorem waitForRetry_of_succ {job : RawJob} {n : Nat} (left : job.retriesLeft = some (n + 1)) :
    ∃ wait again, Job.waitForRetry job = some (wait, again) ∧ again.retriesLeft = some n ∧
      again.SameButRetries job := by
  cases job with
  | convert job =>
      have count := Option.some.inj left
      have less : job.retryTimes < 5 := by
        refine UInt8.lt_iff_toNat_lt.mpr ?_
        have five : (5 : UInt8).toNat = 5 := rfl
        omega
      refine ⟨15, .convert { job with retryTimes := job.retryTimes + 1 }, ?_, ?_,
        rfl, rfl, rfl, rfl, fun _ => rfl⟩
      · simp only [Job.waitForRetry, if_pos less, Option.map_some]
      · rw [retriesLeft, toNat_succ_of_lt less]
        exact congrArg some (by omega)
  | upload job => cases left
  | migrate job =>
      have count := Option.some.inj left
      have less : job.retryTimes < MigrateJob.maxRetries := UInt8.lt_iff_toNat_lt.mpr (by omega)
      refine ⟨30, .migrate { job with retryTimes := job.retryTimes + 1 }, ?_, ?_,
        rfl, rfl, rfl, rfl, fun _ => rfl⟩
      · simp only [Job.waitForRetry, if_pos less, Option.map_some]
      · rw [retriesLeft, toNat_succ_of_lt less]
        exact congrArg some (by omega)

/-- No job has more than five retries left, save one that is tried for ever. -/
theorem retriesLeft_le {job : RawJob} {n : Nat} (left : job.retriesLeft = some n) : n ≤ 5 := by
  cases job with
  | convert job => exact Option.some.inj left ▸ Nat.sub_le _ _
  | upload job => cases left
  | migrate job => exact Option.some.inj left ▸ Nat.sub_le _ _

theorem retriesLeft_eq_none {job : RawJob} : job.retriesLeft = none ↔ Job.kind job = .upload := by
  cases job with
  | convert job => exact iff_of_false nofun nofun
  | upload job => exact iff_of_true rfl rfl
  | migrate job => exact iff_of_false nofun nofun

end RawJob

/-! ## What the handler does with the result -/

/-- The job handler has the result of the job in progress at `i`. -/
def JobQueue.handle (queue : JobQueue) (i : Nat) (job : QueuedJob) :
    JobResult RawJob → JobQueue
  | .done =>
      { queue with
        inProgress := queue.inProgress.eraseIdx i
        handler := .removing (Job.id job)
        ended := queue.ended ++ [job.owner] }
  | .next next =>
      { queue with
        inProgress := queue.inProgress.eraseIdx i
        adding := queue.adding ++ [{ job with job := next }]
        channel := queue.channel ++ [{ job with job := next }] }
  | .retry again =>
      { queue with
        inProgress := queue.inProgress.eraseIdx i
        channel := queue.channel ++ [{ job with job := again }] }
  | .err failure =>
      { queue with
        inProgress := queue.inProgress.eraseIdx i
        handler := .failing failure
        ended := queue.ended ++ [job.owner] }

/-- The end of a task is an attempt whose result is handled. -/
theorem queueStep_complete {queue : JobQueue} {i : Nat} {job : QueuedJob}
    (waits : queue.handler = .waiting) (found : queue.inProgress[i]? = some job) (succeeds : Bool) :
    queueStep queue (.complete i succeeds) =
      some (queue.handle i job (job.job.genTask queue.isS3 succeeds)) := by
  obtain ⟨isS3, pending, channel, inProgress, adding, uploads, handler, ended, skipped⟩ := queue
  subst waits
  change inProgress[i]? = some job at found
  simp only [queueStep, found, RawJob.genTask]
  cases succeeds with
  | true =>
      simp only [if_true, QueuedJob.nextJob]
      cases job.job.nextJob isS3 <;> rfl
  | false =>
      have waited : Job.waitForRetry job =
          (Job.waitForRetry job.job).map fun next => (next.1, { job with job := next.2 }) :=
        rfl
      simp only [Bool.false_eq_true, if_false]
      rw [waited]
      cases Job.waitForRetry job.job <;> rfl

/-! ## The permits of a task -/

/-- The sizes of the semaphores for convert and migrate jobs. -/
structure PermitLimits where
  permits : Nat
  migratePermits : Nat

def PermitLimits.poolLimit (limits : PermitLimits) : JobKind → Nat
  | .upload => 1
  | .migrate => limits.migratePermits
  | .convert => limits.permits

/-- The permits a task acquires. More than fit in a `u32` are a panic: "permit
count must fit in u32". -/
def PermitLimits.acquire (limits : PermitLimits) (kind : JobKind) (needed : Nat) : Option UInt32 :=
  if min needed (limits.poolLimit kind) < UInt32.size then
    some (UInt32.ofNat (min needed (limits.poolLimit kind)))
  else none

/-- The permits of the job can be counted. -/
def PermitLimits.Fit (limits : PermitLimits) (job : RawJob) : Prop :=
  min (Job.needPermit job) (limits.poolLimit (Job.kind job)) < UInt32.size

instance (limits : PermitLimits) (job : RawJob) : Decidable (limits.Fit job) :=
  inferInstanceAs (Decidable (_ < _))

/-! ## Jobs in memory -/

/-- The retry counters in memory. -/
abbrev Counters := Nat → UInt8

/-- A job in memory, with the cell of its retry counter. The counter in the job
itself is not used. -/
structure SharedJob where
  job : RawJob
  cell : Nat

def RawJob.withRetryTimes (retryTimes : UInt8) : RawJob → RawJob
  | convert job => convert { job with retryTimes }
  | upload job => upload job
  | migrate job => migrate { job with retryTimes }

namespace SharedJob

/-- The job, with the counter as it is now. -/
def read (counters : Counters) (shared : SharedJob) : RawJob :=
  shared.job.withRetryTimes (counters shared.cell)

/-- `wait_for_retry` of the three kinds. -/
def waitForRetry (counters : Counters) (shared : SharedJob) : Option (Nat × Counters) :=
  let retryTimes := counters shared.cell
  let counted := Function.update counters shared.cell (retryTimes + 1)
  match shared.job with
  | .convert _ => if retryTimes < 5 then some (15, counted) else none
  | .upload _ => some (30, counters)
  | .migrate _ => if retryTimes < MigrateJob.maxRetries then some (30, counted) else none

theorem waitForRetry_read (counters : Counters) (shared : SharedJob) :
    Job.waitForRetry (shared.read counters) =
      (shared.waitForRetry counters).map fun (wait, counters) => (wait, shared.read counters) := by
  obtain ⟨job, cell⟩ := shared
  cases job with
  | convert job =>
      simp only [read, RawJob.withRetryTimes, waitForRetry, Job.waitForRetry]
      split
      · simp only [Option.map_some, Function.update_self]
      · rfl
  | upload job => rfl
  | migrate job =>
      simp only [read, RawJob.withRetryTimes, waitForRetry, Job.waitForRetry]
      split
      · simp only [Option.map_some, Function.update_self]
      · rfl

end SharedJob

/-! ## Erased jobs -/

/-- A job behind a table of functions: `RawJob::new` of a job whose type is known,
or of a job that is hidden already. -/
inductive ErasedJob where
  | new (job : SharedJob)
  | wrap (job : ErasedJob)

namespace ErasedJob

/-- The job that the functions of the table reach in the end. -/
def hidden : ErasedJob → SharedJob
  | new job => job
  | wrap job => job.hidden

/-- The job that is hidden, with the counter as it is now. -/
def read (counters : Counters) (job : ErasedJob) : RawJob := job.hidden.read counters

/-- `RawJob::clone`: a clone of the hidden job is hidden again. The cell of the
counter is shared. -/
def clone : ErasedJob → ErasedJob
  | new job => new job
  | wrap job => wrap job.clone

/-- `next_job`: a conversion hides the upload job itself, and every table on the
way hides it once more. -/
def nextJob (isS3 : Bool) : ErasedJob → Option ErasedJob
  | new job => (job.job.nextJob isS3).map fun next => wrap (new { job with job := next })
  | wrap job => (job.nextJob isS3).map wrap

@[simp] theorem clone_eq (job : ErasedJob) : job.clone = job := by
  induction job with
  | new job => rfl
  | wrap job ih => exact congrArg wrap ih

theorem nextJob_withRetryTimes (isS3 : Bool) (retryTimes : UInt8) (job : RawJob) :
    (job.withRetryTimes retryTimes).nextJob isS3 = job.nextJob isS3 := by
  cases job <;> rfl

/-- A next job has no counter. -/
theorem withRetryTimes_nextJob {isS3 : Bool} {job next : RawJob}
    (follows : job.nextJob isS3 = some next) (retryTimes : UInt8) :
    next.withRetryTimes retryTimes = next := by
  cases job with
  | convert job =>
      obtain ⟨upload, _, rfl⟩ := Option.map_eq_some_iff.mp follows
      rfl
  | upload job => cases follows
  | migrate job => cases follows

theorem nextJob_read (isS3 : Bool) (counters : Counters) (job : ErasedJob) :
    (job.nextJob isS3).map (read counters) = (job.read counters).nextJob isS3 := by
  induction job with
  | new job =>
      rw [nextJob, read, hidden, SharedJob.read, nextJob_withRetryTimes, Option.map_map]
      cases follows : job.job.nextJob isS3 with
      | none => rfl
      | some next => exact congrArg some (withRetryTimes_nextJob follows _)
  | wrap job ih =>
      rw [nextJob, Option.map_map]
      exact ih

/-! ## A task -/

/-- How the work of a task ends. A panic in a worker of the convert pool aborts
the process. -/
inductive JobOutcome where
  | returned (succeeds : Bool)
  | aborted
  deriving DecidableEq, Repr

/-- `gen_task`, with the counters after it. A task that panics has no result. -/
def genTask (limits : PermitLimits) (isS3 : Bool) (counters : Counters) (job : ErasedJob)
    (outcome : JobOutcome) : Option (Counters × JobResult ErasedJob) := do
  let again := job.clone
  let _permits ← limits.acquire (Job.kind (job.read counters)) (Job.needPermit (job.read counters))
  match outcome with
  | .aborted => none
  | .returned true =>
      match job.nextJob isS3 with
      | some next => some (counters, .next next)
      | none => some (counters, .done)
  | .returned false =>
      match job.hidden.waitForRetry counters with
      | some (_, counters) => some (counters, .retry again)
      | none => some (counters, .err (Job.onFinalFailure (job.read counters)))

/-- `JobResult::into_raw`. -/
def intoRaw (result : JobResult ErasedJob) : JobResult ErasedJob := result.map wrap

@[simp] theorem map_read_intoRaw (counters : Counters) (result : JobResult ErasedJob) :
    (intoRaw result).map (read counters) = result.map (read counters) := by
  cases result <;> rfl

theorem acquire_of_fit {limits : PermitLimits} {job : RawJob} (fit : limits.Fit job) :
    ∃ permits, limits.acquire (Job.kind job) (Job.needPermit job) = some permits :=
  ⟨_, if_pos fit⟩

theorem acquire_of_not_fit {limits : PermitLimits} {job : RawJob} (fit : ¬ limits.Fit job) :
    limits.acquire (Job.kind job) (Job.needPermit job) = none := if_neg fit

/-- **Type erasure is transparent**: a task of an erased job has the result of a
task of the job that is hidden, whatever hides it and whoever counted. -/
theorem genTask_read {limits : PermitLimits} (isS3 : Bool) (counters : Counters)
    (job : ErasedJob) (succeeds : Bool) (fit : limits.Fit (job.read counters)) :
    ∃ counters' result, genTask limits isS3 counters job (.returned succeeds) =
        some (counters', result) ∧
      result.map (read counters') = (job.read counters).genTask isS3 succeeds := by
  obtain ⟨permits, acquired⟩ := acquire_of_fit fit
  unfold genTask RawJob.genTask
  rw [acquired]
  cases succeeds with
  | true =>
      have next := nextJob_read isS3 counters job
      cases follows : job.nextJob isS3 with
      | none =>
          rw [follows] at next
          exact ⟨counters, .done, rfl, by simp [← next, JobResult.map]⟩
      | some job' =>
          rw [follows] at next
          exact ⟨counters, .next job', rfl, by simp [← next, JobResult.map]⟩
  | false =>
      have waited := SharedJob.waitForRetry_read counters job.hidden
      simp only [Bool.false_eq_true, if_false, clone_eq, Option.bind_eq_bind, Option.bind_some]
      cases retried : job.hidden.waitForRetry counters with
      | none =>
          rw [retried] at waited
          refine ⟨counters, .err (Job.onFinalFailure (job.read counters)), rfl, ?_⟩
          rw [read, waited]
          rfl
      | some retry =>
          obtain ⟨wait, counters'⟩ := retry
          rw [retried] at waited
          refine ⟨counters', .retry job, rfl, ?_⟩
          rw [read, waited]
          rfl

end ErasedJob

end VideoStorage.Jobs
