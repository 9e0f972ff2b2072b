import VideoStorage.Jobs.Task

/-!
# Retries

One job on its way through the channel and the job handler: it is received, its
task runs, and a failed attempt sends it back until its retries are used up. Then
it is taken from the pending set and the actions of its failure are executed.
Other tasks run between any two of these steps. No other task is of its id.

When every attempt fails, this ends after at most six attempts for a convert and
a migrate job. An upload job always waits for a retry, so its actions, with the
message "Upload job failed after all retries", are never executed
(`retriesEnd_iff`).
-/

set_option autoImplicit false

namespace VideoStorage.Jobs

open RustStd TransitionSystem

/-! ## The way of a job -/

/-- Where the job is. -/
inductive LoopPoint where
  /-- In the channel. -/
  | sent (job : ErasedJob)
  /-- In progress. -/
  | started (job : ErasedJob)
  | removing (id : Str)
  | failing (failure : FailureJob)
  | acting (actions : List Action)
  | ended
  /-- Its task has panicked. -/
  | down

/-- One job, and what it shares with other tasks. -/
structure JobLoop where
  counters : Counters
  pending : List RawJob
  point : LoopPoint
  /-- The attempts that were made. -/
  attempts : Nat
  /-- The final failures that were reported. -/
  failures : List FailureJob
  /-- The actions that were executed. -/
  executed : List Action

/-- A job that was accepted. -/
def JobLoop.accepted (counters : Counters) (pending : List RawJob) (job : ErasedJob) : JobLoop where
  counters := counters
  pending := pending
  point := .sent job
  attempts := 0
  failures := []
  executed := []

/-- A job of the id is pending. -/
def IsPending (pending : List RawJob) (id : Str) : Prop := ∃ job ∈ pending, Job.id job = id

theorem not_isPending_removeJob (pending : List RawJob) (id : Str) :
    ¬ IsPending (removeJob pending id) id := by
  rintro ⟨job, member, same⟩
  exact (mem_removeJob.mp member).2 same

/-- What other tasks do meanwhile. They do not reach the counter of the job, and
leave its id in the pending set or out of it. The addition of a next job to the
pending set is a task of its own, and one of them. -/
structure Others (cell : Nat) (id : Str) where
  counters : Counters → Counters
  pending : List RawJob → List RawJob
  counters_cell : ∀ before, counters before cell = before cell
  isPending_pending : ∀ before, IsPending (pending before) id ↔ IsPending before id

/-- Nothing happens meanwhile. -/
def Others.none (cell : Nat) (id : Str) : Others cell id where
  counters := fun before => before
  pending := fun before => before
  counters_cell _ := rfl
  isPending_pending _ := Iff.rfl

/-- The loop after whatever other tasks have done. -/
def Others.apply {cell : Nat} {id : Str} (others : Others cell id) (loop : JobLoop) : JobLoop :=
  { loop with
    counters := others.counters loop.counters
    pending := others.pending loop.pending }

namespace JobLoop

/-- How the attempts go: by their number, and the kind of the job by then. -/
abbrev Outcomes := Nat → JobKind → ErasedJob.JobOutcome

/-- The next step of the job, or of the handler for it. -/
def proceed (limits : PermitLimits) (isS3 : Bool) (outcomes : Outcomes) (loop : JobLoop) : JobLoop :=
  match loop.point with
  | .sent job => { loop with point := .started job }
  | .started job =>
      let outcome := outcomes loop.attempts (Job.kind (job.read loop.counters))
      let loop := { loop with attempts := loop.attempts + 1 }
      match job.genTask limits isS3 loop.counters outcome with
      | none => { loop with point := .down }
      | some (counters, result) =>
          match ErasedJob.intoRaw result with
          | .done => { loop with counters, point := .removing (Job.id (job.read counters)) }
          | .next next => { loop with counters, point := .sent next }
          | .retry again => { loop with counters, point := .sent again }
          | .err failure =>
              { loop with
                counters
                point := .failing failure
                failures := loop.failures ++ [failure] }
  | .removing id => { loop with pending := removeJob loop.pending id, point := .ended }
  | .failing failure =>
      { loop with
        pending := removeJob loop.pending failure.jobId
        point := .acting failure.actions }
  | .acting [] => { loop with point := .ended }
  | .acting (action :: actions) =>
      { loop with executed := loop.executed ++ [action], point := .acting actions }
  | .ended | .down => loop

/-- A step of the job, after whatever other tasks have done. -/
def step (limits : PermitLimits) (isS3 : Bool) (outcomes : Outcomes) (cell : Nat) (id : Str) :
    TransitionSystem JobLoop (Others cell id)
  | loop, others => some (proceed limits isS3 outcomes (others.apply loop))

/-- The failure was reported and handled, once. -/
structure Failed (failure : FailureJob) (loop : JobLoop) : Prop where
  point : loop.point = .ended
  failures : loop.failures = [failure]
  executed : loop.executed = failure.actions
  removed : ¬ IsPending loop.pending failure.jobId

end JobLoop

open JobLoop

/-- The attempts of a job end, whatever other tasks do: with its final failure,
after at most six. -/
structure RetriesEnd (limits : PermitLimits) (isS3 : Bool) (outcomes : Outcomes)
    (counters : Counters) (pending : List RawJob) (job : ErasedJob) : Prop where
  ends : Inevitable
    (JobLoop.step limits isS3 outcomes job.hidden.cell (Job.id (job.read counters))) anything
    (Failed (Job.onFinalFailure (job.read counters))) (accepted counters pending job)
  bounded : ∀ {loop}, Reachable
    (JobLoop.step limits isS3 outcomes job.hidden.cell (Job.id (job.read counters)))
    (accepted counters pending job) loop →
    loop.attempts ≤ 6 ∧
      (loop.point = .ended → Failed (Job.onFinalFailure (job.read counters)) loop)

/-! ## A failed attempt -/

namespace ErasedJob

variable {limits : PermitLimits} {counters : Counters} {job : ErasedJob}

theorem genTask_of_not_fit (isS3 : Bool) (outcome : JobOutcome)
    (fit : ¬ limits.Fit (job.read counters)) :
    genTask limits isS3 counters job outcome = none := by
  unfold genTask
  rw [acquire_of_not_fit fit]
  rfl

theorem genTask_aborted (isS3 : Bool) : genTask limits isS3 counters job .aborted = none := by
  unfold genTask
  cases limits.acquire (Job.kind (job.read counters)) (Job.needPermit (job.read counters)) <;> rfl

/-- A failed attempt that is tried again. -/
theorem genTask_retry (isS3 : Bool) {counted : Counters} {wait : Nat}
    (fit : limits.Fit (job.read counters))
    (waited : job.hidden.waitForRetry counters = some (wait, counted)) :
    genTask limits isS3 counters job (.returned false) = some (counted, .retry job) := by
  obtain ⟨permits, acquired⟩ := acquire_of_fit fit
  unfold genTask
  rw [acquired, waited, clone_eq]
  rfl

/-- A failed attempt that is the last. -/
theorem genTask_err (isS3 : Bool) (fit : limits.Fit (job.read counters))
    (waited : job.hidden.waitForRetry counters = none) :
    genTask limits isS3 counters job (.returned false) =
      some (counters, .err (Job.onFinalFailure (job.read counters))) := by
  obtain ⟨permits, acquired⟩ := acquire_of_fit fit
  unfold genTask
  rw [acquired, waited]
  rfl

theorem waitForRetry_hidden_of_zero (left : (job.read counters).retriesLeft = some 0) :
    job.hidden.waitForRetry counters = none := by
  have waited := SharedJob.waitForRetry_read counters job.hidden
  rw [← read, RawJob.waitForRetry_of_zero left] at waited
  exact Option.map_eq_none_iff.mp waited.symm

theorem waitForRetry_hidden_of_succ {n : Nat}
    (left : (job.read counters).retriesLeft = some (n + 1)) :
    ∃ wait counted, job.hidden.waitForRetry counters = some (wait, counted) ∧
      (job.read counted).retriesLeft = some n ∧
      (job.read counted).SameButRetries (job.read counters) := by
  obtain ⟨wait, again, retried, less, same⟩ := RawJob.waitForRetry_of_succ left
  have waited := SharedJob.waitForRetry_read counters job.hidden
  rw [← read, retried] at waited
  obtain ⟨⟨wait', counted⟩, here, reads⟩ := Option.map_eq_some_iff.mp waited.symm
  cases reads
  exact ⟨wait, counted, here, less, same⟩

/-- Only the cell of its counter matters to a job. -/
theorem read_congr {counted : Counters}
    (same : counted job.hidden.cell = counters job.hidden.cell) :
    job.read counted = job.read counters :=
  congrArg (fun retryTimes => job.hidden.job.withRetryTimes retryTimes) same

end ErasedJob

theorem RawJob.SameButRetries.fit {again job : RawJob} (same : again.SameButRetries job)
    {limits : PermitLimits} : limits.Fit again ↔ limits.Fit job := by
  unfold PermitLimits.Fit
  rw [same.kind, same.needPermit]

theorem jobId_onFinalFailure (job : RawJob) : (Job.onFinalFailure job).jobId = Job.id job := by
  cases job <;> rfl

/-! ## A job with a bounded number of retries -/

/-- The job on its way is the original one but for the retries. What is left of
them and the attempts that were made give their total. -/
structure Retrying (original : RawJob) (cell total : Nat) (loop : JobLoop) (job : ErasedJob) :
    Prop where
  cell : job.hidden.cell = cell
  same : (job.read loop.counters).SameButRetries original
  left : ∃ left, (job.read loop.counters).retriesLeft = some left ∧ loop.attempts + left = total
  failures : loop.failures = []
  executed : loop.executed = []

/-- Where the way of a job that always fails can lead. -/
def FailsAlways (original : RawJob) (cell total : Nat) (loop : JobLoop) : Prop :=
  match loop.point with
  | .sent job | .started job => Retrying original cell total loop job
  | .failing failure =>
      failure = Job.onFinalFailure original ∧ loop.attempts ≤ total + 1 ∧ loop.failures = [failure] ∧
        loop.executed = []
  | .acting actions =>
      loop.attempts ≤ total + 1 ∧ loop.failures = [Job.onFinalFailure original] ∧
        loop.executed ++ actions = (Job.onFinalFailure original).actions ∧
        ¬ IsPending loop.pending (Job.id original)
  | .ended => loop.attempts ≤ total + 1 ∧ Failed (Job.onFinalFailure original) loop
  | .removing _ | .down => False

/-- The steps that are left at most. -/
def remaining (loop : JobLoop) : Nat :=
  match loop.point with
  | .sent job =>
      2 * (job.read loop.counters).retriesLeft.getD 0 + 4 +
        (Job.onFinalFailure (job.read loop.counters)).actions.length
  | .started job =>
      2 * (job.read loop.counters).retriesLeft.getD 0 + 3 +
        (Job.onFinalFailure (job.read loop.counters)).actions.length
  | .failing failure => failure.actions.length + 2
  | .acting actions => actions.length + 1
  | .removing _ | .ended | .down => 0

theorem Others.read_apply {cell : Nat} {id : Str} (others : Others cell id) (loop : JobLoop)
    {job : ErasedJob} (here : job.hidden.cell = cell) :
    job.read (others.apply loop).counters = job.read loop.counters := by
  refine ErasedJob.read_congr ?_
  rw [here]
  exact others.counters_cell loop.counters

theorem failsAlways_apply {original : RawJob} {cell total : Nat} {loop : JobLoop}
    (others : Others cell (Job.id original)) (fails : FailsAlways original cell total loop) :
    FailsAlways original cell total (others.apply loop) ∧
      remaining (others.apply loop) = remaining loop := by
  have removed : ¬ IsPending loop.pending (Job.id original) →
      ¬ IsPending (others.pending loop.pending) (Job.id original) :=
    mt (others.isPending_pending loop.pending).mp
  have retrying : ∀ {job : ErasedJob}, Retrying original cell total loop job →
      Retrying original cell total (others.apply loop) job := by
    rintro job ⟨here, same, left, failures, executed⟩
    have reads := others.read_apply loop here
    exact ⟨here, by rwa [reads], by rwa [reads], failures, executed⟩
  obtain ⟨counters, pending, point, attempts, failures, executed⟩ := loop
  cases point with
  | sent job =>
      refine ⟨retrying fails, ?_⟩
      have reads := others.read_apply ⟨counters, pending, .sent job, attempts, failures, executed⟩
        fails.cell
      simp only [remaining, Others.apply] at reads ⊢
      rw [reads]
  | started job =>
      refine ⟨retrying fails, ?_⟩
      have reads := others.read_apply
        ⟨counters, pending, .started job, attempts, failures, executed⟩ fails.cell
      simp only [remaining, Others.apply] at reads ⊢
      rw [reads]
  | failing failure => exact ⟨fails, rfl⟩
  | acting actions =>
      obtain ⟨few, reported, done, gone⟩ := fails
      exact ⟨⟨few, reported, done, removed gone⟩, rfl⟩
  | ended =>
      obtain ⟨few, -, reported, done, gone⟩ := fails
      rw [jobId_onFinalFailure] at gone
      refine ⟨⟨few, rfl, reported, done, ?_⟩, rfl⟩
      rw [jobId_onFinalFailure]
      exact removed gone
  | removing id => exact fails.elim
  | down => exact fails.elim

/-- The job that is sent back after a failed attempt. -/
theorem Retrying.again {original : RawJob} {cell total left : Nat} {loop : JobLoop}
    {job : ErasedJob} {counted : Counters} (retrying : Retrying original cell total loop job)
    (less : (job.read counted).retriesLeft = some left)
    (same : (job.read counted).SameButRetries (job.read loop.counters))
    (sum : loop.attempts + (left + 1) = total) :
    Retrying original cell total
      { loop with counters := counted, point := .sent job.wrap, attempts := loop.attempts + 1 }
      job.wrap where
  cell := retrying.cell
  same := same.trans retrying.same
  left := ⟨left, less, by rw [← sum, Nat.add_assoc, Nat.add_comm 1 left]⟩
  failures := retrying.failures
  executed := retrying.executed

/-- An attempt that fails while there are retries left sends the job back. -/
theorem proceed_retry {limits : PermitLimits} (isS3 : Bool) {outcomes : Outcomes}
    {original : RawJob} {cell total left : Nat} {loop : JobLoop} {job : ErasedJob}
    (fit : limits.Fit original) (point : loop.point = .started job)
    (retrying : Retrying original cell total loop job)
    (count : (job.read loop.counters).retriesLeft = some (left + 1))
    (fail : outcomes loop.attempts (Job.kind original) = .returned false) :
    ∃ counted, proceed limits isS3 outcomes loop =
        { loop with counters := counted, point := .sent job.wrap, attempts := loop.attempts + 1 } ∧
      (job.read counted).retriesLeft = some left ∧
      (job.read counted).SameButRetries (job.read loop.counters) := by
  obtain ⟨wait, counted, waited, less, again⟩ := ErasedJob.waitForRetry_hidden_of_succ count
  have attempt := ErasedJob.genTask_retry isS3 (retrying.same.fit.mpr fit) waited
  refine ⟨counted, ?_, less, again⟩
  rw [← retrying.same.kind] at fail
  simp only [proceed, point, fail, attempt, ErasedJob.intoRaw, JobResult.map]

/-- An attempt that fails when there are no retries left is the final failure. -/
theorem proceed_err {limits : PermitLimits} (isS3 : Bool) {outcomes : Outcomes}
    {original : RawJob} {cell total : Nat} {loop : JobLoop} {job : ErasedJob}
    (fit : limits.Fit original) (point : loop.point = .started job)
    (retrying : Retrying original cell total loop job)
    (count : (job.read loop.counters).retriesLeft = some 0)
    (fail : outcomes loop.attempts (Job.kind original) = .returned false) :
    proceed limits isS3 outcomes loop =
      { loop with
        point := .failing (Job.onFinalFailure original)
        attempts := loop.attempts + 1
        failures := [Job.onFinalFailure original] } := by
  have attempt := ErasedJob.genTask_err isS3 (retrying.same.fit.mpr fit)
    (ErasedJob.waitForRetry_hidden_of_zero count)
  rw [← retrying.same.kind] at fail
  simp only [proceed, point, fail, attempt, ErasedJob.intoRaw, JobResult.map,
    retrying.same.onFinalFailure, retrying.failures, List.nil_append]

/-- An attempt that fails is followed by another one, or by the final failure. -/
theorem failsAlways_attempt {limits : PermitLimits} (isS3 : Bool) {outcomes : Outcomes}
    {original : RawJob} {cell total : Nat} {loop : JobLoop} {job : ErasedJob}
    (fit : limits.Fit original)
    (fail : ∀ n ≤ total, outcomes n (Job.kind original) = .returned false)
    (point : loop.point = .started job) (fails : Retrying original cell total loop job) :
    FailsAlways original cell total (proceed limits isS3 outcomes loop) ∧
      remaining (proceed limits isS3 outcomes loop) < remaining loop := by
  obtain ⟨left, count, sum⟩ := fails.left
  obtain ⟨counters, pending, here, attempts, failures, executed⟩ := loop
  cases point
  change (job.read counters).retriesLeft = some left at count
  change attempts + left = total at sum
  cases left with
  | zero =>
      rw [proceed_err isS3 fit rfl fails count (fail attempts (by omega))]
      have same : Job.onFinalFailure (job.read counters) = Job.onFinalFailure original :=
        fails.same.onFinalFailure
      have few : attempts + 1 ≤ total + 1 := by omega
      refine ⟨⟨rfl, few, rfl, fails.executed⟩, ?_⟩
      simp only [remaining]
      rw [same]
      omega
  | succ left =>
      obtain ⟨counted, proceeds, less, again⟩ := proceed_retry isS3 fit rfl fails count
        (fail attempts (by omega))
      rw [proceeds]
      refine ⟨fails.again less again sum, ?_⟩
      have hidden : (ErasedJob.wrap job).read counted = job.read counted := rfl
      have same : (job.read counted).SameButRetries (job.read counters) := again
      simp only [remaining]
      rw [hidden, less, count, same.onFinalFailure, Option.getD_some, Option.getD_some]
      omega

/-- A step of a job that always fails leads on, and nearer to the end. -/
theorem failsAlways_proceed {limits : PermitLimits} (isS3 : Bool) {outcomes : Outcomes}
    {original : RawJob} {cell total : Nat} {loop : JobLoop} (fit : limits.Fit original)
    (fail : ∀ n ≤ total, outcomes n (Job.kind original) = .returned false)
    (fails : FailsAlways original cell total loop) :
    FailsAlways original cell total (proceed limits isS3 outcomes loop) ∧
      (loop.point ≠ .ended →
        remaining (proceed limits isS3 outcomes loop) < remaining loop) := by
  obtain ⟨counters, pending, point, attempts, failures, executed⟩ := loop
  cases point with
  | sent job =>
      obtain ⟨here, same, left, unreported, idle⟩ := fails
      refine ⟨⟨here, same, left, unreported, idle⟩, fun _ => ?_⟩
      simp only [remaining, proceed]
      omega
  | started job =>
      obtain ⟨kept, nearer⟩ := failsAlways_attempt isS3 fit fail rfl fails
      exact ⟨kept, fun _ => nearer⟩
  | failing failure =>
      obtain ⟨rfl, few, reported, idle⟩ := fails
      change executed = [] at idle
      refine ⟨⟨few, reported, ?_, ?_⟩, fun _ => Nat.lt_succ_self _⟩
      · change executed ++ _ = _
        rw [idle, List.nil_append]
      · change ¬ IsPending (removeJob pending (Job.onFinalFailure original).jobId) _
        rw [jobId_onFinalFailure]
        exact not_isPending_removeJob pending _
  | acting actions =>
      obtain ⟨few, reported, done, gone⟩ := fails
      change executed ++ actions = _ at done
      cases actions with
      | nil =>
          refine ⟨⟨few, rfl, reported, ?_, ?_⟩, fun _ => Nat.zero_lt_succ _⟩
          · rwa [List.append_nil] at done
          · rwa [jobId_onFinalFailure]
      | cons action actions =>
          refine ⟨⟨few, reported, ?_, gone⟩, fun _ => Nat.lt_succ_self _⟩
          change executed ++ [action] ++ actions = _
          rw [← done, List.append_assoc]
          rfl
  | ended => exact ⟨fails, fun unfinished => absurd rfl unfinished⟩
  | removing id => exact fails.elim
  | down => exact fails.elim

/-- A job with a bounded number of retries that fits and always fails. -/
theorem retriesEnd_of_fails {limits : PermitLimits} {isS3 : Bool} {outcomes : Outcomes}
    {counters : Counters} {job : ErasedJob} {total : Nat} (pending : List RawJob)
    (count : (job.read counters).retriesLeft = some total) (fit : limits.Fit (job.read counters))
    (fail : ∀ n ≤ total, outcomes n (Job.kind (job.read counters)) = .returned false) :
    RetriesEnd limits isS3 outcomes counters pending job := by
  have few := RawJob.retriesLeft_le count
  have start : FailsAlways (job.read counters) job.hidden.cell total
      (accepted counters pending job) :=
    ⟨rfl, .refl _, ⟨total, count, Nat.zero_add total⟩, rfl, rfl⟩
  have finished : ∀ {loop : JobLoop}, loop.point = .ended →
      FailsAlways (job.read counters) job.hidden.cell total loop →
      Failed (Job.onFinalFailure (job.read counters)) loop := by
    intro loop here fails
    unfold FailsAlways at fails
    rw [here] at fails
    exact fails.2
  have steps : ∀ {loop next : JobLoop}
        {others : Others job.hidden.cell (Job.id (job.read counters))},
      FailsAlways (job.read counters) job.hidden.cell total loop →
      JobLoop.step limits isS3 outcomes _ _ loop others = some next →
      FailsAlways (job.read counters) job.hidden.cell total next ∧
        (loop.point ≠ .ended → remaining next < remaining loop) := by
    intro loop next others fails moved
    cases moved
    obtain ⟨kept, same⟩ := failsAlways_apply others fails
    rw [← same]
    exact failsAlways_proceed isS3 fit fail kept
  refine ⟨?_, fun run => ?_⟩
  · refine Inevitable.of_measure remaining (fun _ _ => ⟨_, Others.none _ _, rfl, rfl⟩) ?_ start
    rintro loop next fails unfinished ⟨others, -, moved⟩
    obtain ⟨leads, nearer⟩ := steps fails moved
    exact ⟨leads, nearer fun here => unfinished (finished here fails)⟩
  · have fails : FailsAlways (job.read counters) job.hidden.cell total _ :=
      Run.invariant run start fun fails _ moved => (steps fails moved).1
    refine ⟨?_, fun here => finished here fails⟩
    unfold FailsAlways at fails
    split at fails
    · obtain ⟨left, -, sum⟩ := fails.left
      omega
    · obtain ⟨left, -, sum⟩ := fails.left
      omega
    · have made := fails.2.1
      omega
    · have made := fails.1
      omega
    · have made := fails.1
      omega
    · exact fails.elim
    · exact fails.elim

/-! ## A job that goes on for ever, or not at all -/

/-- An upload job that fails is always sent back, and the task of a job that does
not fit panics. -/
def NeverEnds (limits : PermitLimits) (original : RawJob) (cell : Nat) (loop : JobLoop) : Prop :=
  match loop.point with
  | .sent job | .started job =>
      job.hidden.cell = cell ∧ job.read loop.counters = original ∧
        (limits.Fit original → Job.kind original = .upload)
  | .down => True
  | _ => False

theorem neverEnds_apply {limits : PermitLimits} {original : RawJob} {cell : Nat} {loop : JobLoop}
    (others : Others cell (Job.id original)) (never : NeverEnds limits original cell loop) :
    NeverEnds limits original cell (others.apply loop) := by
  have reads : ∀ {job : ErasedJob}, job.hidden.cell = cell →
      job.read (others.apply loop).counters = job.read loop.counters := others.read_apply loop
  obtain ⟨counters, pending, point, attempts, failures, executed⟩ := loop
  cases point with
  | sent job =>
      obtain ⟨here, same, upload⟩ := never
      exact ⟨here, (reads here).trans same, upload⟩
  | started job =>
      obtain ⟨here, same, upload⟩ := never
      exact ⟨here, (reads here).trans same, upload⟩
  | down => trivial
  | removing id => exact never.elim
  | failing failure => exact never.elim
  | acting actions => exact never.elim
  | ended => exact never.elim

/-- The counters stay as they are when an upload job waits. -/
theorem waitForRetry_hidden_of_upload {counters : Counters} {job : ErasedJob}
    (upload : Job.kind (job.read counters) = .upload) :
    job.hidden.waitForRetry counters = some (30, counters) := by
  unfold ErasedJob.read SharedJob.read at upload
  unfold SharedJob.waitForRetry
  cases hidden : job.hidden.job with
  | convert job =>
      rw [hidden] at upload
      cases upload
  | upload job => rfl
  | migrate job =>
      rw [hidden] at upload
      cases upload

theorem neverEnds_proceed {limits : PermitLimits} (isS3 : Bool) {outcomes : Outcomes}
    {original : RawJob} {cell : Nat} {loop : JobLoop}
    (fail : ∀ n, outcomes n (Job.kind original) = .returned false)
    (never : NeverEnds limits original cell loop) :
    NeverEnds limits original cell (proceed limits isS3 outcomes loop) := by
  obtain ⟨counters, pending, point, attempts, failures, executed⟩ := loop
  cases point with
  | sent job => exact never
  | started job =>
      obtain ⟨here, same, upload⟩ := never
      change job.read counters = original at same
      subst same
      by_cases fit : limits.Fit (job.read counters)
      · have waited := waitForRetry_hidden_of_upload (upload fit)
        have attempt := ErasedJob.genTask_retry isS3 fit waited
        simp only [proceed, fail, attempt, ErasedJob.intoRaw, JobResult.map]
        exact ⟨here, rfl, upload⟩
      · have attempt := ErasedJob.genTask_of_not_fit isS3 (.returned false) fit
        simp only [proceed, fail, attempt]
        trivial
  | down => trivial
  | removing id => exact never.elim
  | failing failure => exact never.elim
  | acting actions => exact never.elim
  | ended => exact never.elim

theorem not_retriesEnd {limits : PermitLimits} {isS3 : Bool} {outcomes : Outcomes}
    {counters : Counters} {pending : List RawJob} {job : ErasedJob}
    (upload : limits.Fit (job.read counters) → Job.kind (job.read counters) = .upload)
    (fail : ∀ n, outcomes n (Job.kind (job.read counters)) = .returned false) :
    ¬ RetriesEnd limits isS3 outcomes counters pending job := by
  intro retries
  have start : NeverEnds limits (job.read counters) job.hidden.cell
      (accepted counters pending job) := ⟨rfl, rfl, upload⟩
  refine Inevitable.not_of_avoidable (fun never => ⟨?_, ?_⟩) start retries.ends
  · intro failed
    unfold NeverEnds at never
    rw [failed.point] at never
    exact never
  · exact ⟨_, ⟨Others.none _ _, rfl, rfl⟩, neverEnds_proceed isS3 fail (neverEnds_apply _ never)⟩

/-- **Which retries end**: those of the convert and migrate jobs whose permits can
be counted. -/
theorem retriesEnd_iff (limits : PermitLimits) (isS3 : Bool) (counters : Counters)
    (pending : List RawJob) (job : ErasedJob) :
    RetriesEnd limits isS3 (fun _ _ => .returned false) counters pending job ↔
      Job.kind (job.read counters) ≠ .upload ∧ limits.Fit (job.read counters) := by
  constructor
  · intro retries
    by_contra except
    refine not_retriesEnd (fun fit => ?_) (fun _ => rfl) retries
    by_contra bounded
    exact except ⟨bounded, fit⟩
  · rintro ⟨bounded, fit⟩
    obtain ⟨total, count⟩ :=
      Option.ne_none_iff_exists'.mp (mt RawJob.retriesLeft_eq_none.mp bounded)
    exact retriesEnd_of_fails pending count fit fun _ _ => rfl

/-- An upload job that was accepted and always fails. -/
theorem upload_is_tried_for_ever :
    ¬ RetriesEnd ⟨10, 1⟩ true (fun _ _ => .returned false) (fun _ => 0)
      [.upload ⟨"a".toList, none⟩] (.wrap (.new ⟨.upload ⟨"a".toList, none⟩, 0⟩)) :=
  not_retriesEnd (fun _ => rfl) fun _ => rfl

end VideoStorage.Jobs
