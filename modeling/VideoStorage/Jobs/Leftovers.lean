import VideoStorage.Library.Triples
import VideoStorage.Jobs.Conversion

/-!
# What a failed conversion leaves behind

An attempt begins by removing what an earlier one has left. It returns early when an operation
fails, and the removals that come later are skipped. After the last attempt nobody begins
another one: the final failure of a conversion removes the uploaded file alone.

So when the final failure has been handled, nothing is left if and only if the last attempt
has failed at its first file, and its removals and the one of the upload have succeeded
wherever there was something to remove (`nothingLeft_iff`). When it has come further, the
sanitized input or the temporary directory is left (`Attempt.nothing_left_iff`).
-/

set_option autoImplicit false

namespace VideoStorage.Jobs

open RustStd TransitionSystem ExceptState

/-! ## An attempt that fails -/

namespace Attempt

variable (attempt : Attempt) {P Q E : JobFiles → Prop} {operation : Operation}

theorem triple_ignored
    (done : attempt operation = true → ∀ files, P files → Q (operation.effect files))
    (skipped : attempt operation = false → ∀ files, P files → Q files) :
    Triple P (attempt.ignored operation) Q E :=
  .ite done skipped

theorem triple_propagated
    (done : attempt operation = true → ∀ files, P files → Q (operation.effect files))
    (failed : attempt operation = false → ∀ files, P files → E files) :
    Triple P (attempt.propagated operation) Q E :=
  .ite done failed

/-- The operation leaves what holds of the files. -/
def Keeps (P : JobFiles → Prop) (operation : Operation) : Prop :=
  ∀ files, P files → P (operation.effect files)

theorem Keeps.ignored (kept : Keeps P operation) : Triple P (attempt.ignored operation) P P :=
  attempt.triple_ignored (fun _ => kept) fun _ _ => id

theorem Keeps.propagated (kept : Keeps P operation) :
    Triple P (attempt.propagated operation) P P :=
  attempt.triple_propagated (fun _ => kept) fun _ _ => id

theorem Keeps.unwrapped (kept : Keeps P operation) : Triple P (attempt.unwrapped operation) P P :=
  .ite (fun _ => kept) fun _ _ => id

theorem keeps_prepare (kept : ∀ operation ∈ [Operation.removeSanitized, .removeTemp,
    .removeOutput, .createSanitized, .createTemp], Keeps P operation) :
    Triple P attempt.prepare P P :=
  ((kept .removeSanitized (by simp)).ignored attempt).andThen
    (((kept .removeTemp (by simp)).ignored attempt).andThen
      (((kept .removeOutput (by simp)).ignored attempt).andThen
        (((kept .createSanitized (by simp)).propagated attempt).andThen
          ((kept .createTemp (by simp)).propagated attempt))))

/-- What no operation up to the rename breaks holds where the rest of the attempt fails. -/
theorem keeps_blocking (kept : ∀ operation ∈ [Operation.remuxAvOnly, .removeRemuxed, .openCopy,
    .fillCopy, .getDurationUs, .findAudioStreamInfo, .convert, .createMaster, .writeMaster,
    .removeConverted], Keeps P operation) :
    Triple P attempt.runBlockingConvert (fun _ => True) P := by
  have sanitized : Triple P attempt.sanitize P P :=
    .ite (fun _ => kept .remuxAvOnly (by simp)) fun _ =>
      ((kept .removeRemuxed (by simp)).ignored attempt).andThen
        (((kept .openCopy (by simp)).propagated attempt).andThen
          ((kept .fillCopy (by simp)).propagated attempt))
  have created : Triple P attempt.createMasterPlaylist P P :=
    ((kept .getDurationUs (by simp)).unwrapped attempt).andThen
      (((kept .findAudioStreamInfo (by simp)).unwrapped attempt).andThen
        (((kept .convert (by simp)).propagated attempt).andThen
          (((kept .createMaster (by simp)).propagated attempt).andThen
            ((kept .writeMaster (by simp)).propagated attempt))))
  have renamed : Triple P (attempt.propagated .rename) (fun _ => True) P :=
    attempt.triple_propagated (fun _ _ _ => trivial) fun _ _ => id
  have removed : Triple (fun _ => True) (attempt.ignored .removeInput) (fun _ => True) P :=
    attempt.triple_ignored (fun _ _ _ => trivial) fun _ _ _ => trivial
  exact sanitized.andThen (created.andThen
    (((kept .removeConverted (by simp)).ignored attempt).andThen (renamed.andThen removed)))

/-- A failed attempt leaves the uploaded file as it is. -/
theorem input_of_error {files after : JobFiles} {failure : Failure}
    (failed : attempt.genJob.run files = (.error failure, after)) : after.input = files.input := by
  have prepared := attempt.keeps_prepare (P := fun now => now.input = files.input)
    (by simp [Keeps, Operation.effect])
  have blocking := attempt.keeps_blocking (P := fun now => now.input = files.input)
    (by simp [Keeps, Operation.effect])
  exact (prepared.andThen blocking).of_error rfl failed

/-- An attempt that has created its first file leaves it, or the temporary directory. -/
theorem left_of_error {files after : JobFiles} {failure : Failure}
    (created : attempt .createSanitized = true)
    (failed : attempt.genJob.run files = (.error failure, after)) :
    after.sanitized = true ∨ after.temp = true := by
  let Left (now : JobFiles) : Prop := now.sanitized = true ∨ now.temp = true
  have removal : ∀ operation,
      Triple (fun _ => True) (attempt.ignored operation) (fun _ => True) Left := fun operation =>
    attempt.triple_ignored (fun _ _ _ => trivial) fun _ _ _ => trivial
  have first : Triple (fun _ => True) (attempt.propagated .createSanitized)
      (fun now => now.sanitized = true) Left :=
    attempt.triple_propagated (fun _ _ _ => rfl) fun unmade =>
      absurd (unmade.symm.trans created) Bool.false_ne_true
  have second : Triple (fun now => now.sanitized = true) (attempt.propagated .createTemp)
      (fun now => now.temp = true) Left :=
    attempt.triple_propagated (fun _ _ _ => rfl) fun _ _ => .inl
  have blocking : Triple (fun now => now.temp = true) attempt.runBlockingConvert (fun _ => True)
      Left :=
    (attempt.keeps_blocking (by simp [Keeps, Operation.effect])).weaken fun _ => .inr
  have prepared : Triple (fun _ => True) attempt.prepare (fun now => now.temp = true) Left :=
    (removal .removeSanitized).andThen ((removal .removeTemp).andThen
      ((removal .removeOutput).andThen (first.andThen second)))
  exact (prepared.andThen blocking).of_error trivial failed

/-- An attempt that fails at its first file has done its removals. -/
theorem run_of_not_created (files : JobFiles) (unmade : attempt .createSanitized = false) :
    attempt.genJob.run files =
      (.error .error,
        { input := files.input
          sanitized := files.sanitized && !attempt .removeSanitized
          temp := files.temp && !attempt .removeTemp
          output := files.output && !attempt .removeOutput }) := by
  obtain ⟨input, sanitized, temp, output⟩ := files
  unfold genJob prepare ignored propagated
  rw [unmade]
  cases attempt .removeSanitized <;> cases attempt .removeTemp <;> cases attempt .removeOutput <;>
    cases sanitized <;> cases temp <;> cases output <;> rfl

/-- The attempt fails at its first file, and has removed what was there. -/
structure Clears (before : JobFiles) : Prop where
  unmade : attempt .createSanitized = false
  sanitized : before.sanitized = true → attempt .removeSanitized = true
  temp : before.temp = true → attempt .removeTemp = true
  output : before.output = true → attempt .removeOutput = true

theorem run_of_returned_false {attempt : Attempt} {files : JobFiles}
    (failed : attempt.outcome files = .returned false) :
    attempt.genJob.run files = (.error .error, (attempt.genJob.run files).2) := by
  refine Prod.ext ?_ rfl
  unfold outcome at failed
  cases ended : (attempt.genJob.run files).1 with
  | ok value =>
      rw [ended] at failed
      cases failed
  | error failure =>
      cases failure with
      | error => rfl
      | panic =>
          rw [ended] at failed
          cases failed

/-- Something is there after its removal exactly when the removal has failed. -/
theorem removed_eq_false {present removed : Bool} :
    (present && !removed) = false ↔ (present = true → removed = true) := by
  cases present <;> cases removed <;> decide

/-- **What a failed attempt leaves**: nothing but the upload, exactly when it fails at its
first file and could remove what was there. -/
theorem nothing_left_iff {attempt : Attempt} {before after : JobFiles} {failure : Failure}
    (failed : attempt.genJob.run before = (.error failure, after)) :
    (after.sanitized = false ∧ after.temp = false ∧ after.output = false) ↔
      attempt.Clears before := by
  cases made : attempt .createSanitized with
  | true =>
      have left := attempt.left_of_error made failed
      refine iff_of_false ?_ fun clears => Bool.false_ne_true (clears.unmade.symm.trans made)
      rintro ⟨sanitized, temp, -⟩
      rw [sanitized, temp] at left
      exact left.elim Bool.false_ne_true Bool.false_ne_true
  | false =>
      rw [attempt.run_of_not_created before made] at failed
      obtain ⟨-, rfl⟩ := Prod.ext_iff.mp failed
      simp only [removed_eq_false]
      exact ⟨fun ⟨sanitized, temp, output⟩ => ⟨made, sanitized, temp, output⟩,
        fun clears => ⟨clears.sanitized, clears.temp, clears.output⟩⟩

end Attempt

/-! ## A conversion and its files -/

/-- How everything goes that a conversion depends on. -/
structure Course where
  attempts : Nat → Attempt
  uploads : Nat → Bool
  /-- What an attempt at the upload does to the files. -/
  uploaded : Nat → JobFiles → JobFiles
  /-- The removal in `Action::Cleanup` succeeds. -/
  cleans : Bool

/-- `Action::execute_action`. -/
def Action.execute (kind : JobKind) (cleans : Bool) (files : JobFiles) : Action → JobFiles
  | .cleanup =>
      match kind with
      | .convert => if cleans then { files with input := false } else files
      | .upload => if cleans then { files with output := false } else files
      | .migrate => files
  | .silent | .webhook _ => files

theorem Action.execute_cleanup (cleans : Bool) (files : JobFiles) :
    Action.execute .convert cleans files .cleanup =
      { files with input := files.input && !cleans } := by
  obtain ⟨input, sanitized, temp, output⟩ := files
  cases cleans <;> cases input <;> rfl

/-- The files after an attempt at a job of the kind. -/
def Course.work (course : Course) (n : Nat) (files : JobFiles) : JobKind → JobFiles
  | .convert => ((course.attempts n).genJob.run files).2
  | .upload | .migrate => course.uploaded n files

/-- A conversion on its way, and its files. -/
structure ConversionRun where
  loop : JobLoop
  files : JobFiles

namespace ConversionRun

variable (limits : PermitLimits) (isS3 : Bool) (course : Course)

/-- The next step, and what it does to the files. A task whose permits cannot be counted does
not come to its attempt. -/
def proceed (run : ConversionRun) : ConversionRun where
  loop := run.loop.proceed limits isS3
    (conversionOutcomes course.attempts (fun _ => run.files) course.uploads)
  files :=
    match run.loop.point with
    | .started job =>
        if limits.Fit (job.read run.loop.counters) then
          course.work run.loop.attempts run.files (Job.kind (job.read run.loop.counters))
        else run.files
    | .acting (action :: _) =>
        match run.loop.failures.getLast? with
        | some failure => action.execute failure.kind course.cleans run.files
        | none => run.files
    | _ => run.files

/-- A step of the conversion, after whatever other tasks have done. -/
def step (cell : Nat) (id : Str) : TransitionSystem ConversionRun (Others cell id)
  | run, others => some (proceed limits isS3 course { run with loop := others.apply run.loop })

/-- A conversion that was accepted. -/
def accepted (counters : Counters) (pending : List RawJob) (job : ConvertJob) (cell : Nat)
    (files : JobFiles) : ConversionRun where
  loop := .accepted counters pending (.new ⟨.convert job, cell⟩)
  files := files

/-- Nothing of the job is left. -/
structure NothingLeft (id : Str) (run : ConversionRun) : Prop where
  input : run.files.input = false
  sanitized : run.files.sanitized = false
  temp : run.files.temp = false
  output : run.files.output = false
  pending : ¬ IsPending run.loop.pending id

end ConversionRun

/-- The files before an attempt, when those before it were attempts at the conversion. -/
def Course.filesBefore (course : Course) (files : JobFiles) : Nat → JobFiles
  | 0 => files
  | n + 1 => ((course.attempts n).genJob.run (course.filesBefore files n)).2

/-! ## Attempt after attempt -/

section

variable (course : Course) (files : JobFiles)

/-- An attempt at the conversion is an error. -/
def Course.Fails (n : Nat) : Prop :=
  (course.attempts n).outcome (course.filesBefore files n) = .returned false

/-- The attempts so far were errors, and have left these files. -/
structure Attempted (run : ConversionRun) : Prop where
  left : run.files = course.filesBefore files run.loop.attempts
  failed : ∀ n < run.loop.attempts, course.Fails files n

/-- All attempts were errors. The actions so far were executed on the files they have left. -/
structure Spent (total : Nat) (run : ConversionRun) : Prop where
  failed : ∀ n ≤ total, course.Fails files n
  left : run.files = run.loop.executed.foldl (Action.execute .convert course.cleans)
    (course.filesBefore files (total + 1))

/-- A conversion whose attempts were errors, or the upload after it. -/
structure OnItsWay (original : RawJob) (cell total : Nat) (run : ConversionRun)
    (job : ErasedJob) : Prop where
  own : job.hidden.cell = cell
  failures : run.loop.failures = []
  kind : Job.kind (job.read run.loop.counters) = .upload ∨
    Retrying original cell total run.loop job ∧ Attempted course files run

/-- Where the way of a conversion can lead. -/
def LeavesInv (original : RawJob) (cell total : Nat) (run : ConversionRun) : Prop :=
  match run.loop.point with
  | .sent job | .started job => OnItsWay course files original cell total run job
  | .removing _ | .down => run.loop.failures = []
  | .failing failure =>
      failure = Job.onFinalFailure original ∧ run.loop.failures = [failure] ∧
        run.loop.executed = [] ∧ Spent course files total run
  | .acting actions =>
      run.loop.failures = [Job.onFinalFailure original] ∧
        run.loop.executed ++ actions = (Job.onFinalFailure original).actions ∧
        ¬ IsPending run.loop.pending (Job.id original) ∧ Spent course files total run
  | .ended =>
      run.loop.failures = [] ∨ run.loop.executed = (Job.onFinalFailure original).actions ∧
        ¬ IsPending run.loop.pending (Job.id original) ∧ Spent course files total run

end

theorem leavesInv_apply {course : Course} {files : JobFiles} {original : RawJob} {cell total : Nat}
    {run : ConversionRun} (others : Others cell (Job.id original))
    (inv : LeavesInv course files original cell total run) :
    LeavesInv course files original cell total { run with loop := others.apply run.loop } := by
  have removed : ¬ IsPending run.loop.pending (Job.id original) →
      ¬ IsPending (others.pending run.loop.pending) (Job.id original) :=
    mt (others.isPending_pending run.loop.pending).mp
  have underWay : ∀ {job : ErasedJob}, OnItsWay course files original cell total run job →
      OnItsWay course files original cell total { run with loop := others.apply run.loop } job := by
    rintro job ⟨own, failures, kind⟩
    have reads := others.read_apply run.loop own
    refine ⟨own, failures, ?_⟩
    rcases kind with upload | ⟨⟨here, same, left, failures, executed⟩, attempted⟩
    · exact .inl (by rwa [reads])
    · exact .inr ⟨⟨here, by rwa [reads], by rwa [reads], failures, executed⟩,
        attempted.left, attempted.failed⟩
  obtain ⟨⟨counters, pending, point, attempts, failures, executed⟩, now⟩ := run
  cases point with
  | sent job => exact underWay inv
  | started job => exact underWay inv
  | removing id => exact inv
  | down => exact inv
  | failing failure =>
      obtain ⟨rfl, reported, idle, spent⟩ := inv
      exact ⟨rfl, reported, idle, spent.failed, spent.left⟩
  | acting actions =>
      obtain ⟨reported, done, gone, spent⟩ := inv
      exact ⟨reported, done, removed gone, spent.failed, spent.left⟩
  | ended =>
      rcases inv with unreported | ⟨done, gone, spent⟩
      · exact .inl unreported
      · exact .inr ⟨done, removed gone, spent.failed, spent.left⟩

/-- One more attempt is an error. -/
theorem Attempted.succ {course : Course} {files : JobFiles} {run : ConversionRun} {loop : JobLoop}
    (attempted : Attempted course files run) (fails : course.Fails files run.loop.attempts)
    (counted : loop.attempts = run.loop.attempts + 1) :
    Attempted course files ⟨loop, course.work run.loop.attempts run.files .convert⟩ where
  left := by
    change course.work run.loop.attempts run.files .convert =
      course.filesBefore files loop.attempts
    rw [attempted.left, counted]
    rfl
  failed := by
    intro n before
    rcases Nat.lt_succ_iff_lt_or_eq.mp (before.trans_eq counted) with earlier | rfl
    · exact attempted.failed n earlier
    · exact fails

/-- A failed attempt leads to another one, or to the final failure. -/
theorem leavesInv_failed {limits : PermitLimits} (isS3 : Bool) {course : Course}
    {files : JobFiles} {original : RawJob} {cell total : Nat} {run : ConversionRun}
    {job : ErasedJob} (convert : Job.kind original = .convert) (fit : limits.Fit original)
    (point : run.loop.point = .started job)
    (retrying : Retrying original cell total run.loop job)
    (attempted : Attempted course files run) (fails : course.Fails files run.loop.attempts) :
    LeavesInv course files original cell total (run.proceed limits isS3 course) := by
  have worked : (run.proceed limits isS3 course).files =
      course.work run.loop.attempts run.files .convert := by
    simp only [ConversionRun.proceed, point]
    rw [if_pos (retrying.same.fit.mpr fit), retrying.same.kind, convert]
  have outcome : conversionOutcomes course.attempts (fun _ => run.files) course.uploads
      run.loop.attempts (Job.kind original) = .returned false := by
    rw [convert, attempted.left]
    exact fails
  have both : run.proceed limits isS3 course = ⟨_, (run.proceed limits isS3 course).files⟩ := rfl
  obtain ⟨left, count, sum⟩ := retrying.left
  cases left with
  | zero =>
      have made : run.loop.attempts = total := sum
      have proceeds := proceed_err isS3 fit point retrying count outcome
      have next := attempted.succ fails (congrArg JobLoop.attempts proceeds)
      rw [proceeds] at next
      rw [both.trans (congrArg₂ ConversionRun.mk proceeds worked)]
      have failed : ∀ n ≤ total, course.Fails files n := fun n few =>
        next.failed n (Nat.lt_succ_of_le (made ▸ few))
      refine ⟨rfl, rfl, retrying.executed, failed, ?_⟩
      have left := next.left
      change course.work run.loop.attempts run.files .convert =
        course.filesBefore files (run.loop.attempts + 1) at left
      change course.work run.loop.attempts run.files .convert = run.loop.executed.foldl _ _
      rw [left, made, retrying.executed]
      rfl
  | succ left =>
      obtain ⟨counted, proceeds, less, again⟩ :=
        proceed_retry isS3 fit point retrying count outcome
      have next := attempted.succ fails (congrArg JobLoop.attempts proceeds)
      rw [proceeds] at next
      rw [both.trans (congrArg₂ ConversionRun.mk proceeds worked)]
      exact ⟨retrying.cell, retrying.failures, .inr ⟨retrying.again less again sum, next⟩⟩

/-- A task leads to the next attempt, to the upload, to the final failure or to nothing. -/
theorem leavesInv_attempt (limits : PermitLimits) (isS3 : Bool) {course : Course}
    {files : JobFiles} {original : RawJob} {cell total : Nat} {run : ConversionRun}
    {job : ErasedJob} (convert : Job.kind original = .convert)
    (point : run.loop.point = .started job)
    (way : OnItsWay course files original cell total run job) :
    LeavesInv course files original cell total (run.proceed limits isS3 course) := by
  obtain ⟨⟨counters, pending, here, attempts, failures, executed⟩, now⟩ := run
  cases point
  obtain ⟨own, unreported, kind⟩ := way
  by_cases fit : limits.Fit (job.read counters)
  · cases outcome : conversionOutcomes course.attempts (fun _ => now) course.uploads attempts
      (Job.kind (job.read counters)) with
    | aborted =>
        simp only [LeavesInv, ConversionRun.proceed, JobLoop.proceed, outcome,
          ErasedJob.genTask_aborted]
        exact unreported
    | returned succeeds =>
        cases succeeds with
        | true =>
            simp only [LeavesInv, ConversionRun.proceed, JobLoop.proceed, outcome,
              ErasedJob.genTask_ok isS3 fit]
            cases follows : job.nextJob isS3 with
            | none => exact unreported
            | some next =>
                obtain ⟨same, upload⟩ := ErasedJob.nextJob_hidden follows
                exact ⟨same.trans own, unreported, .inl (upload _)⟩
        | false =>
            rcases kind with upload | ⟨retrying, attempted⟩
            · have attempt := ErasedJob.genTask_retry isS3 fit
                (waitForRetry_hidden_of_upload upload)
              simp only [LeavesInv, ConversionRun.proceed, JobLoop.proceed, outcome, attempt,
                ErasedJob.intoRaw, JobResult.map]
              exact ⟨own, unreported, .inl upload⟩
            · rw [retrying.same.kind, convert] at outcome
              have fails : course.Fails files attempts := by
                have left := attempted.left
                change now = course.filesBefore files attempts at left
                unfold Course.Fails
                rw [← left]
                exact outcome
              exact leavesInv_failed isS3 convert (retrying.same.fit.mp fit) rfl retrying attempted
                fails
  · have attempt := ErasedJob.genTask_of_not_fit isS3
      (conversionOutcomes course.attempts (fun _ => now) course.uploads attempts
        (Job.kind (job.read counters))) fit
    simp only [LeavesInv, ConversionRun.proceed, JobLoop.proceed, attempt]
    exact unreported

theorem kind_onFinalFailure (job : RawJob) : (Job.onFinalFailure job).kind = Job.kind job := by
  cases job <;> rfl

theorem leavesInv_proceed (limits : PermitLimits) (isS3 : Bool) {course : Course}
    {files : JobFiles} {original : RawJob} {cell total : Nat} {run : ConversionRun}
    (convert : Job.kind original = .convert)
    (inv : LeavesInv course files original cell total run) :
    LeavesInv course files original cell total (run.proceed limits isS3 course) := by
  obtain ⟨⟨counters, pending, point, attempts, failures, executed⟩, now⟩ := run
  cases point with
  | sent job =>
      obtain ⟨own, unreported, kind⟩ := inv
      refine ⟨own, unreported, kind.imp_right fun ⟨retrying, attempted⟩ => ⟨?_, ?_⟩⟩
      · exact ⟨retrying.cell, retrying.same, retrying.left, retrying.failures, retrying.executed⟩
      · exact ⟨attempted.left, attempted.failed⟩
  | started job => exact leavesInv_attempt limits isS3 convert rfl inv
  | removing id => exact .inl inv
  | down => exact inv
  | failing failure =>
      obtain ⟨rfl, reported, idle, spent⟩ := inv
      change executed = [] at idle
      refine ⟨reported, ?_, ?_, spent.failed, spent.left⟩
      · change executed ++ _ = _
        rw [idle, List.nil_append]
      · change ¬ IsPending (removeJob pending (Job.onFinalFailure original).jobId) _
        rw [jobId_onFinalFailure]
        exact not_isPending_removeJob pending _
  | acting actions =>
      obtain ⟨reported, done, gone, spent⟩ := inv
      change failures = [_] at reported
      change executed ++ actions = _ at done
      subst reported
      cases actions with
      | nil =>
          rw [List.append_nil] at done
          exact .inr ⟨done, gone, spent.failed, spent.left⟩
      | cons action actions =>
          refine ⟨rfl, ?_, gone, spent.failed, ?_⟩
          · change executed ++ [action] ++ actions = _
            rw [← done, List.append_assoc]
            rfl
          · have left := spent.left
            change now = executed.foldl _ _ at left
            change action.execute (Job.onFinalFailure original).kind course.cleans now =
              (executed ++ [action]).foldl _ _
            rw [kind_onFinalFailure, convert, List.foldl_append, ← left]
            rfl
  | ended =>
      rcases inv with unreported | ⟨done, gone, spent⟩
      · exact .inl unreported
      · exact .inr ⟨done, gone, spent.failed, spent.left⟩

/-! ## What is left of a conversion that has finally failed -/

/-- The last attempt fails at its first file. Its removals, and the one of the upload,
succeed wherever there is something to remove. -/
structure LeavesNothing (course : Course) (files : JobFiles) (last : Nat) : Prop where
  clears : (course.attempts last).Clears (course.filesBefore files last)
  cleans : files.input = true → course.cleans = true

/-- Failed attempts leave the uploaded file as it is. -/
theorem input_filesBefore {course : Course} {files : JobFiles} {n : Nat}
    (failed : ∀ k < n, course.Fails files k) :
    (course.filesBefore files n).input = files.input := by
  induction n with
  | zero => rfl
  | succ n ih =>
      have error := Attempt.run_of_returned_false (failed n (Nat.lt_succ_self n))
      exact (Attempt.input_of_error _ error).trans
        (ih fun k before => failed k (Nat.lt_succ_of_lt before))

/-- A conversion that has finally failed, and whose failure was handled. -/
theorem spent_of_ended {limits : PermitLimits} {isS3 : Bool} {counters : Counters}
    {pending : List RawJob} {job : ConvertJob} {cell : Nat} {course : Course} {files : JobFiles}
    {run : ConversionRun}
    (reached : Reachable (ConversionRun.step limits isS3 course cell job.id)
      (.accepted counters pending job cell files) run)
    (ended : run.loop.point = .ended) (failed : run.loop.failures ≠ []) :
    run.loop.executed = (Job.onFinalFailure job).actions ∧ ¬ IsPending run.loop.pending job.id ∧
      Spent course files (retriesOf counters cell) run := by
  have start : LeavesInv course files ((RawJob.convert job).withRetryTimes (counters cell)) cell
      (retriesOf counters cell) (.accepted counters pending job cell files) :=
    ⟨rfl, rfl, .inr ⟨⟨rfl, .refl _, ⟨_, rfl, Nat.zero_add _⟩, rfl, rfl⟩, rfl,
      fun n before => absurd before n.not_lt_zero⟩⟩
  have inv : LeavesInv course files ((RawJob.convert job).withRetryTimes (counters cell)) cell
      (retriesOf counters cell) run := by
    refine Run.invariant reached start ?_
    intro run next others inv _ moved
    cases moved
    exact leavesInv_proceed limits isS3 rfl (leavesInv_apply others inv)
  unfold LeavesInv at inv
  rw [ended] at inv
  exact inv.resolve_left failed

/-- **A finally failed conversion leaves nothing behind** exactly when its last attempt has
failed at its first file, and nothing that was there to remove could not be removed. -/
theorem nothingLeft_iff (limits : PermitLimits) (isS3 : Bool) (counters : Counters)
    (pending : List RawJob) (job : ConvertJob) (cell : Nat) (course : Course) (files : JobFiles)
    {run : ConversionRun}
    (reached : Reachable (ConversionRun.step limits isS3 course cell job.id)
      (.accepted counters pending job cell files) run)
    (ended : run.loop.point = .ended) (failed : run.loop.failures ≠ []) :
    ConversionRun.NothingLeft job.id run ↔
      LeavesNothing course files (retriesOf counters cell) := by
  obtain ⟨executed, gone, errors, left⟩ := spent_of_ended reached ended failed
  have error := Attempt.run_of_returned_false (errors _ le_rfl)
  have input : (course.filesBefore files (retriesOf counters cell + 1)).input = files.input :=
    input_filesBefore fun k before => errors k (Nat.le_of_lt_succ before)
  have beside := Attempt.nothing_left_iff error
  rw [executed] at left
  change run.files = Action.execute .convert course.cleans
    (course.filesBefore files (retriesOf counters cell + 1)) .cleanup at left
  rw [Action.execute_cleanup, input] at left
  constructor
  · rintro ⟨cleaned, sanitized, temp, output, -⟩
    rw [left] at cleaned sanitized temp output
    exact ⟨beside.mp ⟨sanitized, temp, output⟩, Attempt.removed_eq_false.mp cleaned⟩
  · rintro ⟨clears, cleans⟩
    obtain ⟨sanitized, temp, output⟩ := beside.mpr clears
    have cleaned := Attempt.removed_eq_false.mpr cleans
    constructor
    · rw [left]
      exact cleaned
    · rw [left]
      exact sanitized
    · rw [left]
      exact temp
    · rw [left]
      exact output
    · exact gone

/-- A conversion of which one operation fails in every attempt. -/
def Course.failingAt (operation : Operation) : Course where
  attempts _ now := now ≠ operation
  uploads _ := true
  uploaded _ := id
  cleans := true

/-- A conversion with the default scales and codecs. -/
def plainConversion : ConvertJob := .new "a".toList 27 ⟨[]⟩

/-- Six attempts, and the steps of the final failure. -/
def sixAttempts : List (Others 0 plainConversion.id) := List.replicate 16 (Others.none _ _)

/-- A conversion that always fails at its first file leaves nothing behind. -/
theorem nothingLeft_of_no_file :
    ∃ run, Reachable (ConversionRun.step ⟨10, 1⟩ false (.failingAt .createSanitized) 0
        plainConversion.id)
      (.accepted (fun _ => 0) [.convert plainConversion] plainConversion 0
        ⟨true, true, true, true⟩) run ∧
      ConversionRun.NothingLeft plainConversion.id run := by
  have reached := @run_of_exec _ _ (ConversionRun.step ⟨10, 1⟩ false
    (.failingAt .createSanitized) 0 plainConversion.id) anything
    (.accepted (fun _ => 0) [.convert plainConversion] plainConversion 0 ⟨true, true, true, true⟩) _
    sixAttempts rfl
  refine ⟨_, reached, (nothingLeft_iff _ _ _ _ _ _ _ _ reached rfl (List.cons_ne_nil _ _)).mpr
    ⟨⟨rfl, ?_, ?_, ?_⟩, ?_⟩⟩
  · exact fun _ => rfl
  · exact fun _ => rfl
  · exact fun _ => rfl
  · exact fun _ => rfl

/-- A conversion that fails in the conversion itself leaves its copy of the input, and its
temporary directory. -/
theorem failed_conversion_leaves_files :
    ∃ run, Reachable (ConversionRun.step ⟨10, 1⟩ false (.failingAt .convert) 0 plainConversion.id)
      (.accepted (fun _ => 0) [.convert plainConversion] plainConversion 0
        ⟨true, false, false, false⟩) run ∧
      run.loop.point = .ended ∧
      run.loop.failures = [Job.onFinalFailure plainConversion] ∧
      run.files = ⟨false, true, true, false⟩ ∧
      ¬ ConversionRun.NothingLeft plainConversion.id run := by
  have reached := @run_of_exec _ _ (ConversionRun.step ⟨10, 1⟩ false (.failingAt .convert) 0
    plainConversion.id) anything
    (.accepted (fun _ => 0) [.convert plainConversion] plainConversion 0
      ⟨true, false, false, false⟩) _ sixAttempts rfl
  exact ⟨_, reached, rfl, rfl, rfl, fun left => Bool.false_ne_true left.temp.symm⟩

end VideoStorage.Jobs
