import VideoStorage.Jobs.Retry

/-!
# One attempt at a conversion

The file operations and media calls of `gen_job` of a convert job, each of which
succeeds or fails. Most failures are ignored or are an error of the attempt. The
two probes of the input are unwrapped: a failure is a panic in a worker of the
convert pool, which aborts the process.

So the process stays up through all attempts at a conversion, and an input that
cannot be probed ends in the final failure of its job, exactly when no attempt
gets as far as a probe that fails (`staysUp_iff`).
-/

set_option autoImplicit false

namespace VideoStorage.Jobs

open RustStd TransitionSystem

/-! ## The operations -/

/-- The file operations and media calls of an attempt, in their order. -/
inductive Operation where
  | removeSanitized
  | removeTemp
  | removeOutput
  | createSanitized
  | createTemp
  | remuxAvOnly
  | removeRemuxed
  /-- `std::fs::copy` opens its target, and then fills it. -/
  | openCopy
  | fillCopy
  | getDurationUs
  | findAudioStreamInfo
  | convert
  | createMaster
  | writeMaster
  | removeConverted
  | rename
  | removeInput
  deriving DecidableEq, Repr

/-- The files and directories of a convert job that exist. -/
structure JobFiles where
  input : Bool
  sanitized : Bool
  temp : Bool
  output : Bool
  deriving DecidableEq, Repr

/-- What an operation that succeeds does. -/
def Operation.effect (files : JobFiles) : Operation → JobFiles
  | removeSanitized | removeRemuxed | removeConverted => { files with sanitized := false }
  | createSanitized | openCopy => { files with sanitized := true }
  | removeTemp => { files with temp := false }
  | createTemp => { files with temp := true }
  | removeOutput => { files with output := false }
  | rename => { files with temp := false, output := true }
  | removeInput => { files with input := false }
  | remuxAvOnly | fillCopy | getDurationUs | findAudioStreamInfo | convert | createMaster
  | writeMaster => files

/-- How an attempt fails. -/
inductive Failure where
  | error
  | panic
  deriving DecidableEq, Repr

abbrev Conversion := ExceptT Failure (StateM JobFiles)

/-- Which operations of an attempt succeed. -/
abbrev Attempt := Operation → Bool

namespace Attempt

variable (attempt : Attempt)

/-- `_ = operation`. -/
def ignored (operation : Operation) : Conversion Unit :=
  if attempt operation then modify operation.effect else pure ()

/-- `operation?`. -/
def propagated (operation : Operation) : Conversion Unit :=
  if attempt operation then modify operation.effect else throw .error

/-- `operation.unwrap()`. -/
def unwrapped (operation : Operation) : Conversion Unit :=
  if attempt operation then modify operation.effect else throw .panic

def createMasterPlaylist : Conversion Unit := do
  attempt.unwrapped .getDurationUs
  attempt.unwrapped .findAudioStreamInfo
  attempt.propagated .convert
  attempt.propagated .createMaster
  attempt.propagated .writeMaster

/-- The first step of `run_blocking_convert`: a copy of the input without its
other streams, or a plain copy. -/
def sanitize : Conversion Unit :=
  if attempt .remuxAvOnly then modify Operation.remuxAvOnly.effect
  else do
    attempt.ignored .removeRemuxed
    attempt.propagated .openCopy
    attempt.propagated .fillCopy

/-- What `run_blocking_convert` does with the output. -/
def finish : Conversion Unit := do
  attempt.ignored .removeConverted
  attempt.propagated .rename
  attempt.ignored .removeInput

def runBlockingConvert : Conversion Unit := do
  attempt.sanitize
  attempt.createMasterPlaylist
  attempt.finish

/-- The preparations of `gen_job`. -/
def prepare : Conversion Unit := do
  attempt.ignored .removeSanitized
  attempt.ignored .removeTemp
  attempt.ignored .removeOutput
  attempt.propagated .createSanitized
  attempt.propagated .createTemp

def genJob : Conversion Unit := do
  attempt.prepare
  attempt.runBlockingConvert

/-- How the attempt ends. -/
def outcome (files : JobFiles) : ErasedJob.JobOutcome :=
  match (attempt.genJob.run files).1 with
  | .ok () => .returned true
  | .error .error => .returned false
  | .error .panic => .aborted

/-! ## Where an attempt can fail -/

/-- The attempt gets as far as the probes. -/
def reachesProbes : Bool :=
  attempt .createSanitized && attempt .createTemp &&
    (attempt .remuxAvOnly || attempt .openCopy && attempt .fillCopy)

/-- The input can be probed. -/
def probes : Bool := attempt .getDurationUs && attempt .findAudioStreamInfo

/-- What comes after the probes succeeds. -/
def converts : Bool :=
  attempt .convert && attempt .createMaster && attempt .writeMaster && attempt .rename

end Attempt

/-! ## How an attempt ends -/

namespace Conversion

/-- The conversion ends in the same way on all files. -/
def Ends (conversion : Conversion Unit) (result : Except Failure Unit) : Prop :=
  ∀ files, (conversion.run files).1 = result

theorem Ends.andThen {first rest : Conversion Unit} {ended result : Except Failure Unit}
    (here : first.Ends ended) (after : rest.Ends result) :
    Ends (first >>= fun _ => rest) (ended >>= fun _ => result) := by
  intro files
  have ran : first.run files = (ended, (first.run files).2) := Prod.ext (here files) rfl
  simp only [ExceptT.run_bind]
  simp only [bind, StateT.bind]
  rw [ran]
  cases ended with
  | ok value => exact after _
  | error failure => rfl

/-- The end of a step that may fail, and of what comes after it. -/
theorem bind_ite (succeeds : Bool) (failure : Failure) (result : Except Failure Unit) :
    ((if succeeds then .ok () else .error failure : Except Failure Unit) >>= fun _ => result) =
      if succeeds then result else .error failure := by
  cases succeeds <;> rfl

end Conversion

namespace Attempt

open Conversion

variable (attempt : Attempt)

theorem ends_ignored (operation : Operation) : (attempt.ignored operation).Ends (.ok ()) := by
  intro files
  unfold Attempt.ignored
  split <;> rfl

theorem ends_propagated (operation : Operation) :
    (attempt.propagated operation).Ends (if attempt operation then .ok () else .error .error) := by
  intro files
  unfold Attempt.propagated
  split <;> rfl

theorem ends_unwrapped (operation : Operation) :
    (attempt.unwrapped operation).Ends (if attempt operation then .ok () else .error .panic) := by
  intro files
  unfold Attempt.unwrapped
  split <;> rfl

theorem ends_prepare :
    attempt.prepare.Ends
      (if attempt .createSanitized && attempt .createTemp then .ok () else .error .error) := by
  have ends := (attempt.ends_ignored .removeSanitized).andThen
    ((attempt.ends_ignored .removeTemp).andThen ((attempt.ends_ignored .removeOutput).andThen
      ((attempt.ends_propagated .createSanitized).andThen (attempt.ends_propagated .createTemp))))
  rw [bind_ite] at ends
  intro files
  refine (ends files).trans ?_
  cases attempt .createSanitized <;> rfl

theorem ends_sanitize :
    attempt.sanitize.Ends
      (if attempt .remuxAvOnly || attempt .openCopy && attempt .fillCopy then .ok ()
      else .error .error) := by
  intro files
  unfold sanitize
  cases attempt .remuxAvOnly with
  | true => rfl
  | false =>
      have ends := (attempt.ends_ignored .removeRemuxed).andThen
        ((attempt.ends_propagated .openCopy).andThen (attempt.ends_propagated .fillCopy))
      rw [bind_ite] at ends
      refine (ends files).trans ?_
      cases attempt .openCopy <;> rfl

theorem ends_createMasterPlaylist :
    attempt.createMasterPlaylist.Ends
      (if attempt.probes then
        if attempt .convert && attempt .createMaster && attempt .writeMaster then .ok ()
        else .error .error
      else .error .panic) := by
  have ends := (attempt.ends_unwrapped .getDurationUs).andThen
    ((attempt.ends_unwrapped .findAudioStreamInfo).andThen
      ((attempt.ends_propagated .convert).andThen
        ((attempt.ends_propagated .createMaster).andThen (attempt.ends_propagated .writeMaster))))
  simp only [bind_ite] at ends
  intro files
  refine (ends files).trans ?_
  unfold probes
  cases attempt .getDurationUs with
  | false => rfl
  | true =>
      cases attempt .findAudioStreamInfo with
      | false => rfl
      | true => cases attempt .convert <;> cases attempt .createMaster <;> rfl

theorem ends_finish :
    attempt.finish.Ends (if attempt .rename then .ok () else .error .error) := by
  have ends := (attempt.ends_ignored .removeConverted).andThen
    ((attempt.ends_propagated .rename).andThen (attempt.ends_ignored .removeInput))
  rw [bind_ite] at ends
  exact ends

/-- **How an attempt ends**: it aborts the process when it gets as far as a probe
that fails, and succeeds when nothing fails that matters. -/
theorem outcome_eq (files : JobFiles) :
    attempt.outcome files =
      if attempt.reachesProbes then
        if attempt.probes then .returned attempt.converts else .aborted
      else .returned false := by
  have ends := attempt.ends_prepare.andThen (attempt.ends_sanitize.andThen
    (attempt.ends_createMasterPlaylist.andThen attempt.ends_finish))
  simp only [bind_ite] at ends
  have ended : (attempt.genJob.run files).1 = _ := ends files
  unfold outcome
  rw [ended]
  unfold reachesProbes converts
  cases attempt .createSanitized && attempt .createTemp with
  | false => rfl
  | true =>
      cases attempt .remuxAvOnly || attempt .openCopy && attempt .fillCopy with
      | false => rfl
      | true =>
          cases attempt.probes with
          | false => rfl
          | true =>
              cases attempt .convert && attempt .createMaster && attempt .writeMaster with
              | false => rfl
              | true => cases attempt .rename <;> rfl

end Attempt

/-! ## Attempt after attempt -/

/-- The attempt is a success. -/
def Attempt.succeeds (attempt : Attempt) : Bool :=
  attempt.reachesProbes && attempt.probes && attempt.converts

/-- The attempt aborts the process. -/
def Attempt.aborts (attempt : Attempt) : Bool := attempt.reachesProbes && !attempt.probes

theorem Attempt.aborts_eq_false {attempt : Attempt} :
    attempt.aborts = false ↔ (attempt.reachesProbes = true → attempt.probes = true) := by
  rw [aborts]
  cases attempt.reachesProbes <;> cases attempt.probes <;> simp

theorem Attempt.succeeds_of_not_probes {attempt : Attempt} (unprobed : attempt.probes = false) :
    attempt.succeeds = false := by
  rw [succeeds, unprobed, Bool.and_false, Bool.false_and]

theorem Attempt.outcome_eq_aborted {attempt : Attempt} (files : JobFiles) :
    attempt.outcome files = .aborted ↔ attempt.aborts = true := by
  rw [outcome_eq, aborts]
  cases attempt.reachesProbes <;> cases attempt.probes <;> simp

theorem Attempt.outcome_eq_returned_false {attempt : Attempt} (files : JobFiles) :
    attempt.outcome files = .returned false ↔
      attempt.aborts = false ∧ attempt.succeeds = false := by
  rw [outcome_eq, aborts, succeeds]
  cases attempt.reachesProbes <;> cases attempt.probes <;> simp

/-- How the attempts go: those at the conversion by their operations, whatever
files there are before them, and later ones at the upload anyhow. -/
def conversionOutcomes (attempts : Nat → Attempt) (files : Nat → JobFiles) (uploads : Nat → Bool) :
    JobLoop.Outcomes
  | n, .convert => (attempts n).outcome (files n)
  | n, .upload | n, .migrate => .returned (uploads n)

namespace ErasedJob

variable {limits : PermitLimits} {counters : Counters} {job : ErasedJob}

/-- An attempt that succeeds. -/
theorem genTask_ok (isS3 : Bool) (fit : limits.Fit (job.read counters)) :
    genTask limits isS3 counters job (.returned true) =
      some (counters, (job.nextJob isS3).elim .done .next) := by
  obtain ⟨permits, acquired⟩ := acquire_of_fit fit
  unfold genTask
  rw [acquired]
  cases job.nextJob isS3 <;> rfl

/-- What follows a job is an upload job. -/
theorem nextJob_hidden {isS3 : Bool} {next : ErasedJob} (follows : job.nextJob isS3 = some next) :
    next.hidden.cell = job.hidden.cell ∧ ∀ counters, Job.kind (next.read counters) = .upload := by
  induction job generalizing next with
  | new job =>
      obtain ⟨job, cell⟩ := job
      cases job with
      | convert job =>
          obtain ⟨_, converted, rfl⟩ := Option.map_eq_some_iff.mp follows
          obtain ⟨upload, _, rfl⟩ := Option.map_eq_some_iff.mp converted
          exact ⟨rfl, fun _ => rfl⟩
      | upload job => cases follows
      | migrate job => cases follows
  | wrap job ih =>
      obtain ⟨inner, found, rfl⟩ := Option.map_eq_some_iff.mp follows
      have here := ih found
      exact here

end ErasedJob

/-- An upload job needs one permit. -/
theorem fit_of_upload {limits : PermitLimits} {job : RawJob} (upload : Job.kind job = .upload) :
    limits.Fit job := by
  unfold PermitLimits.Fit
  rw [upload]
  exact Nat.lt_of_le_of_lt (Nat.min_le_right _ 1) (by decide)

/-- A conversion, whose attempts so far were errors, or the upload after it. -/
structure Converting (limits : PermitLimits) (outcomes : JobLoop.Outcomes) (cell total : Nat)
    (loop : JobLoop) (job : ErasedJob) : Prop where
  cell : job.hidden.cell = cell
  fit : limits.Fit (job.read loop.counters)
  kind : Job.kind (job.read loop.counters) = .upload ∨
    Job.kind (job.read loop.counters) = .convert ∧
      (∃ left, (job.read loop.counters).retriesLeft = some left ∧ loop.attempts + left = total) ∧
      ∀ n < loop.attempts, outcomes n .convert = .returned false

def StaysUpInv (limits : PermitLimits) (outcomes : JobLoop.Outcomes) (cell total : Nat)
    (loop : JobLoop) : Prop :=
  match loop.point with
  | .sent job | .started job => Converting limits outcomes cell total loop job
  | .down => False
  | _ => True

theorem staysUpInv_apply {limits : PermitLimits} {outcomes : JobLoop.Outcomes} {cell total : Nat}
    {loop : JobLoop} {id : Str} (others : Others cell id)
    (inv : StaysUpInv limits outcomes cell total loop) :
    StaysUpInv limits outcomes cell total (others.apply loop) := by
  have converting : ∀ {job : ErasedJob}, Converting limits outcomes cell total loop job →
      Converting limits outcomes cell total (others.apply loop) job := by
    rintro job ⟨here, fit, kind⟩
    have reads := others.read_apply loop here
    exact ⟨here, by rwa [reads], by rwa [reads]⟩
  obtain ⟨counters, pending, point, attempts, failures, executed⟩ := loop
  cases point with
  | sent job => exact converting inv
  | started job => exact converting inv
  | down => exact inv.elim
  | removing id => trivial
  | failing failure => trivial
  | acting actions => trivial
  | ended => trivial

/-- An attempt at the conversion that is reached does not abort the process, nor
does one at the upload. -/
structure NeverAborts (outcomes : JobLoop.Outcomes) (total : Nat) : Prop where
  convert : ∀ k ≤ total, (∀ n < k, outcomes n .convert = .returned false) →
    outcomes k .convert ≠ .aborted
  upload : ∀ k, outcomes k .upload ≠ .aborted

theorem Converting.outcome_ne {limits : PermitLimits} {outcomes : JobLoop.Outcomes}
    {cell total : Nat} {loop : JobLoop} {job : ErasedJob} (never : NeverAborts outcomes total)
    (converting : Converting limits outcomes cell total loop job) :
    outcomes loop.attempts (Job.kind (job.read loop.counters)) ≠ .aborted := by
  rcases converting.kind with upload | ⟨convert, ⟨left, -, sum⟩, failed⟩
  · rw [upload]
    exact never.upload _
  · rw [convert]
    exact never.convert _ (by omega) failed

/-- The conversion that is sent back after a failed attempt. -/
theorem Converting.again {limits : PermitLimits} {outcomes : JobLoop.Outcomes}
    {cell total left : Nat} {loop : JobLoop} {job : ErasedJob} {counted : Counters}
    (here : job.hidden.cell = cell) (fit : limits.Fit (job.read loop.counters))
    (convert : Job.kind (job.read loop.counters) = .convert)
    (failed : ∀ n < loop.attempts + 1, outcomes n .convert = .returned false)
    (less : (job.read counted).retriesLeft = some left)
    (same : (job.read counted).SameButRetries (job.read loop.counters))
    (sum : loop.attempts + (left + 1) = total) :
    Converting limits outcomes cell total
      { loop with counters := counted, point := .sent job.wrap, attempts := loop.attempts + 1 }
      job.wrap where
  cell := here
  fit := same.fit.mpr fit
  kind := .inr ⟨same.kind.trans convert,
    ⟨left, less, by rw [← sum, Nat.add_assoc, Nat.add_comm 1 left]⟩, failed⟩

/-- A task that does not abort leads on. -/
theorem staysUpInv_proceed {limits : PermitLimits} (isS3 : Bool) {outcomes : JobLoop.Outcomes}
    {cell total : Nat} {loop : JobLoop} (never : NeverAborts outcomes total)
    (inv : StaysUpInv limits outcomes cell total loop) :
    StaysUpInv limits outcomes cell total (JobLoop.proceed limits isS3 outcomes loop) := by
  obtain ⟨counters, pending, point, attempts, failures, executed⟩ := loop
  cases point with
  | sent job =>
      obtain ⟨here, fit, kind⟩ := inv
      exact ⟨here, fit, kind⟩
  | started job =>
      have survives := Converting.outcome_ne never inv
      obtain ⟨here, fit, kind⟩ := inv
      change outcomes attempts (Job.kind (job.read counters)) ≠ .aborted at survives
      change limits.Fit (job.read counters) at fit
      cases outcome : outcomes attempts (Job.kind (job.read counters)) with
      | aborted => exact absurd outcome survives
      | returned succeeds =>
          cases succeeds with
          | true =>
              simp only [JobLoop.proceed, outcome, ErasedJob.genTask_ok isS3 fit]
              cases follows : job.nextJob isS3 with
              | none => trivial
              | some next =>
                  obtain ⟨cell', upload⟩ := ErasedJob.nextJob_hidden follows
                  exact ⟨cell'.trans here, fit_of_upload (upload _), .inl (upload _)⟩
          | false =>
              rcases kind with upload | ⟨convert, ⟨left, count, sum⟩, failed⟩
              · have attempt := ErasedJob.genTask_retry isS3 fit
                  (waitForRetry_hidden_of_upload upload)
                simp only [JobLoop.proceed, outcome, attempt, ErasedJob.intoRaw, JobResult.map]
                exact ⟨here, fit, .inl upload⟩
              · cases left with
                | zero =>
                    have attempt := ErasedJob.genTask_err isS3 fit
                      (ErasedJob.waitForRetry_hidden_of_zero count)
                    simp only [JobLoop.proceed, outcome, attempt, ErasedJob.intoRaw, JobResult.map]
                    trivial
                | succ left =>
                    obtain ⟨wait, counted, waited, less, again⟩ :=
                      ErasedJob.waitForRetry_hidden_of_succ count
                    have attempt := ErasedJob.genTask_retry isS3 fit waited
                    simp only [JobLoop.proceed, outcome, attempt, ErasedJob.intoRaw, JobResult.map]
                    refine Converting.again here fit convert (fun n before => ?_) less again sum
                    rcases Nat.lt_succ_iff_lt_or_eq.mp before with earlier | rfl
                    · exact failed n earlier
                    · exact convert ▸ outcome
  | down => exact inv.elim
  | removing id => trivial
  | failing failure => trivial
  | acting actions => cases actions <;> trivial
  | ended => trivial

/-- The attempts that come before an attempt, when they are errors. -/
theorem reaches_attempt {limits : PermitLimits} {isS3 : Bool} {outcomes : JobLoop.Outcomes}
    {counters : Counters} {pending : List RawJob} {job : ErasedJob} {total : Nat}
    (fit : limits.Fit (job.read counters))
    (count : (job.read counters).retriesLeft = some total) {k : Nat} (few : k ≤ total)
    (failed : ∀ n < k, outcomes n (Job.kind (job.read counters)) = .returned false) :
    ∃ loop again, Reachable (JobLoop.step limits isS3 outcomes job.hidden.cell
        (Job.id (job.read counters))) (.accepted counters pending job) loop ∧
      loop.point = .started again ∧ loop.attempts = k ∧
      Retrying (job.read counters) job.hidden.cell total loop again := by
  induction k with
  | zero =>
      refine ⟨_, job, .tail .refl ⟨Others.none _ _, rfl, rfl⟩, rfl, rfl, ?_⟩
      exact ⟨rfl, .refl _, ⟨total, count, Nat.zero_add total⟩, rfl, rfl⟩
  | succ k ih =>
      obtain ⟨loop, again, run, point, made, retrying⟩ :=
        ih (Nat.le_of_succ_le few) fun n before => failed n (Nat.lt_succ_of_lt before)
      obtain ⟨left, count, sum⟩ := retrying.left
      obtain ⟨left, rfl⟩ : ∃ n, left = n + 1 := Nat.exists_eq_succ_of_ne_zero (by omega)
      obtain ⟨counted, proceeds, less, same⟩ := proceed_retry isS3 fit point retrying count
        (made.symm ▸ failed k (Nat.lt_succ_self k))
      have sent := retrying.again less same sum
      refine ⟨_, again.wrap, .tail (.tail run ⟨Others.none _ _, rfl, congrArg some proceeds⟩)
        ⟨Others.none _ _, rfl, rfl⟩, rfl, congrArg Nat.succ made, ?_⟩
      exact ⟨sent.cell, sent.same, sent.left, sent.failures, sent.executed⟩

/-- An attempt that is reached and aborts takes the process down. -/
theorem down_of_aborts {limits : PermitLimits} {isS3 : Bool} {outcomes : JobLoop.Outcomes}
    {counters : Counters} {pending : List RawJob} {job : ErasedJob} {total : Nat}
    (fit : limits.Fit (job.read counters))
    (count : (job.read counters).retriesLeft = some total) {k : Nat} (few : k ≤ total)
    (failed : ∀ n < k, outcomes n (Job.kind (job.read counters)) = .returned false)
    (aborts : outcomes k (Job.kind (job.read counters)) = .aborted) :
    ∃ loop, Reachable (JobLoop.step limits isS3 outcomes job.hidden.cell
        (Job.id (job.read counters))) (.accepted counters pending job) loop ∧
      loop.point = .down := by
  obtain ⟨loop, again, run, point, made, retrying⟩ := reaches_attempt fit count few failed
  rw [← made, ← retrying.same.kind] at aborts
  refine ⟨_, .tail run ⟨Others.none _ _, rfl, rfl⟩, ?_⟩
  change (JobLoop.proceed limits isS3 outcomes loop).point = .down
  simp only [JobLoop.proceed, point, aborts, ErasedJob.genTask_aborted]

/-- A task whose permits cannot be counted panics at once. -/
theorem down_of_not_fit {limits : PermitLimits} {isS3 : Bool} {outcomes : JobLoop.Outcomes}
    {counters : Counters} {pending : List RawJob} {job : ErasedJob}
    (fit : ¬ limits.Fit (job.read counters)) :
    ∃ loop, Reachable (JobLoop.step limits isS3 outcomes job.hidden.cell
        (Job.id (job.read counters))) (.accepted counters pending job) loop ∧
      loop.point = .down := by
  refine ⟨_, .tail (.tail .refl ⟨Others.none _ _, rfl, rfl⟩) ⟨Others.none _ _, rfl, rfl⟩, ?_⟩
  have attempt := ErasedJob.genTask_of_not_fit isS3
    (outcomes 0 (Job.kind (job.read counters))) fit
  change (JobLoop.proceed limits isS3 outcomes ⟨counters, pending, .started job, 0, [], []⟩).point =
    .down
  simp only [JobLoop.proceed, attempt]

/-! ## Which inputs take the process down -/

/-- A job fails by itself: the process stays up through all its attempts, and when
its input can never be probed it ends with its final failure. -/
structure StaysUp (limits : PermitLimits) (isS3 : Bool) (counters : Counters)
    (pending : List RawJob) (job : ErasedJob) (attempts : Nat → Attempt) (files : Nat → JobFiles)
    (uploads : Nat → Bool) : Prop where
  up : ∀ {loop}, Reachable (JobLoop.step limits isS3 (conversionOutcomes attempts files uploads)
    job.hidden.cell (Job.id (job.read counters))) (.accepted counters pending job) loop →
    loop.point ≠ .down
  fails : (∀ n, (attempts n).probes = false) →
    RetriesEnd limits isS3 (conversionOutcomes attempts files uploads) counters pending job

/-- The retries that are left of a conversion. -/
def retriesOf (counters : Counters) (cell : Nat) : Nat := 5 - (counters cell).toNat

section

variable {limits : PermitLimits} {isS3 : Bool} {counters : Counters} {pending : List RawJob}
  {job : ConvertJob} {cell : Nat} {attempts : Nat → Attempt} {files : Nat → JobFiles}
  {uploads : Nat → Bool}

/-- Where the process stays up, no attempt that is reached fails at a probe. -/
theorem calm_of_up (fit : limits.Fit (.convert job))
    (up : ∀ {loop}, Reachable (JobLoop.step limits isS3 (conversionOutcomes attempts files uploads)
      cell (Job.id job)) (.accepted counters pending (.new ⟨.convert job, cell⟩)) loop →
      loop.point ≠ .down) {k : Nat} (few : k ≤ retriesOf counters cell)
    (failed : ∀ n < k, (attempts n).succeeds = false) :
    (attempts k).reachesProbes = true → (attempts k).probes = true := by
  have fits : limits.Fit (ErasedJob.read counters (.new ⟨.convert job, cell⟩)) := fit
  have count : (ErasedJob.read counters (.new ⟨.convert job, cell⟩)).retriesLeft =
      some (retriesOf counters cell) := rfl
  induction k using Nat.strongRecOn with
  | ind k ih =>
      apply Attempt.aborts_eq_false.mp
      rw [Bool.eq_false_iff]
      intro aborts
      have errors : ∀ n < k, conversionOutcomes attempts files uploads n .convert =
          .returned false := by
        intro n before
        have calm := ih n before (Nat.le_trans (Nat.le_of_lt before) few)
          fun m earlier => failed m (Nat.lt_trans earlier before)
        exact (Attempt.outcome_eq_returned_false (files n)).mpr
          ⟨Attempt.aborts_eq_false.mpr calm, failed n before⟩
      obtain ⟨loop, run, down⟩ := down_of_aborts fits count few errors
        ((Attempt.outcome_eq_aborted (files k)).mpr aborts)
      exact up run down

/-- Where no attempt that is reached fails at a probe, none aborts. -/
theorem neverAborts_of_calm {total : Nat}
    (calm : ∀ k ≤ total, (∀ n < k, (attempts n).succeeds = false) →
      (attempts k).reachesProbes = true → (attempts k).probes = true) :
    NeverAborts (conversionOutcomes attempts files uploads) total where
  convert k few failed aborted := by
    have survives := Attempt.aborts_eq_false.mpr (calm k few fun n before =>
      ((Attempt.outcome_eq_returned_false (files n)).mp (failed n before)).2)
    rw [(Attempt.outcome_eq_aborted (files k)).mp aborted] at survives
    cases survives
  upload _ := nofun

/-- A conversion that never aborts leaves the process up. -/
theorem up_of_neverAborts (fit : limits.Fit (.convert job))
    (never : NeverAborts (conversionOutcomes attempts files uploads) (retriesOf counters cell))
    {loop : JobLoop}
    (run : Reachable (JobLoop.step limits isS3 (conversionOutcomes attempts files uploads)
      cell (Job.id job)) (.accepted counters pending (.new ⟨.convert job, cell⟩)) loop) :
    loop.point ≠ .down := by
  have start : StaysUpInv limits (conversionOutcomes attempts files uploads) cell
      (retriesOf counters cell) (.accepted counters pending (.new ⟨.convert job, cell⟩)) :=
    ⟨rfl, fit, .inr ⟨rfl, ⟨_, rfl, Nat.zero_add _⟩, fun n before => absurd before n.not_lt_zero⟩⟩
  have inv : StaysUpInv limits (conversionOutcomes attempts files uploads) cell
      (retriesOf counters cell) loop := by
    refine Run.invariant run start ?_
    intro loop next others inv _ moved
    cases moved
    exact staysUpInv_proceed isS3 never (staysUpInv_apply others inv)
  intro down
  unfold StaysUpInv at inv
  rw [down] at inv
  exact inv

end

/-- **A bad input file fails its own job and nothing else** exactly when no attempt
that is reached gets as far as a probe that fails. -/
theorem staysUp_iff (limits : PermitLimits) (isS3 : Bool) (counters : Counters)
    (pending : List RawJob) (job : ConvertJob) (cell : Nat) (attempts : Nat → Attempt)
    (files : Nat → JobFiles) (uploads : Nat → Bool) :
    StaysUp limits isS3 counters pending (.new ⟨.convert job, cell⟩) attempts files uploads ↔
      limits.Fit (.convert job) ∧
        ∀ k ≤ retriesOf counters cell, (∀ n < k, (attempts n).succeeds = false) →
          (attempts k).reachesProbes = true → (attempts k).probes = true := by
  constructor
  · intro stays
    by_cases fit : limits.Fit (.convert job)
    · exact ⟨fit, fun k few failed => calm_of_up fit stays.up few failed⟩
    · have spoilt : ¬ limits.Fit (ErasedJob.read counters (.new ⟨.convert job, cell⟩)) := fit
      obtain ⟨loop, run, down⟩ := down_of_not_fit spoilt
      exact absurd down (stays.up run)
  · rintro ⟨fit, calm⟩
    refine ⟨fun run => up_of_neverAborts fit (neverAborts_of_calm calm) run, fun unprobed => ?_⟩
    have failed := fun m => Attempt.succeeds_of_not_probes (unprobed m)
    have count : (ErasedJob.read counters (.new ⟨.convert job, cell⟩)).retriesLeft =
        some (retriesOf counters cell) := rfl
    refine retriesEnd_of_fails pending count fit fun n few => ?_
    exact (Attempt.outcome_eq_returned_false (files n)).mpr
      ⟨Attempt.aborts_eq_false.mpr (calm n few fun m _ => failed m), failed n⟩

/-- The operations of an attempt whose input can be copied and not be probed. -/
def unprobed : Attempt := fun operation =>
  operation ≠ .remuxAvOnly ∧ operation ≠ .getDurationUs

/-- A job with such an input. -/
theorem bad_input_takes_the_process_down :
    ¬ StaysUp ⟨10, 1⟩ false (fun _ => 0) [oneJob] (.new ⟨oneJob, 0⟩) (fun _ => unprobed)
      (fun _ => ⟨true, false, false, false⟩) (fun _ => true) := by
  intro stays
  have fit : PermitLimits.Fit ⟨10, 1⟩ (ErasedJob.read (fun _ => 0) (.new ⟨oneJob, 0⟩)) := by
    decide
  have count : (ErasedJob.read (fun _ => 0) (.new ⟨oneJob, 0⟩)).retriesLeft = some 5 := rfl
  have aborts : conversionOutcomes (fun _ => unprobed) (fun _ => ⟨true, false, false, false⟩)
      (fun _ => true) 0 .convert = .aborted := by
    change unprobed.outcome ⟨true, false, false, false⟩ = .aborted
    exact (Attempt.outcome_eq_aborted _).mpr rfl
  obtain ⟨loop, run, down⟩ := down_of_aborts fit count (Nat.zero_le 5)
    (fun n before => absurd before n.not_lt_zero) aborts
  exact stays.up run down

end VideoStorage.Jobs
