import VideoStorage.Jobs.Conversion

/-!
# Jobs that are sent again

A job that is tried again, and a job that follows another one, are sent to the channel
as `JobResult::into_raw` gives them: as a new `RawJob` around the result. The result of an
erased job is erased already, so every round puts a further table of functions around
the job.

The job within is not changed by this: after any number of failed rounds it is the job with
its retries counted, and after a successful one it is the job that follows. But the tables
are bounded only for a job whose rounds are (`requeuesUnchanged_iff`). An upload job is tried
for ever, so its calls and its drop go through ever more tables.
-/

set_option autoImplicit false

namespace VideoStorage.Jobs

open RustStd TransitionSystem

namespace RawJob

/-- The job after some retries. -/
def countRetries (n : Nat) : RawJob → RawJob
  | convert job => convert { job with retryTimes := job.retryTimes + UInt8.ofNat n }
  | upload job => upload job
  | migrate job => migrate { job with retryTimes := job.retryTimes + UInt8.ofNat n }

theorem countRetries_zero (job : RawJob) : job.countRetries 0 = job := by
  have zero : ∀ retryTimes : UInt8, retryTimes + UInt8.ofNat 0 = retryTimes := UInt8.add_zero
  cases job with
  | convert job => rw [countRetries, zero]
  | upload job => rfl
  | migrate job => rw [countRetries, zero]

theorem countRetries_succ (n : Nat) (job : RawJob) :
    (job.countRetries n).countRetries 1 = job.countRetries (n + 1) := by
  have sum : ∀ retryTimes : UInt8,
      retryTimes + UInt8.ofNat n + UInt8.ofNat 1 = retryTimes + UInt8.ofNat (n + 1) := by
    intro retryTimes
    rw [UInt8.ofNat_add, UInt8.add_assoc]
  cases job with
  | convert job => simp only [countRetries, sum]
  | upload job => rfl
  | migrate job => simp only [countRetries, sum]

theorem countRetries_same (n : Nat) (job : RawJob) : (job.countRetries n).SameButRetries job := by
  cases job <;> exact ⟨rfl, rfl, rfl, rfl, fun _ => rfl⟩

/-- A job that waits for a retry counts it. -/
theorem waitForRetry_counts {job again : RawJob} {wait : Nat}
    (waited : Job.waitForRetry job = some (wait, again)) : again = job.countRetries 1 := by
  cases job with
  | convert job =>
      simp only [Job.waitForRetry] at waited
      split at waited <;> cases waited
      rfl
  | upload job => cases waited; rfl
  | migrate job =>
      simp only [Job.waitForRetry] at waited
      split at waited <;> cases waited
      rfl

/-- A job that follows another one is an upload job, which counts no retries. -/
theorem nextJob_upload {isS3 : Bool} {job next : RawJob}
    (follows : job.nextJob isS3 = some next) :
    next.nextJob isS3 = none ∧ ∀ n, next.countRetries n = next := by
  cases job with
  | convert job =>
      obtain ⟨upload, _, rfl⟩ := Option.map_eq_some_iff.mp follows
      exact ⟨rfl, fun _ => rfl⟩
  | upload job => cases follows
  | migrate job => cases follows

/-- A retry leaves one less. -/
theorem retriesLeft_of_waited {job again : RawJob} {wait left : Nat}
    (count : job.retriesLeft = some left) (waited : Job.waitForRetry job = some (wait, again)) :
    0 < left ∧ again.retriesLeft = some (left - 1) := by
  cases left with
  | zero =>
      rw [waitForRetry_of_zero count] at waited
      cases waited
  | succ left =>
      obtain ⟨_, _, retried, less, -⟩ := waitForRetry_of_succ count
      rw [waited] at retried
      cases retried
      exact ⟨Nat.zero_lt_succ left, less⟩

end RawJob

namespace ErasedJob

/-! ## Rounds -/

/-- The tables of functions around a job. -/
def depth : ErasedJob → Nat
  | new _ => 1
  | wrap job => job.depth + 1

/-- A round of a job: the counters by the time of its task, and how its work ends. -/
structure Round where
  counters : Counters
  outcome : JobOutcome

/-- A round of the job that was sent: its task runs, and the result is sent again. Other
tasks count their own retries meanwhile. -/
def round (limits : PermitLimits) (isS3 : Bool) : TransitionSystem (Counters × ErasedJob) Round :=
  fun (before, job) turn =>
    if turn.counters job.hidden.cell = before job.hidden.cell then
      (genTask limits isS3 turn.counters job turn.outcome).bind fun (after, result) =>
        match intoRaw result with
        | .next job | .retry job => some (after, job)
        | .done | .err _ => none
    else none

/-- A job that is sent again after any number of rounds: as long as they fail it is the
original one with its retries counted, and from then on it is the one that follows. The
number of tables around it does not depend on the number of rounds. -/
structure RequeuesUnchanged (limits : PermitLimits) (isS3 : Bool) (counters : Counters)
    (job : ErasedJob) : Prop where
  retried : ∀ turns after again,
    exec (round limits isS3) anything (counters, job) turns = some (after, again) →
    (∀ turn ∈ turns, turn.outcome = .returned false) →
    again.read after = (job.read counters).countRetries turns.length ∧
      (again.read after).SameButRetries (job.read counters)
  followed : ∀ turns after again,
    exec (round limits isS3) anything (counters, job) turns = some (after, again) →
    (∃ turn ∈ turns, turn.outcome = .returned true) →
    ∃ next, (job.read counters).nextJob isS3 = some next ∧ again.read after = next
  bounded : ∃ bound, ∀ turns after again,
    exec (round limits isS3) anything (counters, job) turns = some (after, again) →
    again.depth ≤ bound

variable {limits : PermitLimits} {isS3 : Bool} {counters before after : Counters}
  {job again : ErasedJob} {turn : Round}

/-- A round is a failed attempt, with a retry that is counted, or a successful one with a job
that follows. -/
theorem round_cases (moved : round limits isS3 (before, job) turn = some (after, again)) :
    limits.Fit (job.read before) ∧
      ((turn.outcome = .returned false ∧ again = job.wrap ∧
          ∃ wait, Job.waitForRetry (job.read before) = some (wait, again.read after)) ∨
        (turn.outcome = .returned true ∧
          (job.read before).nextJob isS3 = some (again.read after))) := by
  simp only [round] at moved
  split at moved
  · rename_i same
    rw [← read_congr same]
    by_cases fit : limits.Fit (job.read turn.counters)
    · refine ⟨fit, ?_⟩
      cases outcome : turn.outcome with
      | aborted =>
          rw [outcome, genTask_aborted] at moved
          cases moved
      | returned succeeds =>
          cases succeeds with
          | true =>
              rw [outcome, genTask_ok isS3 fit] at moved
              refine .inr ⟨rfl, ?_⟩
              have reads := nextJob_read isS3 turn.counters job
              cases follows : job.nextJob isS3 with
              | none =>
                  rw [follows] at moved
                  cases moved
              | some next =>
                  rw [follows] at moved reads
                  cases moved
                  exact reads.symm
          | false =>
              refine .inl ⟨rfl, ?_⟩
              have waited := SharedJob.waitForRetry_read turn.counters job.hidden
              rw [outcome] at moved
              cases retried : job.hidden.waitForRetry turn.counters with
              | none =>
                  rw [genTask_err isS3 fit retried] at moved
                  cases moved
              | some retry =>
                  obtain ⟨wait, counted⟩ := retry
                  rw [genTask_retry isS3 fit retried] at moved
                  cases moved
                  rw [retried] at waited
                  exact ⟨rfl, wait, waited⟩
    · rw [genTask_of_not_fit isS3 turn.outcome fit] at moved
      cases moved
  · cases moved

/-! ## What every round keeps -/

/-- The job after the rounds so far: all of them have failed, or one has succeeded. -/
inductive Sent (isS3 : Bool) (original : RawJob) (depth : Nat) (past : List Round) :
    Counters × ErasedJob → Prop where
  | again {after : Counters} {job : ErasedJob}
      (failed : ∀ turn ∈ past, turn.outcome = .returned false)
      (counted : job.read after = original.countRetries past.length)
      (left : ∀ total, original.retriesLeft = some total →
        past.length ≤ total ∧ (job.read after).retriesLeft = some (total - past.length))
      (wraps : job.depth = depth + past.length) : Sent isS3 original depth past (after, job)
  | next {after : Counters} {job : ErasedJob} {next : RawJob}
      (succeeded : ∃ turn ∈ past, turn.outcome = .returned true)
      (follows : original.nextJob isS3 = some next) (here : job.read after = next) :
      Sent isS3 original depth past (after, job)

theorem sent_round {original : RawJob} {depth : Nat} {past : List Round}
    {s t : Counters × ErasedJob} (sent : Sent isS3 original depth past s)
    (moved : round limits isS3 s turn = some t) :
    Sent isS3 original depth (past ++ [turn]) t := by
  obtain ⟨after, again⟩ := t
  cases sent with
  | again failed counted left wraps =>
      obtain ⟨-, ⟨failure, rfl, wait, waited⟩ | ⟨success, follows⟩⟩ := round_cases moved
      · refine .again ?_ ?_ (fun total count => ?_) ?_
        · exact List.forall_mem_append.mpr ⟨failed, List.forall_mem_singleton.mpr failure⟩
        · rw [RawJob.waitForRetry_counts waited, counted, RawJob.countRetries_succ,
            List.length_append, List.length_singleton]
        · obtain ⟨few, remaining⟩ := left total count
          obtain ⟨positive, less⟩ := RawJob.retriesLeft_of_waited remaining waited
          rw [List.length_append, List.length_singleton]
          exact ⟨by omega, less.trans (congrArg some (by omega))⟩
        · rw [ErasedJob.depth, wraps, List.length_append, List.length_singleton, Nat.add_assoc]
      · refine .next ⟨turn, List.mem_append_right _ List.mem_cons_self, success⟩ ?_ rfl
        rw [counted, (RawJob.countRetries_same _ original).nextJob] at follows
        exact follows
  | next succeeded follows here =>
      obtain ⟨last, uncounted⟩ := RawJob.nextJob_upload follows
      obtain ⟨-, ⟨-, rfl, wait, waited⟩ | ⟨-, follows'⟩⟩ := round_cases moved
      · obtain ⟨turn, member, success⟩ := succeeded
        refine .next ⟨turn, List.mem_append_left _ member, success⟩ follows ?_
        rw [RawJob.waitForRetry_counts waited, here, uncounted]
      · rw [here, last] at follows'
        cases follows'

theorem sent_of_exec {turns : List Round}
    (ran : exec (round limits isS3) anything (counters, job) turns = some (after, again)) :
    Sent isS3 (job.read counters) job.depth turns (after, again) := by
  have start : Sent isS3 (job.read counters) job.depth [] (counters, job) := by
    refine .again nofun (job.read counters).countRetries_zero.symm (fun total count => ?_) rfl
    exact ⟨Nat.zero_le total, count⟩
  have kept : ∀ {past s t turn}, Sent isS3 (job.read counters) job.depth past s →
      anything s turn = true → round limits isS3 s turn = some t →
      Sent isS3 (job.read counters) job.depth (past ++ [turn]) t :=
    fun sent _ moved => sent_round sent moved
  exact exec_invariant ran start kept

/-- A job that does not fit is not sent again. -/
theorem fit_of_exec {turns : List Round} {s : Counters × ErasedJob}
    (ran : exec (round limits isS3) anything (counters, job) turns = some s)
    (taken : ∃ turn, turn ∈ turns) : limits.Fit (job.read counters) := by
  cases turns with
  | nil =>
      obtain ⟨_, member⟩ := taken
      cases member
  | cons turn more =>
      rw [exec] at ran
      obtain ⟨t, moved, -⟩ := Option.bind_eq_some_iff.mp ran
      exact (round_cases moved).1

/-! ## Rounds without end -/

/-- An upload job that fails is wrapped once a round. -/
theorem exec_upload (upload : Job.kind (job.read counters) = .upload) (n : Nat) :
    ∃ again, exec (round limits isS3) anything (counters, job)
        (List.replicate n ⟨counters, .returned false⟩) = some (counters, again) ∧
      again.depth = job.depth + n := by
  induction n generalizing job with
  | zero => exact ⟨job, rfl, rfl⟩
  | succ n ih =>
      have attempt : round limits isS3 (counters, job) ⟨counters, .returned false⟩ =
          some (counters, job.wrap) := by
        simp only [round, if_true,
          genTask_retry isS3 (fit_of_upload upload) (waitForRetry_hidden_of_upload upload)]
        rfl
      obtain ⟨again, ran, wraps⟩ := @ih job.wrap upload
      refine ⟨again, ?_, wraps.trans (by rw [depth]; omega)⟩
      rw [List.replicate_succ, exec, attempt]
      exact ran

/-- A job that an upload job follows is wrapped once for each of its rounds. -/
theorem exec_next (fit : limits.Fit (job.read counters))
    (follows : (job.read counters).nextJob isS3 ≠ none) (n : Nat) :
    ∃ again, exec (round limits isS3) anything (counters, job)
        (⟨counters, .returned true⟩ :: List.replicate n ⟨counters, .returned false⟩) =
          some (counters, again) ∧ n ≤ again.depth := by
  cases found : job.nextJob isS3 with
  | none =>
      rw [← nextJob_read, found] at follows
      exact absurd rfl follows
  | some next =>
      have attempt : round limits isS3 (counters, job) ⟨counters, .returned true⟩ =
          some (counters, next.wrap) := by
        simp only [round, if_true, genTask_ok isS3 fit, found]
        rfl
      obtain ⟨again, ran, wraps⟩ := @exec_upload limits isS3 counters next.wrap
        ((nextJob_hidden found).2 counters) n
      refine ⟨again, ?_, wraps ▸ Nat.le_add_left ..⟩
      rw [exec, attempt]
      exact ran

/-- **A job that is sent again** is unchanged, and wrapped a bounded number of times, if and
only if it is no upload job and no upload job follows it. -/
theorem requeuesUnchanged_iff (limits : PermitLimits) (isS3 : Bool) (counters : Counters)
    (job : ErasedJob) :
    RequeuesUnchanged limits isS3 counters job ↔ Job.kind (job.read counters) ≠ .upload ∧
      (limits.Fit (job.read counters) → (job.read counters).nextJob isS3 = none) := by
  constructor
  · rintro ⟨-, -, bound, bounded⟩
    refine ⟨fun upload => ?_, fun fit => ?_⟩
    · obtain ⟨again, ran, wraps⟩ := @exec_upload limits isS3 counters job upload (bound + 1)
      have few := bounded _ _ _ ran
      omega
    · by_contra follows
      obtain ⟨again, ran, wraps⟩ := exec_next fit follows (bound + 1)
      have few := bounded _ _ _ ran
      omega
  · rintro ⟨bounded, last⟩
    refine ⟨fun turns after again ran failed => ?_, fun turns after again ran succeeded => ?_, ?_⟩
    · cases sent_of_exec ran with
      | again _ counted => exact ⟨counted, counted ▸ RawJob.countRetries_same _ _⟩
      | next succeeded _ _ =>
          obtain ⟨turn, member, success⟩ := succeeded
          rw [failed turn member] at success
          cases success
    · cases sent_of_exec ran with
      | again failed _ _ _ =>
          obtain ⟨turn, member, success⟩ := succeeded
          rw [failed turn member] at success
          cases success
      | next _ follows here => exact ⟨_, follows, here⟩
    · obtain ⟨total, count⟩ :=
        Option.ne_none_iff_exists'.mp (mt RawJob.retriesLeft_eq_none.mp bounded)
      refine ⟨job.depth + total, fun turns after again ran => ?_⟩
      cases sent_of_exec ran with
      | again _ _ left wraps =>
          have few := (left total count).1
          omega
      | next succeeded follows _ =>
          obtain ⟨turn, member, -⟩ := succeeded
          rw [last (fit_of_exec ran ⟨turn, member⟩)] at follows
          cases follows

/-- An upload job is wrapped ever more often. -/
theorem upload_is_wrapped_for_ever :
    ¬ RequeuesUnchanged ⟨10, 1⟩ true (fun _ => 0) (.new ⟨.upload ⟨"film".toList, none⟩, 0⟩) := by
  rintro ⟨-, -, bound, bounded⟩
  obtain ⟨again, ran, wraps⟩ := @exec_upload ⟨10, 1⟩ true (fun _ => 0)
    (.new ⟨.upload ⟨"film".toList, none⟩, 0⟩) rfl (bound + 1)
  have few := bounded _ _ _ ran
  omega

end ErasedJob

end VideoStorage.Jobs
