import VideoStorage.Library.TransitionSystem

/-!
# Crashes and the files of one video

The files of an accepted convert job and its entry in the pending set, through
any number of crashes and restarts. At every point one of the input, the
complete output and, with S3, the completed upload should be there.

A conversion first deletes an old output, renames the new one in and deletes its
input. Only later, after the webhook and in another task, the entry of the
convert job is removed or replaced. A crash in between runs the conversion again:
it deletes the output and finds no input (`crash_after_input_removed`). Where no
crash happens there, nothing is lost and restarting ends with the video available
(`crash_safe`).
-/

set_option autoImplicit false

namespace VideoStorage.Jobs

open TransitionSystem

/-! ## The state -/

/-- A directory. Removing one takes time, and so does filling one. -/
inductive Dir where
  | absent
  | unfinished
  | complete
  deriving DecidableEq, Repr

namespace Dir

/-- `remove_dir_all` makes progress. -/
def removeSome : Dir → Dir
  | complete => unfinished
  | _ => absent

def size : Dir → Nat
  | absent => 0
  | unfinished => 1
  | complete => 2

theorem size_removeSome {dir : Dir} (present : dir ≠ absent) :
    dir.removeSome.size < dir.size := by
  cases dir with
  | absent => exact absurd rfl present
  | unfinished => exact Nat.lt_succ_self _
  | complete => exact Nat.lt_succ_self _

end Dir

/-- The entry of the video in the pending set. -/
inductive Entry where
  | convert
  | upload
  deriving DecidableEq, Repr

/-- The next operation of a convert job. The sanitised copy under `/tmp` is made
anew by every attempt and left out. -/
inductive ConvertPoint where
  | removeTemp
  | removeOutput
  | createTemp
  | convert
  | rename
  | removeInput
  | webhook
  | nextJob
  deriving DecidableEq, Repr

/-- What the process does with the video. -/
inductive Activity where
  | down
  | idle
  | converting (point : ConvertPoint) (retries : Nat)
  | uploading
  | removingOutput
  | ending
  | failing
  | cleaning
  deriving DecidableEq, Repr

/-- The files of the video and its entry, and what the process does with it. -/
structure VideoState where
  isS3 : Bool
  entry : Option Entry
  input : Bool
  temp : Dir
  output : Dir
  /-- The upload to S3 was completed. -/
  uploaded : Bool
  activity : Activity
  /-- A spawned task has still to add the upload job to the pending set. -/
  adding : Bool
  deriving DecidableEq, Repr

inductive CrashAction where
  /-- The process is killed. -/
  | kill
  /-- The process is started, and queues what is pending. -/
  | restart
  /-- The process does its next operation. -/
  | proceed
  /-- An upload fails, and is tried again. -/
  | uploadFails
  /-- The spawned task adds the upload job. -/
  | addSpawned
  deriving DecidableEq, Repr

namespace VideoState

/-! ## The steps -/

/-- The conversion has failed: it is tried again five times. -/
def conversionFails (s : VideoState) (retries : Nat) : VideoState :=
  if retries < 5 then { s with activity := .converting .removeTemp (retries + 1) }
  else { s with activity := .failing }

/-- `ConvertJob::gen_job`, `run_blocking_convert` and `next_job`. -/
def convertStep (s : VideoState) (retries : Nat) : ConvertPoint → VideoState
  | .removeTemp =>
      if s.temp = .absent then { s with activity := .converting .removeOutput retries }
      else { s with temp := s.temp.removeSome }
  | .removeOutput =>
      if s.output = .absent then { s with activity := .converting .createTemp retries }
      else { s with output := s.output.removeSome }
  | .createTemp => { s with temp := .unfinished, activity := .converting .convert retries }
  | .convert =>
      -- The conversion succeeds whenever the input is there.
      if s.input then { s with temp := .complete, activity := .converting .rename retries }
      else s.conversionFails retries
  | .rename =>
      { s with output := s.temp, temp := .absent, activity := .converting .removeInput retries }
  | .removeInput => { s with input := false, activity := .converting .webhook retries }
  | .webhook => { s with activity := .converting .nextJob retries }
  | .nextJob =>
      if s.isS3 then { s with activity := .uploading, adding := true }
      else { s with activity := .ending }

/-- The next operation of the process. -/
def proceed (s : VideoState) : Option VideoState :=
  match s.activity with
  | .down | .idle => none
  | .converting point retries => some (s.convertStep retries point)
  | .uploading =>
      -- Without a directory the upload fails, and is tried again.
      if s.output = .absent then some s
      else some { s with
        uploaded := s.uploaded || decide (s.output = .complete)
        activity := .removingOutput }
  | .removingOutput =>
      if s.output = .absent then some { s with activity := .ending }
      else some { s with output := s.output.removeSome }
  | .ending => some { s with entry := none, activity := .idle }
  | .failing => some { s with entry := none, activity := .cleaning }
  | .cleaning => some { s with input := false, activity := .idle }

/-- The activity after `JobSetManager::new` has queued the pending job. -/
def queued : Option Entry → Activity
  | some .convert => .converting .removeTemp 0
  | some .upload => .uploading
  | none => .idle

def step : TransitionSystem VideoState CrashAction
  | s, .kill => some { s with activity := .down, adding := false }
  | s, .restart =>
      if s.activity = .down then some { s with activity := queued s.entry } else none
  | s, .proceed => s.proceed
  | s, .uploadFails => if s.activity = .uploading then some s else none
  | s, .addSpawned =>
      if s.adding then some { s with entry := some .upload, adding := false } else none

/-- An accepted job, whatever an earlier video of the id has left. -/
def accepted (isS3 : Bool) (temp output : Dir) : VideoState :=
  ⟨isS3, some .convert, true, temp, output, false, .converting .removeTemp 0, false⟩

/-! ## What is promised -/

/-- One of the input, the complete output and the completed upload is there. -/
def NotLost (s : VideoState) : Prop :=
  s.input = true ∨ s.output = .complete ∨ s.isS3 = true ∧ s.uploaded = true

/-- The video can be served, and no pending job will remove it. -/
def Available (s : VideoState) : Prop :=
  if s.isS3 then s.uploaded = true else s.output = .complete ∧ s.entry = none

/-- The condition under which nothing is lost: the process is not killed while the
convert job is pending though its input is removed, unless the upload is
complete. -/
def killsSafely (s : VideoState) : CrashAction → Bool
  | .kill => !(decide (s.entry = some .convert) && !s.input && !s.uploaded)
  | _ => true

/-- No crash, and no failure of an upload. -/
def calm : VideoState → CrashAction → Bool
  | _, .kill | _, .uploadFails => false
  | _, _ => true

/-! ## The invariant -/

/-- The convert job can be run again without loss. -/
def Rerunnable (s : VideoState) : Prop := s.input = true ∨ s.uploaded = true

/-- The upload job has what it needs, or has done its work. -/
def Uploadable (s : VideoState) : Prop := s.output = .complete ∨ s.uploaded = true

/-- The job has done its work. -/
def Published (s : VideoState) : Prop :=
  if s.isS3 then s.uploaded = true else s.output = .complete

/-- What holds at a point of the conversion. -/
def ConvertOk (s : VideoState) : ConvertPoint → Prop
  | .removeTemp | .removeOutput | .createTemp | .convert => s.Rerunnable
  | .rename => s.input = true ∧ s.temp = .complete
  | .removeInput => s.input = true ∧ s.output = .complete
  | .webhook | .nextJob => s.output = .complete

/-- A restart finds the files that the pending job needs. -/
def EntryOk (s : VideoState) : Option Entry → Prop
  | some .convert => s.Rerunnable
  | some .upload => s.Uploadable
  | none => s.Published

/-- What holds of the files and the entry during an activity. -/
def ActivityOk (s : VideoState) : Activity → Prop
  | .down => s.EntryOk s.entry ∧ s.adding = false
  | .idle => s.Published ∧ s.entry ≠ some .convert
  | .converting point _ => s.ConvertOk point ∧ s.entry = some .convert ∧ s.adding = false
  | .uploading => s.isS3 = true ∧ s.Uploadable ∧ s.entry ≠ none
  | .removingOutput => s.uploaded = true
  | .ending => s.Published
  | .failing => s.uploaded = true
  | .cleaning => s.uploaded = true ∧ s.entry ≠ some .convert

structure Consistent (s : VideoState) : Prop where
  uploaded : s.uploaded = true → s.isS3 = true
  adding : s.adding = true → s.isS3 = true
  entry : s.entry = some .upload → s.isS3 = true
  activity : s.ActivityOk s.activity

theorem consistent_accepted (isS3 : Bool) (temp output : Dir) :
    (accepted isS3 temp output).Consistent :=
  ⟨nofun, nofun, nofun, .inl rfl, rfl, rfl⟩

namespace Consistent

variable {s : VideoState}

theorem published (consistent : s.Consistent) (uploaded : s.uploaded = true) : s.Published := by
  rw [Published, consistent.uploaded uploaded]
  exact uploaded

theorem entryOk_of_published (consistent : s.Consistent) (published : s.Published)
    (settled : s.entry = some .convert → s.Rerunnable) : s.EntryOk s.entry := by
  cases entry : s.entry with
  | none => exact published
  | some job =>
      cases job with
      | convert => exact settled entry
      | upload =>
          rw [Published, consistent.entry entry] at published
          exact .inr published

/-- A safe crash leaves the files that the pending job needs. -/
theorem entryOk_of_safe (consistent : s.Consistent) (safe : killsSafely s .kill = true) :
    s.EntryOk s.entry := by
  have rerunnable : s.entry = some .convert → s.Rerunnable := by
    intro entry
    simp only [killsSafely, entry, decide_true, Bool.true_and, Bool.not_and, Bool.not_not,
      Bool.or_eq_true] at safe
    exact safe
  have activity := consistent.activity
  cases doing : s.activity <;> rw [doing] at activity
  case down => exact activity.1
  case idle => exact consistent.entryOk_of_published activity.1 rerunnable
  case converting point retries =>
    rw [activity.2.1]
    exact rerunnable activity.2.1
  case uploading =>
    cases entry : s.entry with
    | none => exact absurd entry activity.2.2
    | some job =>
        cases job with
        | convert => exact rerunnable entry
        | upload => exact activity.2.1
  case removingOutput | failing =>
    exact consistent.entryOk_of_published (consistent.published activity) rerunnable
  case ending => exact consistent.entryOk_of_published activity rerunnable
  case cleaning =>
    exact consistent.entryOk_of_published (consistent.published activity.1) rerunnable

/-! ## Every step keeps the invariant -/

theorem convertStep (consistent : s.Consistent) {point : ConvertPoint} {retries : Nat}
    (doing : s.activity = .converting point retries) : (s.convertStep retries point).Consistent := by
  have activity := consistent.activity
  rw [doing] at activity
  obtain ⟨ok, entry, adding⟩ := activity
  obtain ⟨uploadedS3, addingS3, entryS3, -⟩ := consistent
  unfold VideoState.convertStep
  cases point with
  | removeTemp =>
      dsimp only
      split
      · exact ⟨uploadedS3, addingS3, entryS3, ok, entry, adding⟩
      · refine ⟨uploadedS3, addingS3, entryS3, ?_⟩
        rw [show s.activity = _ from doing]
        exact ⟨ok, entry, adding⟩
  | removeOutput =>
      dsimp only
      split
      · exact ⟨uploadedS3, addingS3, entryS3, ok, entry, adding⟩
      · refine ⟨uploadedS3, addingS3, entryS3, ?_⟩
        rw [show s.activity = _ from doing]
        exact ⟨ok, entry, adding⟩
  | createTemp => exact ⟨uploadedS3, addingS3, entryS3, ok, entry, adding⟩
  | convert =>
      dsimp only
      split
      · rename_i input
        exact ⟨uploadedS3, addingS3, entryS3, ⟨input, rfl⟩, entry, adding⟩
      · rename_i missing
        have uploaded : s.uploaded = true := ok.resolve_left missing
        unfold conversionFails
        split
        · exact ⟨uploadedS3, addingS3, entryS3, ok, entry, adding⟩
        · exact ⟨uploadedS3, addingS3, entryS3, uploaded⟩
  | rename => exact ⟨uploadedS3, addingS3, entryS3, ok, entry, adding⟩
  | removeInput => exact ⟨uploadedS3, addingS3, entryS3, ok.2, entry, adding⟩
  | webhook => exact ⟨uploadedS3, addingS3, entryS3, ok, entry, adding⟩
  | nextJob =>
      dsimp only
      split
      · rename_i isS3
        exact ⟨uploadedS3, fun _ => isS3, entryS3, isS3, .inl ok, by simp [entry]⟩
      · rename_i isLocal
        refine ⟨uploadedS3, addingS3, entryS3, ?_⟩
        exact (if_neg isLocal).mpr ok

theorem proceed (consistent : s.Consistent) {t : VideoState} (moved : s.proceed = some t) :
    t.Consistent := by
  have activity := consistent.activity
  unfold VideoState.proceed at moved
  cases doing : s.activity <;> rw [doing] at activity <;> simp only [doing] at moved
  case down | idle => cases moved
  case converting point retries =>
    cases moved
    exact consistent.convertStep doing
  case uploading =>
    split at moved <;> cases moved
    · exact consistent
    · have uploaded : (s.uploaded || decide (s.output = .complete)) = true := by
        rcases activity.2.1 with complete | uploaded
        · exact Bool.or_eq_true_iff.mpr (.inr (decide_eq_true complete))
        · exact Bool.or_eq_true_iff.mpr (.inl uploaded)
      exact ⟨fun _ => activity.1, consistent.adding, consistent.entry, uploaded⟩
  case removingOutput =>
    split at moved <;> cases moved
    · exact ⟨consistent.uploaded, consistent.adding, consistent.entry,
        consistent.published activity⟩
    · exact ⟨consistent.uploaded, consistent.adding, consistent.entry, activity⟩
  case ending =>
    cases moved
    exact ⟨consistent.uploaded, consistent.adding, nofun, activity, nofun⟩
  case failing =>
    cases moved
    exact ⟨consistent.uploaded, consistent.adding, nofun, activity, nofun⟩
  case cleaning =>
    cases moved
    exact ⟨consistent.uploaded, consistent.adding, consistent.entry,
      consistent.published activity.1, activity.2⟩

theorem kill (consistent : s.Consistent) (safe : killsSafely s .kill = true) :
    ({ s with activity := .down, adding := false } : VideoState).Consistent where
  uploaded := consistent.uploaded
  adding := nofun
  entry := consistent.entry
  activity := by
    have files : ∀ entry, s.EntryOk entry →
        ({ s with activity := .down, adding := false } : VideoState).EntryOk entry
      | none, ok => ok
      | some .convert, ok => ok
      | some .upload, ok => ok
    exact ⟨files _ (consistent.entryOk_of_safe safe), rfl⟩

theorem restart (consistent : s.Consistent) (down : s.activity = .down) :
    ({ s with activity := queued s.entry } : VideoState).Consistent := by
  have activity := consistent.activity
  rw [down] at activity
  obtain ⟨entryOk, adding⟩ := activity
  refine ⟨consistent.uploaded, consistent.adding, consistent.entry, ?_⟩
  cases entry : s.entry with
  | none =>
      rw [entry] at entryOk
      exact ⟨entryOk, nofun⟩
  | some job =>
      rw [entry] at entryOk
      cases job with
      | convert => exact ⟨entryOk, rfl, adding⟩
      | upload => exact ⟨consistent.entry entry, entryOk, nofun⟩

theorem addSpawned (consistent : s.Consistent) (adding : s.adding = true) :
    ({ s with entry := some .upload, adding := false } : VideoState).Consistent := by
  have activity := consistent.activity
  refine ⟨consistent.uploaded, nofun, fun _ => consistent.adding adding, ?_⟩
  cases doing : s.activity <;> rw [doing] at activity
  case down => exact absurd adding (by simp [activity.2])
  case idle => exact ⟨activity.1, nofun⟩
  case converting point retries => exact absurd adding (by simp [activity.2.2])
  case uploading => exact ⟨activity.1, activity.2.1, nofun⟩
  case removingOutput | ending | failing => exact activity
  case cleaning => exact ⟨activity.1, nofun⟩

theorem step {t : VideoState} {action : CrashAction} (consistent : s.Consistent)
    (allowed : killsSafely s action = true) (moved : VideoState.step s action = some t) :
    t.Consistent := by
  cases action with
  | kill =>
      cases moved
      exact consistent.kill allowed
  | restart =>
      simp only [VideoState.step] at moved
      split at moved <;> cases moved
      rename_i down
      exact consistent.restart down
  | proceed => exact consistent.proceed moved
  | uploadFails =>
      simp only [VideoState.step] at moved
      split at moved <;> cases moved
      exact consistent
  | addSpawned =>
      simp only [VideoState.step] at moved
      split at moved <;> cases moved
      rename_i adding
      exact consistent.addSpawned adding

theorem notLost (consistent : s.Consistent) : s.NotLost := by
  have uploaded : s.uploaded = true → s.NotLost := fun uploaded =>
    .inr (.inr ⟨consistent.uploaded uploaded, uploaded⟩)
  have rerunnable : s.Rerunnable → s.NotLost := Or.rec .inl uploaded
  have uploadable : s.Uploadable → s.NotLost := Or.rec (fun complete => .inr (.inl complete)) uploaded
  have published : s.Published → s.NotLost := by
    intro done
    unfold Published at done
    split at done
    · exact uploaded done
    · exact .inr (.inl done)
  have activity := consistent.activity
  cases doing : s.activity <;> rw [doing] at activity
  case down =>
    have entryOk := activity.1
    cases entry : s.entry with
    | none =>
        rw [entry] at entryOk
        exact published entryOk
    | some job =>
        rw [entry] at entryOk
        cases job with
        | convert => exact rerunnable entryOk
        | upload => exact uploadable entryOk
  case idle => exact published activity.1
  case converting point retries =>
    have ok := activity.1
    cases point with
    | removeTemp | removeOutput | createTemp | convert => exact rerunnable ok
    | rename | removeInput => exact .inl ok.1
    | webhook | nextJob => exact .inr (.inl ok)
  case uploading => exact uploadable activity.2.1
  case removingOutput | failing => exact uploaded activity
  case ending => exact published activity
  case cleaning => exact uploaded activity.1

end Consistent

/-! ## Restarting ends -/

/-- How far an activity is from the end. -/
def rank : Activity → Nat
  | .down => 12
  | .converting .removeTemp _ => 11
  | .converting .removeOutput _ => 10
  | .converting .createTemp _ => 9
  | .converting .convert _ => 8
  | .converting .rename _ => 7
  | .converting .removeInput _ => 6
  | .converting .webhook _ => 5
  | .converting .nextJob _ => 4
  | .uploading => 3
  | .removingOutput | .failing => 2
  | .ending | .cleaning => 1
  | .idle => 0

/-- What is left to do: an operation fills or empties at most one directory. -/
def remaining (s : VideoState) : Nat :=
  4 * rank s.activity + s.temp.size + s.output.size + s.adding.toNat

theorem not_uploaded {s : VideoState} (consistent : s.Consistent) (waiting : ¬ s.Available) :
    s.uploaded = false := by
  cases uploaded : s.uploaded with
  | false => rfl
  | true => exact absurd ((if_pos (consistent.uploaded uploaded)).mpr uploaded) waiting

/-- Until the video is available there is something to do. -/
theorem enabled_calm {s : VideoState} (consistent : s.Consistent) (waiting : ¬ s.Available) :
    ∃ t, GuardedStep step calm s t := by
  have activity := consistent.activity
  cases doing : s.activity <;> rw [doing] at activity
  case down => exact ⟨_, .restart, rfl, if_pos doing⟩
  case idle =>
    refine absurd ?_ waiting
    obtain ⟨published, settled⟩ := activity
    unfold Available
    unfold Published at published
    split
    · rename_i isS3
      rwa [if_pos isS3] at published
    · rename_i isLocal
      rw [if_neg isLocal] at published
      refine ⟨published, ?_⟩
      cases entry : s.entry with
      | none => rfl
      | some job =>
          cases job with
          | convert => exact absurd entry settled
          | upload => exact absurd (consistent.entry entry) isLocal
  all_goals
    have more : ∃ t, s.proceed = some t := by
      unfold proceed
      rw [doing]
      dsimp only
      first | exact ⟨_, rfl⟩ | (split <;> exact ⟨_, rfl⟩)
    obtain ⟨t, moved⟩ := more
    exact ⟨t, .proceed, rfl, moved⟩

/-- Until the video is available, an operation of the conversion leaves less to
do. -/
theorem remaining_convertStep {s : VideoState} {point : ConvertPoint} {retries : Nat}
    (doing : s.activity = .converting point retries) (ok : s.ConvertOk point)
    (notUploaded : s.uploaded = false) :
    (s.convertStep retries point).remaining < s.remaining := by
  unfold convertStep remaining
  rw [doing]
  cases point with
  | removeTemp =>
      dsimp only
      split
      · simp only [rank]
        omega
      · rename_i present
        have less := Dir.size_removeSome present
        simp only [rank]
        omega
  | removeOutput =>
      dsimp only
      split
      · simp only [rank]
        omega
      · rename_i present
        have less := Dir.size_removeSome present
        simp only [rank]
        omega
  | convert =>
      have input : s.input = true := ok.resolve_right (by simp [notUploaded])
      simp only [input, if_true, rank, Dir.size]
      omega
  | createTemp | rename | removeInput | webhook =>
      simp only [rank, Dir.size]
      omega
  | nextJob =>
      dsimp only
      split <;> simp only [rank, Bool.toNat_true] <;> omega

theorem remaining_proceed {s t : VideoState} (consistent : s.Consistent)
    (waiting : ¬ s.Available) (moved : s.proceed = some t) : t.remaining < s.remaining := by
  have notUploaded := not_uploaded consistent waiting
  have uploading : s.uploaded = true → t.remaining < s.remaining := fun uploaded =>
    absurd uploaded (by simp [notUploaded])
  have activity := consistent.activity
  unfold proceed at moved
  cases doing : s.activity <;> rw [doing] at activity <;> simp only [doing] at moved
  case down | idle => cases moved
  case converting point retries =>
    cases moved
    exact remaining_convertStep doing activity.1 notUploaded
  case uploading =>
    split at moved <;> cases moved
    · rename_i absent
      have complete := activity.2.1.resolve_right (by simp [notUploaded])
      rw [absent] at complete
      cases complete
    · simp only [remaining, doing, rank]
      omega
  case removingOutput | failing => exact uploading activity
  case ending =>
    cases moved
    simp only [remaining, doing, rank]
    omega
  case cleaning => exact uploading activity.1

theorem remaining_decreases {s t : VideoState} (consistent : s.Consistent)
    (waiting : ¬ s.Available) (moved : GuardedStep step calm s t) :
    t.Consistent ∧ t.remaining < s.remaining := by
  obtain ⟨action, allowed, moved⟩ := moved
  cases action with
  | kill | uploadFails => cases allowed
  | restart =>
      refine ⟨consistent.step rfl moved, ?_⟩
      simp only [step] at moved
      split at moved <;> cases moved
      rename_i down
      simp only [remaining, down, rank]
      cases s.entry with
      | none => simp only [queued]; omega
      | some job => cases job <;> simp only [queued] <;> omega
  | proceed => exact ⟨consistent.step rfl moved, remaining_proceed consistent waiting moved⟩
  | addSpawned =>
      refine ⟨consistent.step rfl moved, ?_⟩
      simp only [step] at moved
      split at moved <;> cases moved
      rename_i adding
      simp only [remaining, adding, Bool.toNat_true, Bool.toNat_false]
      omega

/-- **A safe crash loses nothing.** In every state of a run whose crashes are safe,
one of the input, the complete output and the completed upload is there, and
without further crashes and upload failures the video becomes available. -/
theorem crash_safe {isS3 : Bool} {temp output : Dir} {s : VideoState}
    (run : Run step killsSafely (accepted isS3 temp output) s) :
    s.NotLost ∧ Inevitable step calm Available s := by
  have consistent := Run.invariant run (consistent_accepted isS3 temp output)
    fun consistent allowed moved => consistent.step allowed moved
  exact ⟨consistent.notLost, .of_measure remaining enabled_calm remaining_decreases consistent⟩

/-- Any other crash can lose the video: the restarted conversion deletes the
output, and there is no input. -/
theorem lost_of_kill {s : VideoState} (entry : s.entry = some .convert) (input : s.input = false)
    (notUploaded : s.uploaded = false) : ∃ t, Reachable step s t ∧ ¬ t.NotLost := by
  obtain ⟨isS3, _, _, temp, output, _, activity, adding⟩ := s
  subst entry input notUploaded
  have run := @run_of_exec _ _ step anything
    ⟨isS3, some .convert, false, temp, output, false, activity, adding⟩
    ⟨isS3, some .convert, false, .absent, output, false, .converting .removeOutput 0, false⟩
    ([.kill, .restart] ++ List.replicate (temp.size + 1) .proceed) (by cases temp <;> rfl)
  cases output with
  | absent => exact ⟨_, run, by simp [NotLost]⟩
  | unfinished => exact ⟨_, run, by simp [NotLost]⟩
  | complete =>
      exact ⟨⟨isS3, some .convert, false, .absent, .unfinished, false,
        .converting .removeOutput 0, false⟩, run.tail ⟨.proceed, rfl, rfl⟩, by simp [NotLost]⟩

/-- Up to the rename, a crash, and again up to the deletion of the output. -/
def crashAfterRename : List CrashAction :=
  List.replicate 5 .proceed ++ [.kill, .restart, .proceed, .proceed]

theorem crash_safe_renamed :
    ∃ s, exec step killsSafely (accepted false .absent .absent) crashAfterRename = some s ∧
      s.output = .unfinished ∧ s.NotLost ∧ Inevitable step calm Available s :=
  ⟨_, rfl, rfl, crash_safe (@run_of_exec _ _ step killsSafely (accepted false .absent .absent) _
    crashAfterRename rfl)⟩

/-- A crash during the webhook: the conversion runs again, deletes the output and
will find no input. -/
theorem crash_after_input_removed :
    ∃ s, exec step anything (accepted false .absent .absent)
        (List.replicate 6 .proceed ++ [.kill, .restart, .proceed, .proceed]) = some s ∧
      ¬ s.NotLost :=
  ⟨⟨false, some .convert, false, .absent, .unfinished, false, .converting .removeOutput 0, false⟩,
    rfl, by simp [NotLost]⟩

end VideoState

end VideoStorage.Jobs
