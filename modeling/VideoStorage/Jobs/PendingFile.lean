import VideoStorage.Library.Bytes
import VideoStorage.Jobs.Manager

/-!
# The file of the pending set

**A torn file.** `save` rewrites the file in place: it is truncated, and the
content is written to it from the front. A process that stops in between leaves a
part of the content. The next start refuses a part that ends inside a character,
and takes any other for an empty list. So saving is not atomic ("Atomically saves
the current set of jobs"): a start after a stop finds the old list or the new one
exactly when the process does not stop inside the write, or one of the lists is
empty (`atomicSave_iff`). Of the JSON text we assume that it is read back, and
that no proper part of it from the front is a JSON array.

**A bad entry.** The entries of the file are read one by one, but their results
are collected into one: an entry that cannot be read discards all others, and the
next change of the set takes them from the file (`keepsAccepted_iff`).
-/

set_option autoImplicit false

namespace VideoStorage.Jobs

open RustStd SerdeJson

/-- What `JobSetManager::new` relies on: the text of the jobs is read back, and a
part of it is no array. -/
structure JsonText.Reads (text : JsonText) (jobs : List RawJob) : Prop where
  whole : text.parse (text.render (jobs.map RawJob.toJson)) = some (jobs.map RawJob.toJson)
  part : ∀ {part}, part <+: text.render (jobs.map RawJob.toJson) →
    part ≠ text.render (jobs.map RawJob.toJson) → text.parse part = none

/-- `JobSetManager::add` and `JobSetManager::remove`. -/
inductive Change where
  | add (job : RawJob)
  | remove (id : Str)

/-- The list in memory after the change. -/
def Change.apply (jobs : List RawJob) : Change → List RawJob
  | add job => addJob jobs job
  | remove id => removeJob jobs id

/-- Where the process stops. -/
inductive Stop where
  /-- Before the file is truncated. -/
  | unopened
  /-- When so many bytes of the content are in the file. -/
  | written (bytes : Nat)

namespace JobSetManager

variable (text : JsonText)

/-- The bytes that `save` writes after the change. -/
def content (manager : JobSetManager) (change : Change) : Bytes :=
  utf8 (text.render ((change.apply manager.jobs).map RawJob.toJson))

/-- The file that is found after the process has stopped. -/
def fileAt (manager : JobSetManager) (change : Change) : Stop → Option Bytes
  | .unopened => manager.file.map utf8
  | .written bytes => some ((manager.content text change).take bytes)

/-- `JobSetManager::new` on the bytes of a file. Bytes that are no text are an
error. -/
def newFromBytes (file : Option Bytes) : Option (JobSetManager × List RawJob) :=
  match file with
  | none => some (new text none)
  | some bytes => (fromUtf8 bytes).map fun content => new text (some content)

/-- A start after the stop loads the complete old list or the complete new one. -/
def AtomicSave (manager : JobSetManager) (change : Change) (stop : Stop) : Prop :=
  ∃ loaded sent, newFromBytes text (manager.fileAt text change stop) = some (loaded, sent) ∧
    (List.Forall₂ RawJob.Reloads manager.jobs loaded.jobs ∨
      List.Forall₂ RawJob.Reloads (change.apply manager.jobs) loaded.jobs)

/-- The process stops outside of the write; or what is written ends between two
characters, and one of the lists is empty. -/
def Spared (manager : JobSetManager) (change : Change) : Stop → Prop
  | .unopened => True
  | .written bytes =>
      (manager.content text change).length ≤ bytes ∨
        (fromUtf8 ((manager.content text change).take bytes)).isSome ∧
          (manager.jobs = [] ∨ change.apply manager.jobs = [])

variable {text}

/-- The text of a list is loaded as that list. -/
theorem reloads_new {jobs : List RawJob} (reads : text.Reads jobs) :
    List.Forall₂ RawJob.Reloads jobs
      (new text (some (text.render (jobs.map RawJob.toJson)))).1.jobs :=
  (restarts_of_stored reads.whole (stored_toJson jobs)).jobs

theorem jobs_new_of_unread {content : Str} (unread : text.parse content = none) :
    (new text (some content)).1.jobs = [] := by
  simp only [new, load, unread, Option.getD_none]
  rfl

/-- Before the file is truncated the old list is loaded. -/
theorem atomicSave_unopened {manager : JobSetManager} (change : Change)
    (holds : manager.FileHolds text) (reads : text.Reads manager.jobs) :
    AtomicSave text manager change .unopened := by
  rcases holds with file | ⟨absent, empty⟩
  · have started : newFromBytes text (manager.fileAt text change .unopened) =
        some (new text (some (text.render (manager.jobs.map RawJob.toJson)))) := by
      rw [fileAt, file, Option.map_some, newFromBytes, fromUtf8_utf8]
      rfl
    exact ⟨_, _, started, .inl (reloads_new reads)⟩
  · refine ⟨(new text none).1, (new text none).2, ?_, .inl ?_⟩
    · rw [fileAt, absent]
      rfl
    · rw [empty]
      exact .nil

/-- When all is written the new list is loaded. -/
theorem atomicSave_written {manager : JobSetManager} {change : Change} {bytes : Nat}
    (reads : text.Reads (change.apply manager.jobs))
    (all : (manager.content text change).length ≤ bytes) :
    AtomicSave text manager change (.written bytes) := by
  have started : newFromBytes text (manager.fileAt text change (.written bytes)) =
      some (new text (some (text.render ((change.apply manager.jobs).map RawJob.toJson)))) := by
    rw [fileAt, List.take_of_length_le all, newFromBytes, content, fromUtf8_utf8]
    rfl
  exact ⟨_, _, started, .inr (reloads_new reads)⟩

/-- From a part of the content that is a text, an empty list is loaded. -/
theorem newFromBytes_part {manager : JobSetManager} {change : Change} {bytes : Nat} {part : Str}
    (reads : text.Reads (change.apply manager.jobs))
    (torn : bytes < (manager.content text change).length)
    (read : fromUtf8 ((manager.content text change).take bytes) = some part) :
    newFromBytes text (manager.fileAt text change (.written bytes)) = some (new text (some part)) ∧
      (new text (some part)).1.jobs = [] := by
  obtain ⟨starts, proper⟩ := fromUtf8_take read
  refine ⟨?_, jobs_new_of_unread (reads.part starts (proper torn))⟩
  rw [fileAt, newFromBytes, read]
  rfl

end JobSetManager

open JobSetManager in
/-- **Which saves are atomic**: those where the process does not stop inside the
write, or one of the lists is empty. -/
theorem atomicSave_iff {text : JsonText} {manager : JobSetManager} {change : Change} (stop : Stop)
    (holds : manager.FileHolds text) (old : text.Reads manager.jobs)
    (new : text.Reads (change.apply manager.jobs)) :
    AtomicSave text manager change stop ↔ Spared text manager change stop := by
  cases stop with
  | unopened => exact iff_of_true (atomicSave_unopened change holds old) trivial
  | written bytes =>
      rcases Nat.lt_or_ge bytes (manager.content text change).length with torn | all
      · cases read : fromUtf8 ((manager.content text change).take bytes) with
        | none =>
            refine iff_of_false ?_ ?_
            · rintro ⟨loaded, sent, started, -⟩
              rw [fileAt, newFromBytes, read] at started
              cases started
            · rintro (all | ⟨valid, -⟩)
              · exact absurd torn (Nat.not_lt_of_le all)
              · rw [read] at valid
                cases valid
        | some part =>
            obtain ⟨started, nothing⟩ := newFromBytes_part new torn read
            constructor
            · rintro ⟨loaded, sent, here, lists⟩
              rw [started] at here
              obtain rfl : (JobSetManager.new text (some part)).1 = loaded :=
                congrArg Prod.fst (Option.some.inj here)
              rw [nothing, List.forall₂_nil_right_iff, List.forall₂_nil_right_iff] at lists
              exact .inr ⟨by rw [read]; rfl, lists⟩
            · rintro (all | ⟨-, empty⟩)
              · exact absurd torn (Nat.not_lt_of_le all)
              · refine ⟨(JobSetManager.new text (some part)).1, _, started, ?_⟩
                rw [nothing, List.forall₂_nil_right_iff, List.forall₂_nil_right_iff]
                exact empty
      · exact iff_of_true (atomicSave_written new all) (.inl all)

/-! ## A torn save -/

/-- A second job. -/
def uploadJob : RawJob := .upload ⟨"b".toList, none⟩

/-- The file with both jobs. -/
def twoJobsFile : Str :=
  ("[\x7b\"job\":\x7b\"crf\":30,\"id\":\"a\"\x7d,\"kind\":\"convert\"\x7d," ++
    "\x7b\"job\":\x7b\"id\":\"b\"\x7d,\"kind\":\"upload\"\x7d]").toList

/-- The texts of no job, the first and both. -/
def twoJobsText : JsonText where
  render
    | [] => "[]".toList
    | [_] => oneJobFile
    | _ => twoJobsFile
  parse content :=
    if content = "[]".toList then some []
    else if content = oneJobFile then some [oneJob.toJson]
    else if content = twoJobsFile then some [oneJob.toJson, uploadJob.toJson]
    else none

/-- A part of a text that is none of the three. -/
theorem parse_part {part content : Str} (starts : part <+: content) (proper : part ≠ content)
    (known : content = "[]".toList ∨ content = oneJobFile ∨ content = twoJobsFile) :
    twoJobsText.parse part = none := by
  have apart : ∀ other, other = "[]".toList ∨ other = oneJobFile ∨ other = twoJobsFile →
      other <+: content → other = content := by
    rintro other (rfl | rfl | rfl) <;> rcases known with rfl | rfl | rfl <;> decide
  have unknown : ∀ other, other = "[]".toList ∨ other = oneJobFile ∨ other = twoJobsFile →
      part ≠ other := by
    rintro other here rfl
    exact proper (apart part here starts)
  simp only [twoJobsText]
  rw [if_neg (unknown _ (.inl rfl)), if_neg (unknown _ (.inr (.inl rfl))),
    if_neg (unknown _ (.inr (.inr rfl)))]

theorem reads_none : twoJobsText.Reads [] :=
  ⟨rfl, fun starts proper => parse_part starts proper (.inl rfl)⟩

theorem reads_oneJob : twoJobsText.Reads [oneJob] :=
  ⟨rfl, fun starts proper => parse_part starts proper (.inr (.inl rfl))⟩

theorem reads_twoJobs : twoJobsText.Reads [oneJob, uploadJob] :=
  ⟨rfl, fun starts proper => parse_part starts proper (.inr (.inr rfl))⟩

theorem atomicSave_iff_firstJob :
    JobSetManager.AtomicSave twoJobsText ⟨none, []⟩ (.add oneJob) (.written 0) ↔
      JobSetManager.Spared twoJobsText ⟨none, []⟩ (.add oneJob) (.written 0) :=
  atomicSave_iff (.written 0) (.inr ⟨rfl, rfl⟩) reads_none reads_oneJob

/-- A process that stops when the file is truncated leaves an empty one, and the
next start has no jobs. -/
theorem truncated_file_loads_nothing :
    twoJobsText.Reads [oneJob] ∧ twoJobsText.Reads [oneJob, uploadJob] ∧
    JobSetManager.newFromBytes twoJobsText
      ((JobSetManager.save twoJobsText [oneJob]).fileAt twoJobsText (.add uploadJob) (.written 0)) =
        some (⟨some [], []⟩, []) ∧
    ¬ JobSetManager.AtomicSave twoJobsText (JobSetManager.save twoJobsText [oneJob])
      (.add uploadJob) (.written 0) := by
  have started : JobSetManager.newFromBytes twoJobsText
      ((JobSetManager.save twoJobsText [oneJob]).fileAt twoJobsText (.add uploadJob) (.written 0)) =
        some (⟨some [], []⟩, []) := rfl
  refine ⟨reads_oneJob, reads_twoJobs, started, ?_⟩
  rintro ⟨loaded, sent, here, lists⟩
  rw [started] at here
  cases here
  rcases lists with old | new
  · cases old
  · cases new

/-! ## Bad entries -/

namespace RawJob

/-- `SerdeAbleRawJob::from_json` accepts the entry. -/
def Accepted (value : Value) : Prop := ∃ job, fromJson value = .ok job

/-- The jobs of the entries that are accepted, in order. -/
def accepted (values : List Value) : List RawJob :=
  values.filterMap fun value => (fromJson value).toOption

theorem accepted_cons {value : Value} {job : RawJob} (read : fromJson value = .ok job)
    (values : List Value) : accepted (value :: values) = job :: accepted values := by
  rw [accepted, List.filterMap_cons_some (by rw [read]; rfl)]
  rfl

theorem accepted_eq_nil {values : List Value} :
    accepted values = [] ↔ ∀ value ∈ values, ¬ Accepted value := by
  rw [accepted, List.filterMap_eq_nil_iff]
  refine forall₂_congr fun value _ => ?_
  unfold Accepted
  cases fromJson value with
  | error failure => exact iff_of_true rfl nofun
  | ok job => exact iff_of_false nofun fun rejected => rejected ⟨job, rfl⟩

/-- All entries are accepted. -/
theorem mapM_of_accepted {values : List Value} (all : ∀ value ∈ values, Accepted value) :
    values.mapM fromJson = .ok (accepted values) := by
  induction values with
  | nil => rfl
  | cons value values ih =>
      obtain ⟨job, read⟩ := all value List.mem_cons_self
      rw [List.mapM_cons, read, ih fun other member => all other (List.mem_cons_of_mem _ member),
        accepted_cons read]
      rfl

/-- An entry that is rejected is an error of the whole. -/
theorem mapM_of_rejected {values : List Value} (bad : ∃ value ∈ values, ¬ Accepted value) :
    ∃ failure, values.mapM fromJson = .error failure := by
  induction values with
  | nil =>
      obtain ⟨_, member, _⟩ := bad
      cases member
  | cons value values ih =>
      rw [List.mapM_cons]
      cases read : fromJson value with
      | error failure => exact ⟨failure, rfl⟩
      | ok job =>
          have later : ∃ other ∈ values, ¬ Accepted other := by
            obtain ⟨other, member, rejected⟩ := bad
            rcases List.mem_cons.mp member with rfl | member
            · exact absurd ⟨job, read⟩ rejected
            · exact ⟨other, member, rejected⟩
          obtain ⟨failure, failed⟩ := ih later
          exact ⟨failure, by rw [failed]; rfl⟩

end RawJob

namespace JobSetManager

variable {text : JsonText} {content : Str} {values : List Value}

theorem load_of_accepted (parsed : text.parse content = some values)
    (all : ∀ value ∈ values, RawJob.Accepted value) :
    load text (some content) = RawJob.accepted values := by
  simp only [load, parsed, Option.getD_some, RawJob.mapM_of_accepted all]

theorem load_of_rejected (parsed : text.parse content = some values)
    (bad : ∃ value ∈ values, ¬ RawJob.Accepted value) : load text (some content) = [] := by
  obtain ⟨failure, failed⟩ := RawJob.mapM_of_rejected bad
  simp only [load, parsed, Option.getD_some, failed]

/-- The manager after a change. -/
def change (text : JsonText) (manager : JobSetManager) : Change → JobSetManager
  | .add job => manager.add text job
  | .remove id => manager.remove text id

theorem change_eq_save (manager : JobSetManager) (change : Change) :
    manager.change text change = save text (change.apply manager.jobs) := by
  cases change <;> rfl

end JobSetManager

/-- Every accepted entry is loaded and sent, in order, and is in the file after
the next change, unless it is the one that is changed. -/
structure KeepsAccepted (text : JsonText) (content : Str) (values : List Value) : Prop where
  loaded : (JobSetManager.new text (some content)).1.jobs = RawJob.accepted values
  sent : (JobSetManager.new text (some content)).2 = RawJob.accepted values
  saved : ∀ change : Change,
    ((JobSetManager.new text (some content)).1.change text change).file =
      some (text.render ((change.apply (RawJob.accepted values)).map RawJob.toJson))

/-- **What bad entries do**: the accepted entries are kept exactly when all
entries are accepted or none is. -/
theorem keepsAccepted_iff {text : JsonText} {content : Str} {values : List Value}
    (parsed : text.parse content = some values) :
    KeepsAccepted text content values ↔
      (∀ value ∈ values, RawJob.Accepted value) ∨ ∀ value ∈ values, ¬ RawJob.Accepted value := by
  have kept : JobSetManager.load text (some content) = RawJob.accepted values →
      KeepsAccepted text content values := by
    intro loaded
    refine ⟨loaded, loaded, fun change => ?_⟩
    rw [JobSetManager.change_eq_save, JobSetManager.new, loaded]
    rfl
  by_cases all : ∀ value ∈ values, RawJob.Accepted value
  · exact iff_of_true (kept (JobSetManager.load_of_accepted parsed all)) (.inl all)
  · have nothing : JobSetManager.load text (some content) = [] := by
      refine JobSetManager.load_of_rejected parsed ?_
      by_contra none
      exact all fun value member => by_contra fun rejected => none ⟨value, member, rejected⟩
    constructor
    · intro keeps
      have loaded : JobSetManager.load text (some content) = RawJob.accepted values := keeps.loaded
      exact .inr (RawJob.accepted_eq_nil.mp (loaded.symm.trans nothing))
    · rintro (accepted | rejected)
      · exact absurd accepted all
      · exact kept (nothing.trans (RawJob.accepted_eq_nil.mpr rejected).symm)

theorem keepsAccepted_iff_twoJobs :
    KeepsAccepted twoJobsText twoJobsFile [oneJob.toJson, uploadJob.toJson] ↔
      (∀ value ∈ [oneJob.toJson, uploadJob.toJson], RawJob.Accepted value) ∨
        ∀ value ∈ [oneJob.toJson, uploadJob.toJson], ¬ RawJob.Accepted value :=
  keepsAccepted_iff rfl

/-- An entry of an unknown kind. -/
def unknownEntry : Value :=
  ofFields [("job".toList, some (ofFields [])), ("kind".toList, some (.string "transcode".toList))]

/-- The file with a job and that entry. -/
def mixedFile : Str :=
  ("[\x7b\"job\":\x7b\"crf\":30,\"id\":\"a\"\x7d,\"kind\":\"convert\"\x7d," ++
    "\x7b\"job\":\x7b\x7d,\"kind\":\"transcode\"\x7d]").toList

def mixedText : JsonText where
  render := twoJobsText.render
  parse content := if content = mixedFile then some [oneJob.toJson, unknownEntry] else none

/-- The entry of an unknown kind discards the job, and adding another job takes it
from the file. -/
theorem bad_entry_discards_all :
    RawJob.fromJson unknownEntry = .error (.unsupportedKind "transcode".toList) ∧
    RawJob.fromJson oneJob.toJson = .ok oneJob.reloaded ∧
    (JobSetManager.new mixedText (some mixedFile)).2 = [] ∧
    ((JobSetManager.new mixedText (some mixedFile)).1.change mixedText (.add uploadJob)).file =
      some (mixedText.render [uploadJob.toJson]) ∧
    ¬ KeepsAccepted mixedText mixedFile [oneJob.toJson, unknownEntry] := by
  have sent : (JobSetManager.new mixedText (some mixedFile)).2 = [] := rfl
  refine ⟨rfl, RawJob.fromJson_toJson oneJob, sent, rfl, fun keeps => ?_⟩
  have accepted := keeps.sent
  rw [sent, RawJob.accepted_cons (RawJob.fromJson_toJson oneJob)] at accepted
  cases accepted

end VideoStorage.Jobs
