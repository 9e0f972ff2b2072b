import Mathlib.Data.List.Nodup
import VideoStorage.Library.TransitionSystem
import VideoStorage.Jobs.Raw

/-!
# The pending set

`JobSetManager` keeps the jobs that are not finished, in memory and in a file
that is rewritten at every change. A restart reads the file and puts every job
into the channel again.

**Restart fidelity.** In every run of additions, removals and restarts the ids
are distinct and the file holds the list, and a restart brings back the same jobs
in the same order, with their retry counters reset (`restart_fidelity`). Of the
JSON text we assume only that it is read back as it was written.
-/

set_option autoImplicit false

namespace VideoStorage.Jobs

open RustStd SerdeJson TransitionSystem

/-! ## The list -/

section List

variable {J : Type} [Job J]

/-- The list after `JobSetManager::add`: a job of the same id is replaced. -/
def addJob (jobs : List J) (job : J) : List J :=
  jobs.filter (fun j => Job.id j ≠ Job.id job) ++ [job]

/-- The list after `JobSetManager::remove`. -/
def removeJob (jobs : List J) (id : Str) : List J := jobs.filter fun j => Job.id j ≠ id

/-- The ids are pairwise distinct. -/
def DistinctIds (jobs : List J) : Prop := (jobs.map Job.id).Nodup

@[simp] theorem mem_addJob {jobs : List J} {job j : J} :
    j ∈ addJob jobs job ↔ j ∈ jobs ∧ Job.id j ≠ Job.id job ∨ j = job := by
  simp [addJob]

@[simp] theorem mem_removeJob {jobs : List J} {id : Str} {j : J} :
    j ∈ removeJob jobs id ↔ j ∈ jobs ∧ Job.id j ≠ id := by
  simp [removeJob]

theorem distinctIds_removeJob {jobs : List J} (distinct : DistinctIds jobs) (id : Str) :
    DistinctIds (removeJob jobs id) :=
  distinct.sublist (List.filter_sublist.map _)

theorem distinctIds_addJob {jobs : List J} (distinct : DistinctIds jobs) (job : J) :
    DistinctIds (addJob jobs job) := by
  have kept := distinctIds_removeJob distinct (Job.id job)
  unfold DistinctIds addJob
  rw [List.map_append, List.map_singleton, List.nodup_append]
  refine ⟨kept, List.nodup_singleton _, ?_⟩
  rintro _ member _ here rfl
  obtain ⟨j, inside, same⟩ := List.mem_map.mp member
  rw [List.mem_singleton.mp here] at same
  exact (mem_removeJob.mp inside).2 same

end List

/-! ## The file -/

/-- Writing a JSON array to text and reading it. -/
structure JsonText where
  render : List Value → Str
  parse : Str → Option (List Value)

/-- The list in memory, and the content of the file of pending jobs. -/
structure JobSetManager where
  file : Option Str
  jobs : List RawJob

namespace JobSetManager

variable (text : JsonText)

/-- `JobSetManager::save`, when writing the file succeeds. -/
def save (jobs : List RawJob) : JobSetManager where
  file := some (text.render (jobs.map RawJob.toJson))
  jobs := jobs

/-- `JobSetManager::add`. -/
def add (manager : JobSetManager) (job : RawJob) : JobSetManager := save text (addJob manager.jobs job)

/-- `JobSetManager::remove`. -/
def remove (manager : JobSetManager) (id : Str) : JobSetManager :=
  save text (removeJob manager.jobs id)

/-- The jobs read from the file. A text that is not an array, and a job that
cannot be read, make it an empty list. -/
def load (file : Option Str) : List RawJob :=
  match file with
  | some content =>
      match ((text.parse content).getD []).mapM RawJob.fromJson with
      | .ok jobs => jobs
      | .error _ => []
  | none => []

/-- `JobSetManager::new`: the manager, and what it sends to the channel. -/
def new (file : Option Str) : JobSetManager × List RawJob :=
  let jobs := load text file
  (⟨file, jobs⟩, jobs)

end JobSetManager

/-! ## What a restart brings back -/

/-- A convert job is read back with its effective lists. -/
structure ConvertJob.Reloads (job job' : ConvertJob) : Prop where
  id : job'.id = job.id
  crf : job'.crf = job.crf
  dstBucket : job'.dstBucket = job.dstBucket
  scales : job'.scales.deref = job.scales.deref
  codecs : job'.codecs.deref = job.codecs.deref
  retryTimes : job'.retryTimes = 0

namespace RawJob

/-- The fields of a job are read back. -/
def SameFields : RawJob → RawJob → Prop
  | .convert job, .convert job' => job.Reloads job'
  | .upload job, .upload job' => job' = job
  | .migrate job, .migrate job' => job' = { job with retryTimes := 0 }
  | _, _ => False

/-- A job is read back as the same job. -/
structure Reloads (job job' : RawJob) : Prop where
  kind : Job.kind job' = Job.kind job
  id : Job.id job' = Job.id job
  needPermit : Job.needPermit job' = Job.needPermit job
  fields : job.SameFields job'

theorem reloads_reloaded (job : RawJob) : job.Reloads job.reloaded := by
  cases job with
  | convert job =>
      exact ⟨rfl, rfl, job.needPermit_reloaded,
        ⟨rfl, rfl, rfl, job.deref_scales_reloaded, job.deref_codecs_reloaded, rfl⟩⟩
  | upload job => exact ⟨rfl, rfl, rfl, rfl⟩
  | migrate job => exact ⟨rfl, rfl, rfl, rfl⟩

/-- A stored value of a job: the tagged one, or the bare payload of a convert or
an upload job. -/
def Stored (job : RawJob) (value : Value) : Prop :=
  value = job.toJson ∨ value = job.payloadJson ∧ Job.kind job ≠ .migrate

theorem fromJson_of_stored {job : RawJob} {value : Value} (stored : job.Stored value) :
    fromJson value = .ok job.reloaded := by
  rcases stored with rfl | ⟨rfl, legacy⟩
  · exact fromJson_toJson job
  · exact fromJson_payloadJson legacy

theorem mapM_fromJson {jobs : List RawJob} {values : List Value}
    (stored : List.Forall₂ Stored jobs values) :
    values.mapM fromJson = .ok (jobs.map reloaded) := by
  induction stored with
  | nil => rfl
  | cons here _ ih => rw [List.mapM_cons, fromJson_of_stored here, ih]; rfl

/-- A job that is read back is stored the same. -/
theorem toJson_reloaded (job : RawJob) : job.reloaded.toJson = job.toJson := by
  cases job with
  | convert job =>
      have fields : job.reloaded.fields = job.fields := by
        cases scales : job.scales.skipSerialize <;> cases codecs : job.codecs.skipSerialize <;>
          simp [ConvertJob.fields, ConvertJob.reloaded, scales, codecs] <;> decide
      simp only [toJson, reloaded, payloadJson, toValue, fields]
      rfl
  | upload job => rfl
  | migrate job => rfl

end RawJob

/-- A file that holds these jobs is read back: the manager has the same jobs in
the same order, and each is sent to the channel once. -/
structure Restarts (text : JsonText) (file : Option Str) (jobs : List RawJob) : Prop where
  unchanged : (JobSetManager.new text file).1.file = file
  jobs : List.Forall₂ RawJob.Reloads jobs (JobSetManager.new text file).1.jobs
  sent : (JobSetManager.new text file).2 = (JobSetManager.new text file).1.jobs

/-! ## Runs -/

inductive ManagerAction where
  | add (job : RawJob)
  | remove (id : Str)
  | restart

namespace JobSetManager

def step (text : JsonText) : TransitionSystem JobSetManager ManagerAction
  | manager, .add job => some (manager.add text job)
  | manager, .remove id => some (manager.remove text id)
  | manager, .restart => some (new text manager.file).1

/-- A manager on an empty workspace. -/
def fresh (text : JsonText) : JobSetManager := (new text none).1

/-- The stored jobs are read back from their text. -/
def ReadsBack (text : JsonText) (manager : JobSetManager) : Prop :=
  text.parse (text.render (manager.jobs.map RawJob.toJson)) =
    some (manager.jobs.map RawJob.toJson)

open Classical in
/-- A restart reads the text back. -/
noncomputable def readsBack (text : JsonText) (manager : JobSetManager) : ManagerAction → Bool
  | .restart => decide (ReadsBack text manager)
  | _ => true

theorem reads_of_allowed {text : JsonText} {manager : JobSetManager}
    (allowed : readsBack text manager .restart = true) : manager.ReadsBack text :=
  @of_decide_eq_true _ (Classical.propDecidable _) allowed

/-- The file holds the list; before the first change there is none. -/
def FileHolds (text : JsonText) (manager : JobSetManager) : Prop :=
  manager.file = some (text.render (manager.jobs.map RawJob.toJson)) ∨
    manager.file = none ∧ manager.jobs = []

structure Consistent (text : JsonText) (manager : JobSetManager) : Prop where
  distinct : DistinctIds manager.jobs
  file : FileHolds text manager

variable {text}

theorem load_of_stored {content : Str} {jobs : List RawJob} {values : List Value}
    (parsed : text.parse content = some values) (stored : List.Forall₂ RawJob.Stored jobs values) :
    load text (some content) = jobs.map RawJob.reloaded := by
  simp only [load, parsed, Option.getD_some, RawJob.mapM_fromJson stored]

theorem restarts_of_stored {content : Str} {jobs : List RawJob} {values : List Value}
    (parsed : text.parse content = some values) (stored : List.Forall₂ RawJob.Stored jobs values) :
    Restarts text (some content) jobs where
  unchanged := rfl
  jobs := by
    rw [new, load_of_stored parsed stored]
    exact List.forall₂_map_right_iff.mpr (List.forall₂_same.mpr fun job _ => job.reloads_reloaded)
  sent := rfl

theorem stored_toJson (jobs : List RawJob) :
    List.Forall₂ RawJob.Stored jobs (jobs.map RawJob.toJson) :=
  List.forall₂_map_right_iff.mpr (List.forall₂_same.mpr fun _ _ => .inl rfl)

/-- What a restart reads from the file of a consistent manager. -/
theorem load_file {manager : JobSetManager} (consistent : manager.Consistent text)
    (reads : manager.ReadsBack text) :
    load text manager.file = manager.jobs.map RawJob.reloaded := by
  rcases consistent.file with holds | ⟨absent, empty⟩
  · rw [holds]
    exact load_of_stored reads (stored_toJson manager.jobs)
  · rw [absent, empty]
    rfl

theorem consistent_save {jobs : List RawJob} (distinct : DistinctIds jobs) :
    (save text jobs).Consistent text :=
  ⟨distinct, .inl rfl⟩

theorem consistent_restart {manager : JobSetManager} (consistent : manager.Consistent text)
    (reads : manager.ReadsBack text) : (new text manager.file).1.Consistent text := by
  have loaded := load_file consistent reads
  have ids : (manager.jobs.map RawJob.reloaded).map Job.id = manager.jobs.map Job.id := by
    rw [List.map_map]
    exact List.map_congr_left fun job _ => job.reloads_reloaded.id
  have values : (manager.jobs.map RawJob.reloaded).map RawJob.toJson =
      manager.jobs.map RawJob.toJson := by
    rw [List.map_map]
    exact List.map_congr_left fun job _ => job.toJson_reloaded
  unfold new
  rw [loaded]
  refine ⟨?_, ?_⟩
  · rw [DistinctIds, ids]
    exact consistent.distinct
  · rcases consistent.file with holds | ⟨absent, empty⟩
    · rw [FileHolds, values]
      exact .inl holds
    · exact .inr ⟨absent, by rw [empty]; rfl⟩

theorem consistent_step {manager manager' : JobSetManager} {action : ManagerAction}
    (consistent : manager.Consistent text) (allowed : readsBack text manager action = true)
    (moved : step text manager action = some manager') : manager'.Consistent text := by
  cases action with
  | add job =>
      cases moved
      exact consistent_save (distinctIds_addJob consistent.distinct job)
  | remove id =>
      cases moved
      exact consistent_save (distinctIds_removeJob consistent.distinct id)
  | restart =>
      cases moved
      exact consistent_restart consistent (reads_of_allowed allowed)

end JobSetManager

/-- What holds of the pending set: distinct ids, a file that holds the list, and
a restart that brings the list back. A file of bare payloads restarts as well. -/
structure RestartFidelity (text : JsonText) (manager : JobSetManager) : Prop where
  distinct : DistinctIds manager.jobs
  file : manager.FileHolds text
  restarts : manager.ReadsBack text → Restarts text manager.file manager.jobs
  legacy : ∀ {content jobs values}, text.parse content = some values →
    List.Forall₂ RawJob.Stored jobs values → Restarts text (some content) jobs

open JobSetManager in
/-- **Restart fidelity**, after any run of additions, removals and restarts. -/
theorem restart_fidelity {text : JsonText} {manager : JobSetManager}
    (run : Run (step text) (readsBack text) (fresh text) manager) :
    RestartFidelity text manager := by
  have start : (fresh text).Consistent text := ⟨List.nodup_nil, .inr ⟨rfl, rfl⟩⟩
  have consistent := Run.invariant run start consistent_step
  refine ⟨consistent.distinct, consistent.file, fun reads => ?_, restarts_of_stored⟩
  rcases consistent.file with holds | ⟨absent, empty⟩
  · rw [holds]
    exact restarts_of_stored reads (stored_toJson manager.jobs)
  · rw [absent, empty]
    exact ⟨rfl, .nil, rfl⟩

/-- A convert job with default codecs, no scales of its own and some retries. -/
def oneJob : RawJob := .convert ⟨"a".toList, 30, none, ⟨[]⟩, .new, 3⟩

/-- The file with that job. -/
def oneJobFile : Str :=
  "[\x7b\"job\":\x7b\"crf\":30,\"id\":\"a\"\x7d,\"kind\":\"convert\"\x7d]".toList

/-- The text of the array with that job, and of nothing else. -/
def oneJobText : JsonText where
  render _ := oneJobFile
  parse content := if content = oneJobFile then some [oneJob.toJson] else none

theorem restart_fidelity_oneJob :
    RestartFidelity oneJobText ⟨some oneJobFile, [oneJob.reloaded]⟩ ∧
      Restarts oneJobText (some oneJobFile) [oneJob] := by
  have added : Run (JobSetManager.step oneJobText) (JobSetManager.readsBack oneJobText)
      (JobSetManager.fresh oneJobText) (JobSetManager.save oneJobText [oneJob]) :=
    .tail .refl ⟨.add oneJob, rfl, rfl⟩
  have reads : (JobSetManager.save oneJobText [oneJob]).ReadsBack oneJobText := rfl
  have restarted := added.tail ⟨.restart, @decide_eq_true _ (Classical.propDecidable _) reads, rfl⟩
  exact ⟨restart_fidelity restarted, (restart_fidelity added).restarts reads⟩

end VideoStorage.Jobs
