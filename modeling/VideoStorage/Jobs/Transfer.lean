import VideoStorage.Jobs.Convert

/-!
# Upload and migrate jobs

The jobs that move files: an upload job moves the output of a conversion to a
bucket, and a migrate job copies the files of a video from one bucket to another.
-/

set_option autoImplicit false

namespace VideoStorage.Jobs

open RustStd SerdeJson

/-! ## The storage manager -/

/-- An error and the errors below it. -/
abbrev ErrorChain := List Str

def withContext {α : Type} (context : Str) : Except ErrorChain α → Except ErrorChain α
  | .ok value => .ok value
  | .error cause => .error (context :: cause)

/-- Which backend is configured, and what building an operator for a bucket gives. -/
structure StorageManager where
  isS3 : Bool
  buildS3Operator : Str → Except ErrorChain Unit

def StorageManager.operatorForBucket (manager : StorageManager) (bucket : Str) :
    Except ErrorChain Unit :=
  if bucket.isEmpty || bucket.contains '/' then .error ["Invalid bucket name".toList]
  else if manager.isS3 then manager.buildS3Operator bucket
  else .error ["S3 operator requested but storage backend is not S3".toList]

/-! ## Upload jobs -/

structure UploadJob where
  id : Str
  dstBucket : Option Str
  deriving DecidableEq, Repr

/-- An upload job is tried again for ever. -/
instance : Job UploadJob where
  kind _ := .upload
  id := UploadJob.id
  needPermit _ := 1
  waitForRetry job := some (30, job)
  onFinalFailure job :=
    ⟨job.id, .upload, [.cleanup, .webhook "Upload job failed after all retries"]⟩

def UploadJob.fields (job : UploadJob) : List (Str × Option Value) :=
  [("id".toList, some (toValue job.id)), ("dst_bucket".toList, job.dstBucket.map toValue)]

instance : Serde UploadJob where
  toValue job := ofFields job.fields
  fromValue := readStruct do
    let id ← required "id".toList
    let dstBucket ← defaulted "dst_bucket".toList none
    return ⟨id, dstBucket⟩

instance : LawfulSerde UploadJob where
  fromValue_toValue job := by
    have id : required "id".toList (.members (members job.fields)) = some (job.id, _) :=
      required_eq (by simp [UploadJob.fields])
    have dstBucket : defaulted "dst_bucket".toList none (.members (members job.fields)) =
        some (job.dstBucket, _) := defaulted_option_eq (by simp [UploadJob.fields])
    refine readStruct_ofFields ?_
    rw [bind_eq id, bind_eq dstBucket]
    rfl
  toValue_ne_null _ := nofun

/-- `ConvertJob::next_job`: with an S3 backend the output is uploaded. -/
def ConvertJob.nextJob (job : ConvertJob) (isS3 : Bool) : Option UploadJob :=
  if isS3 then some ⟨job.id, job.dstBucket⟩ else none

/-! ## Migrate jobs -/

structure MigrateJob where
  id : Str
  srcBucket : Str
  dstBucket : Str
  widths : List UInt16
  retryTimes : UInt8
  deriving DecidableEq, Repr

namespace MigrateJob

/-- `MigrateJob::new`. -/
def new (id srcBucket dstBucket : Str) (widths : List UInt16) : MigrateJob :=
  ⟨id, srcBucket, dstBucket, widths, 0⟩

/-- `MAX_RETRIES`. -/
def maxRetries : UInt8 := 5

def fields (job : MigrateJob) : List (Str × Option Value) :=
  [("id".toList, some (toValue job.id)), ("src_bucket".toList, some (toValue job.srcBucket)),
    ("dst_bucket".toList, some (toValue job.dstBucket)),
    ("widths".toList, if job.widths.isEmpty then none else some (toValue job.widths))]

/-- The job as it is read back. -/
def reloaded (job : MigrateJob) : MigrateJob := { job with retryTimes := 0 }

end MigrateJob

instance : Job MigrateJob where
  kind _ := .migrate
  id := MigrateJob.id
  needPermit _ := 1
  waitForRetry job :=
    if job.retryTimes < MigrateJob.maxRetries then
      some (30, { job with retryTimes := job.retryTimes + 1 })
    else none
  onFinalFailure job := ⟨job.id, .migrate, []⟩

instance : Serde MigrateJob where
  toValue job := ofFields job.fields
  fromValue := readStruct do
    let id ← required "id".toList
    let srcBucket ← required "src_bucket".toList
    let dstBucket ← required "dst_bucket".toList
    let widths ← defaulted "widths".toList []
    return ⟨id, srcBucket, dstBucket, widths, 0⟩

theorem fromValue_toValue_migrateJob (job : MigrateJob) :
    fromValue (toValue job) = some job.reloaded := by
  have id : required "id".toList (.members (members job.fields)) = some (job.id, _) :=
    required_eq (by simp [MigrateJob.fields])
  have srcBucket : required "src_bucket".toList (.members (members job.fields)) =
      some (job.srcBucket, _) := required_eq (by simp [MigrateJob.fields])
  have dstBucket : required "dst_bucket".toList (.members (members job.fields)) =
      some (job.dstBucket, _) := required_eq (by simp [MigrateJob.fields])
  have stored : defaulted "widths".toList [] (.members (members job.fields)) =
      some (if job.widths.isEmpty then [] else job.widths, _) :=
    defaulted_eq (by simp [MigrateJob.fields]) []
  have widths : (if job.widths.isEmpty then [] else job.widths) = job.widths := by
    cases job.widths <;> rfl
  refine readStruct_ofFields ?_
  rw [bind_eq id, bind_eq srcBucket, bind_eq dstBucket, bind_eq stored, widths]
  rfl

end VideoStorage.Jobs
