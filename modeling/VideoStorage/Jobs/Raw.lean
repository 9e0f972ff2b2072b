import VideoStorage.Jobs.Transfer

/-!
# Jobs of any kind, and how they are stored

A stored job is an object with the name of its kind and its payload. Older files
hold the bare payload of a convert or an upload job, told apart by the field
`crf`.
-/

set_option autoImplicit false

namespace VideoStorage.Jobs

open RustStd SerdeJson

/-- A job of one of the three kinds. -/
inductive RawJob where
  | convert (job : ConvertJob)
  | upload (job : UploadJob)
  | migrate (job : MigrateJob)
  deriving DecidableEq, Repr

instance : Job RawJob where
  kind
    | .convert job => Job.kind job
    | .upload job => Job.kind job
    | .migrate job => Job.kind job
  id
    | .convert job => Job.id job
    | .upload job => Job.id job
    | .migrate job => Job.id job
  needPermit
    | .convert job => Job.needPermit job
    | .upload job => Job.needPermit job
    | .migrate job => Job.needPermit job
  waitForRetry
    | .convert job => (Job.waitForRetry job).map fun (wait, job) => (wait, .convert job)
    | .upload job => (Job.waitForRetry job).map fun (wait, job) => (wait, .upload job)
    | .migrate job => (Job.waitForRetry job).map fun (wait, job) => (wait, .migrate job)
  onFinalFailure
    | .convert job => Job.onFinalFailure job
    | .upload job => Job.onFinalFailure job
    | .migrate job => Job.onFinalFailure job

namespace RawJob

/-- `RawJob::next_job`. -/
def nextJob (isS3 : Bool) : RawJob → Option RawJob
  | .convert job => (job.nextJob isS3).map .upload
  | .upload _ | .migrate _ => none

theorem id_nextJob {isS3 : Bool} {job next : RawJob} (follows : job.nextJob isS3 = some next) :
    Job.id next = Job.id job := by
  cases job with
  | convert job =>
      cases isS3 with
      | true => cases follows; rfl
      | false => cases follows
  | upload job => cases follows
  | migrate job => cases follows

theorem id_waitForRetry {job again : RawJob} {wait : Nat}
    (retried : Job.waitForRetry job = some (wait, again)) : Job.id again = Job.id job := by
  cases job with
  | convert job =>
      simp only [Job.waitForRetry] at retried
      split at retried <;> cases retried
      rfl
  | upload job => cases retried; rfl
  | migrate job =>
      simp only [Job.waitForRetry] at retried
      split at retried <;> cases retried
      rfl

/-! ## Storing -/

/-- `SerdeAbleRawJob::payload_json`. -/
def payloadJson : RawJob → Value
  | .convert job => toValue job
  | .upload job => toValue job
  | .migrate job => toValue job

/-- `SerdeAbleRawJob::to_json`. -/
def toJson (job : RawJob) : Value :=
  ofFields [("kind".toList, some (.string (Job.kind job).name)),
    ("job".toList, some job.payloadJson)]

/-- Why a stored job is not read. -/
inductive StoredJobError where
  /-- "stored job payload missing `job` field" -/
  | missingPayload
  /-- "unsupported job kind `{kind}`" -/
  | unsupportedKind (kind : Str)
  /-- An error of the derived conversion. -/
  | payload
  deriving DecidableEq, Repr

/-- The derived conversion of a payload, with its error. -/
def readPayload {J : Type} [Serde J] (payload : Value) : Except StoredJobError J :=
  (fromValue payload).elim (.error .payload) .ok

theorem readPayload_eq {J : Type} [Serde J] {payload : Value} {job : J}
    (read : fromValue payload = some job) : readPayload payload = .ok job := by
  rw [readPayload, read]
  rfl

/-- `SerdeAbleRawJob::from_kind_and_payload`. -/
def fromKindAndPayload (kind : Str) (payload : Value) : Except StoredJobError RawJob :=
  match JobKind.ofName kind with
  | some .convert => (readPayload payload).map .convert
  | some .upload => (readPayload payload).map .upload
  | some .migrate => (readPayload payload).map .migrate
  | none => .error (.unsupportedKind kind)

/-- `SerdeAbleRawJob::from_legacy_json`. -/
def fromLegacyJson (value : Value) : Except StoredJobError RawJob :=
  if (value.get "crf".toList).isSome then (readPayload value).map .convert
  else (readPayload value).map .upload

/-- `SerdeAbleRawJob::from_json`. -/
def fromJson (value : Value) : Except StoredJobError RawJob :=
  match (value.get "kind".toList).bind Value.asStr with
  | some kind =>
      match value.get "job".toList with
      | some payload => fromKindAndPayload kind payload
      | none => .error .missingPayload
  | none => fromLegacyJson value

/-- The job as it is read back. -/
def reloaded : RawJob → RawJob
  | .convert job => .convert job.reloaded
  | .upload job => .upload job
  | .migrate job => .migrate job.reloaded

theorem fromKindAndPayload_payloadJson (job : RawJob) :
    fromKindAndPayload (Job.kind job).name job.payloadJson = .ok job.reloaded := by
  unfold fromKindAndPayload
  rw [JobKind.ofName_name]
  cases job with
  | convert job =>
      exact congrArg (Except.map RawJob.convert) (readPayload_eq (fromValue_toValue_convertJob job))
  | upload job => exact congrArg (Except.map RawJob.upload) (readPayload_eq (fromValue_toValue job))
  | migrate job =>
      exact congrArg (Except.map RawJob.migrate) (readPayload_eq (fromValue_toValue_migrateJob job))

/-- A stored job is read back. -/
theorem fromJson_toJson (job : RawJob) : fromJson job.toJson = .ok job.reloaded := by
  have kind : job.toJson.get "kind".toList = some (.string (Job.kind job).name) := by
    simp [toJson]
  have payload : job.toJson.get "job".toList = some job.payloadJson := by simp [toJson]
  unfold fromJson
  rw [kind, payload]
  exact fromKindAndPayload_payloadJson job

/-- A bare payload of a convert or an upload job is read back. -/
theorem fromJson_payloadJson {job : RawJob} (legacy : Job.kind job ≠ .migrate) :
    fromJson job.payloadJson = .ok job.reloaded := by
  unfold fromJson
  cases job with
  | convert job =>
      have untagged : (toValue job).get "kind".toList = none := by
        simp [toValue, ConvertJob.fields]
      have crf : ((toValue job).get "crf".toList).isSome = true := by
        simp [toValue, ConvertJob.fields]
      simp only [payloadJson]
      rw [untagged, Option.bind_none]
      simp only [fromLegacyJson, crf, if_true]
      exact congrArg (Except.map RawJob.convert) (readPayload_eq (fromValue_toValue_convertJob job))
  | upload job =>
      have untagged : (toValue job).get "kind".toList = none := by
        simp [toValue, UploadJob.fields]
      have crf : ((toValue job).get "crf".toList).isSome = false := by
        simp [toValue, UploadJob.fields]
      simp only [payloadJson]
      rw [untagged, Option.bind_none]
      simp only [fromLegacyJson, crf, Bool.false_eq_true, if_false]
      exact congrArg (Except.map RawJob.upload) (readPayload_eq (fromValue_toValue job))
  | migrate job => exact absurd rfl legacy

/-- An array is read field by field as an upload job, and a codec is read as a map, too. -/
example : fromJson (.array [.string "a".toList]) = .ok (.upload ⟨"a".toList, none⟩) ∧
    (fromValue (.object [("vp9".toList, .null)]) : Option ConvertCodec) = some .vp9 := ⟨rfl, rfl⟩

end RawJob

end VideoStorage.Jobs
