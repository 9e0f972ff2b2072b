import VideoStorage.Library.Str

/-!
# Jobs

What the job queue knows of a job: its kind and id, the permits it needs, how
long to wait before it is tried again, and what to do when it has finally failed.
-/

set_option autoImplicit false

namespace VideoStorage.Jobs

open RustStd

inductive JobKind where
  | upload
  | convert
  | migrate
  deriving DecidableEq, Repr

namespace JobKind

/-- `UPLOAD_KIND`, `CONVERT_KIND`, `MIGRATE_KIND`. -/
def name : JobKind → Str
  | upload => "upload".toList
  | convert => "convert".toList
  | migrate => "migrate".toList

def ofName (name : Str) : Option JobKind :=
  if name = convert.name then some convert
  else if name = upload.name then some upload
  else if name = migrate.name then some migrate
  else none

@[simp] theorem ofName_name (kind : JobKind) : ofName kind.name = some kind := by
  cases kind <;> rfl

end JobKind

inductive Action where
  | silent
  | cleanup
  | webhook (message : String)
  deriving DecidableEq, Repr

/-- What is done for a job that has finally failed. -/
structure FailureJob where
  jobId : Str
  kind : JobKind
  actions : List Action
  deriving DecidableEq, Repr

/-- The trait `Job`. -/
class Job (J : Type) where
  kind : J → JobKind
  id : J → Str
  needPermit : J → Nat
  /-- The seconds to wait before the job is tried again, and the job with its
  retry counted. -/
  waitForRetry : J → Option (Nat × J)
  onFinalFailure : J → FailureJob

end VideoStorage.Jobs
