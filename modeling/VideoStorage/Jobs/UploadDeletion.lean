import VideoStorage.Jobs.UploadReturns

/-!
# Deleting what was uploaded

`UploadJob::gen_job` uploads the output directory of a job to its bucket and removes
the directory behind that. Whatever fails, and in whatever order the steps come, the
directory is as it was unless the upload returned without an error, and then every
file of it is in the bucket (`deletes_only_uploaded`).
-/

set_option autoImplicit false

namespace VideoStorage.Jobs

open RustStd Str Path Api DirectoryTree TransitionSystem

/-! ## The job -/

/-- The bucket that an upload job writes to. -/
def UploadJob.checkBucket (job : UploadJob) : Except ErrorChain Str :=
  match job.dstBucket.filter fun bucket => !bucket.isEmpty with
  | none =>
      .error ["dst_bucket is required for upload job when storage backend is S3".toList]
  | some dstBucket =>
      if dstBucket.contains '/' then .error ["Invalid dst_bucket: contains '/'".toList]
      else if isPureAsciiDigits dstBucket then
        .error ["Invalid dst_bucket: numeric-only bucket is not allowed".toList]
      else .ok dstBucket

def UploadJob.videoPath (job : UploadJob) (workspace : Str) : Str :=
  join (videosDir workspace) job.id

/-- What the job returns before the upload, when it comes to that. With local storage
there is nothing to upload. -/
def UploadJob.returnsEarly (job : UploadJob) (manager : StorageManager) :
    Option (Except ErrorChain Unit) :=
  if manager.isS3 then
    match job.checkBucket with
    | .error error => some (.error error)
    | .ok dstBucket =>
        match manager.operatorForBucket dstBucket with
        | .error error => some (.error error)
        | .ok () => none
  else some (.ok ())

/-- The upload of the output directory of a job. -/
def UploadJob.call (job : UploadJob) (workspace : Str) (tree : FileTree) : UploadCall :=
  ⟨job.videoPath workspace, "videos".toList, 8, tree⟩

/-- A run of `gen_job`: the upload, what the job returned, and the output directory. -/
structure UploadJobRun where
  upload : TreeUpload
  result : Option (Except ErrorChain Unit)
  directory : Option FileTree
  deriving DecidableEq

inductive UploadJobAction where
  | upload (action : UploadAction)
  /-- The job returns. When it removes the directory, this is what is left of it: errors
  are ignored. -/
  | finish (left : Option FileTree)

namespace UploadJobRun

def start (job : UploadJob) (manager : StorageManager) (tree : FileTree) : UploadJobRun :=
  ⟨.start, job.returnsEarly manager, some tree⟩

/-- The upload has returned. -/
def finish (s : UploadJobRun) (left : Option FileTree) : Except ErrorChain Unit → UploadJobRun
  | .ok () => { s with result := some (.ok ()), directory := left }
  | .error error => { s with result := some (.error error) }

def step (call : UploadCall) : TransitionSystem UploadJobRun UploadJobAction
  | s, .upload action =>
      if s.result.isNone then
        (TreeUpload.step call s.upload action).map fun upload => { s with upload }
      else none
  | s, .finish left => if s.result.isNone then s.upload.returned.map (s.finish left) else none

end UploadJobRun

/-- The steps of the upload among those of the job. -/
def UploadJobAction.uploadAction : UploadJobAction → Option UploadAction
  | upload action => some action
  | finish _ => none

def uploadActions (actions : List UploadJobAction) : List UploadAction :=
  actions.filterMap UploadJobAction.uploadAction

/-! ## Deletion -/

/-- The directory is touched only when no request of the upload failed and all its files
are uploaded. -/
structure DeletesUploaded (call : UploadCall) (actions : List UploadJobAction)
    (s : UploadJobRun) : Prop where
  uploaded : s.directory ≠ some call.tree → s.result = some (.ok ()) ∧
    (∀ action ∈ uploadActions actions, action.failed = false) ∧ AllUploaded call s.upload
  untouched : ∀ error, s.result = some (.error error) → s.directory = some call.tree

/-- What holds of a run of the job. -/
structure UploadJobInv (call : UploadCall) (past : List UploadJobAction) (s : UploadJobRun) :
    Prop where
  upload : UploadInv call (uploadActions past) s.upload
  directory : s.directory = some call.tree ∨
    s.result = some (.ok ()) ∧ s.upload.returned = some (.ok ())

theorem uploadActions_concat (past : List UploadJobAction) (action : UploadJobAction) :
    uploadActions (past ++ [action]) = uploadActions past ++ action.uploadAction.toList := by
  rw [uploadActions, List.filterMap_append]
  cases action <;> rfl

section Runs

variable {call : UploadCall} {past : List UploadJobAction} {s t : UploadJobRun}

theorem UploadJobInv.step (valid : call.Valid) (inv : UploadJobInv call past s)
    {action : UploadJobAction} (moved : UploadJobRun.step call s action = some t) :
    UploadJobInv call (past ++ [action]) t := by
  -- As long as the job has not returned, the directory is there.
  have waiting : s.result.isNone = true → s.directory = some call.tree := by
    intro none
    refine inv.directory.resolve_right fun done => ?_
    rw [done.1] at none
    cases none
  cases action with
  | upload action =>
      change (if s.result.isNone then _ else _) = _ at moved
      split at moved
      · rename_i none
        obtain ⟨upload, uploaded, rfl⟩ := Option.map_eq_some_iff.mp moved
        refine ⟨?_, .inl (waiting none)⟩
        rw [uploadActions_concat]
        exact inv.upload.step valid uploaded
      · cases moved
  | finish left =>
      change (if s.result.isNone then _ else _) = _ at moved
      split at moved
      · rename_i none
        obtain ⟨result, returned, rfl⟩ := Option.map_eq_some_iff.mp moved
        have upload : UploadInv call (uploadActions (past ++ [.finish left])) s.upload := by
          rw [uploadActions_concat, UploadJobAction.uploadAction, Option.toList_none,
            List.append_nil]
          exact inv.upload
        cases result with
        | ok _ => exact ⟨upload, .inr ⟨rfl, returned⟩⟩
        | error error => exact ⟨upload, .inl (waiting none)⟩
      · cases moved

theorem UploadJobInv.deletesUploaded (valid : call.Valid) (inv : UploadJobInv call past s) :
    DeletesUploaded call past s := by
  constructor
  · intro touched
    obtain ⟨ok, returned⟩ := inv.directory.resolve_left touched
    have success := (inv.upload.returned returned).2.2.mp rfl
    exact ⟨ok, failures_eq_zero.mp success, inv.upload.allUploaded valid returned⟩
  · intro error failed
    refine inv.directory.resolve_right fun done => ?_
    rw [done.1] at failed
    cases failed

end Runs

/-- **Local output is deleted only after a complete upload.** An upload of a directory
tree returns, without an error exactly when no request failed, and then every file is
in the bucket; a job removes its directory in that case only. -/
theorem deletes_only_uploaded {tree : FileTree} (valid : tree.Valid EntryName) :
    (∀ localRoot remotePrefix concurrency, localRoot ≠ [] →
      Inevitable (TreeUpload.step ⟨localRoot, remotePrefix, concurrency, tree⟩) anything
          (fun s => s.returned ≠ none) .start ∧
        ∀ actions s, exec (TreeUpload.step ⟨localRoot, remotePrefix, concurrency, tree⟩) anything
            .start actions = some s →
          UploadsAll ⟨localRoot, remotePrefix, concurrency, tree⟩ actions s) ∧
    ∀ (job : UploadJob) (manager : StorageManager) (workspace : Str) (actions s),
      exec (UploadJobRun.step (job.call workspace tree)) anything (.start job manager tree)
          actions = some s →
        DeletesUploaded (job.call workspace tree) actions s := by
  constructor
  · intro localRoot remotePrefix concurrency rooted
    have call : UploadCall.Valid ⟨localRoot, remotePrefix, concurrency, tree⟩ := ⟨rooted, valid⟩
    exact ⟨upload_returns call, fun actions s ran => uploadsAll call ran⟩
  · intro job manager workspace actions s ran
    have call : (job.call workspace tree).Valid :=
      ⟨join_ne_nil (videosDir_ne_nil workspace), valid⟩
    have start : UploadJobInv (job.call workspace tree) [] (.start job manager tree) :=
      ⟨uploadInv_start _, .inl rfl⟩
    exact (exec_invariant ran start fun inv _ moved => inv.step call moved).deletesUploaded call

/-- A master playlist, and a playlist and a segment below the directory of a width. -/
def oneWidth : FileTree :=
  .file "a.m3u8".toList [1] (.dir "720".toList
    (.file "a.m3u8".toList [2] (.file "a-000.m4s".toList [3] .empty)) .empty)

/-- The walk to its end, and the three uploads, the last one first. -/
def oneWidthSteps : List UploadJobAction :=
  List.replicate 13 (.upload (.walk true)) ++ List.replicate 4 (.upload (.poll 2 true)) ++
    List.replicate 8 (.upload (.poll 0 true)) ++ [.finish none]

/-- An upload job for a bucket, and a manager that has an operator for it. -/
def mediaUpload : UploadJob := ⟨"a".toList, some "media".toList⟩

def anyBucket : StorageManager := ⟨true, fun _ => .ok ()⟩

theorem deletes_only_uploaded_oneWidth :
    ∃ s, exec (UploadJobRun.step (mediaUpload.call "/srv".toList oneWidth)) anything
        (.start mediaUpload anyBucket oneWidth) oneWidthSteps = some s ∧
      s.directory = none ∧
      s.upload.written.map WrittenObject.key = ["videos/720/a-000.m4s".toList,
        "videos/a.m3u8".toList, "videos/720/a.m3u8".toList] ∧
      DeletesUploaded (mediaUpload.call "/srv".toList oneWidth) oneWidthSteps s :=
  ⟨_, rfl, rfl, rfl, (deletes_only_uploaded (by decide)).2 mediaUpload anyBucket "/srv".toList
    oneWidthSteps _ rfl⟩

end VideoStorage.Jobs
