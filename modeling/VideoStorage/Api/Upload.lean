import VideoStorage.Api.FileServing
import VideoStorage.Api.Naming
import VideoStorage.Jobs.Manager

/-!
# Uploading a video

`upload_mp4_raw` checks the parameters, writes the body of the request to a file
chunk by chunk, and then adds a convert job to the pending set and sends it to
the channel.

An upload should be accepted when its body is complete and stored, and leave
nothing behind otherwise (`CompleteOnly`). The loop over the body takes an error
of the transport for the end of the body, so a body that breaks off is accepted
when what arrived of it is stored (`completeOnly_iff`).
-/

set_option autoImplicit false

namespace VideoStorage.Api

open RustStd Jobs

/-! ## The request -/

/-- What the stream of the body gives until it ends. -/
inductive BodyEvent where
  | data (chunk : Bytes)
  | error

inductive WriteOutcome where
  | written
  /-- The write fails, and some bytes of the chunk are in the file. -/
  | failed (stored : Nat)
  deriving DecidableEq

/-- The outcomes of the file operations; the writes are numbered. -/
structure FileOutcomes where
  create : Bool
  write : Nat → WriteOutcome
  flush : Bool
  remove : Bool

/-- The state the handler works on: the pending set, the channel to the job
handler, and the files of the upload directory. -/
structure UploadState where
  isS3 : Bool
  pending : List RawJob
  channel : List RawJob
  uploads : Str → Option Bytes

structure UploadResponse where
  status : StatusCode
  jobId : Str
  message : Str

/-! ## The handler -/

/-- The checks of the parameters of a request, and the message of the first one
that fails. -/
def checkUpload (state : UploadState) (job : ConvertJob) : Except String Unit := do
  if state.isS3 then
    match job.dstBucket.filter fun bucket => !bucket.isEmpty with
    | none => throw "Missing dst_bucket (required when storage_backend is s3)"
    | some dstBucket => validateBucketForWrite dstBucket
  if 63 < job.crf then throw "Invalid parameters: crf can only be set in the range 0-63"
  if !isValidJobId job.id then throw "Invalid job ID format"
  if state.pending.any fun existing => Job.id existing = job.id then throw "already in-progress"

/-- The loop over the body, from write `k` on: the content of the file, and
whether the loop ends without a failed write. An error of the stream ends it like
the end of the body. -/
def writeBody (write : Nat → WriteOutcome) (k : Nat) (content : Bytes) :
    List BodyEvent → Bytes × Bool
  | [] | .error :: _ => (content, true)
  | .data chunk :: rest =>
      match write k with
      | .written => writeBody write (k + 1) (content ++ chunk) rest
      | .failed stored => (content ++ chunk.take stored, false)

namespace UploadState

def setUpload (state : UploadState) (id : Str) (content : Option Bytes) : UploadState :=
  { state with uploads := Function.update state.uploads id content }

@[simp] theorem setUpload_uploads (state : UploadState) (id : Str) (content : Option Bytes) :
    (state.setUpload id content).uploads id = content :=
  Function.update_self ..

/-- `remove_file`, whose result is ignored. -/
def removeUpload (state : UploadState) (io : FileOutcomes) (id : Str) : UploadState :=
  if io.remove then state.setUpload id none else state

end UploadState

/-- `upload_mp4_raw` behind the checks. -/
def storeUpload (state : UploadState) (job : ConvertJob) (body : List BodyEvent)
    (io : FileOutcomes) : UploadResponse × UploadState :=
  let failed (message : String) : UploadResponse :=
    ⟨.internalServerError, job.id, message.toList⟩
  if io.create then
    let (content, written) := writeBody io.write 0 [] body
    let state := state.setUpload job.id (some content)
    if written then
      if io.flush then
        (⟨.accepted, job.id, "Processing in background".toList⟩,
          { state with
            pending := addJob state.pending (.convert job)
            channel := state.channel ++ [.convert job] })
      else (failed "Failed to submit convert job", state.removeUpload io job.id)
    else (failed "Failed to write upload file", state.removeUpload io job.id)
  else (failed "Failed to create upload file", state)

/-- `upload_mp4_raw`. The query is read by a library: the job, or the text of an
error. -/
def uploadMp4Raw (state : UploadState) (query : Except Str ConvertJob) (body : List BodyEvent)
    (io : FileOutcomes) : UploadResponse × UploadState :=
  match query with
  | .error err =>
      (⟨.badRequest, "unknown".toList, "Failed to parse query parameters: ".toList ++ err⟩, state)
  | .ok job =>
      match checkUpload state job with
      | .error message => (⟨.badRequest, job.id, message.toList⟩, state)
      | .ok () => storeUpload state job body io

/-! ## What is accepted -/

/-- The chunks that arrive before the body ends or breaks off. -/
def received : List BodyEvent → List Bytes
  | [] | .error :: _ => []
  | .data chunk :: rest => chunk :: received rest

/-- The body breaks off. -/
def breaksOff (body : List BodyEvent) : Bool := body.any fun event => event matches .error

/-- All that arrives is stored. -/
def Stored (io : FileOutcomes) (body : List BodyEvent) : Prop :=
  io.create = true ∧ (∀ k < (received body).length, io.write k = .written) ∧ io.flush = true

/-- The body arrives completely and is stored. -/
def Complete (io : FileOutcomes) (body : List BodyEvent) : Prop :=
  breaksOff body = false ∧ Stored io body

/-- Exactly a complete upload is accepted, its file has all chunks, and any other
request leaves no job and no file. -/
structure CompleteOnly (state : UploadState) (job : ConvertJob) (body : List BodyEvent)
    (io : FileOutcomes) (result : UploadResponse × UploadState) : Prop where
  accepted : result.1.status = .accepted ↔ Complete io body
  stored : Complete io body → result.2.pending = addJob state.pending (.convert job) ∧
    result.2.channel = state.channel ++ [.convert job] ∧
    result.2.uploads job.id = some (received body).flatten
  refused : ¬ Complete io body → result.2.pending = state.pending ∧
    result.2.channel = state.channel ∧ (io.create = true → result.2.uploads job.id = none)

/-- What the loop leaves: all chunks that arrived, when no write fails. -/
theorem writeBody_cases (write : Nat → WriteOutcome) (k : Nat) (content : Bytes)
    (body : List BodyEvent) :
    (∀ j < (received body).length, write (k + j) = .written) ∧
        writeBody write k content body = (content ++ (received body).flatten, true) ∨
      (¬ ∀ j < (received body).length, write (k + j) = .written) ∧
        ∃ part, writeBody write k content body = (part, false) := by
  induction body generalizing k content with
  | nil => exact .inl ⟨nofun, by simp [writeBody, received]⟩
  | cons event rest ih =>
      cases event with
      | error => exact .inl ⟨nofun, by simp [writeBody, received]⟩
      | data chunk =>
          have shift : ∀ j, k + 1 + j = k + (j + 1) := fun j => by omega
          cases here : write k with
          | failed stored =>
              refine .inr ⟨fun all => ?_, _, by rw [writeBody, here]⟩
              have first := all 0 (Nat.succ_pos _)
              rw [Nat.add_zero, here] at first
              cases first
          | written =>
              have step : writeBody write k content (.data chunk :: rest) =
                  writeBody write (k + 1) (content ++ chunk) rest := by rw [writeBody, here]
              have all : (∀ j < (received (.data chunk :: rest)).length, write (k + j) = .written) ↔
                  ∀ j < (received rest).length, write (k + 1 + j) = .written := by
                constructor
                · intro all j less
                  rw [shift]
                  exact all (j + 1) (Nat.succ_lt_succ less)
                · intro all j less
                  cases j with
                  | zero => exact here
                  | succ j => exact shift j ▸ all j (Nat.lt_of_succ_lt_succ less)
              rw [step, all]
              rcases ih (k + 1) (content ++ chunk) with ⟨written, equal⟩ | failed
              · exact .inl ⟨written, by rw [equal, received, List.flatten_cons, List.append_assoc]⟩
              · exact .inr failed

/-- What the handler does behind the checks: it stops before the file, it accepts
what is stored, or it removes what is not. -/
inductive StoreUpload (state : UploadState) (job : ConvertJob) (body : List BodyEvent)
    (io : FileOutcomes) : UploadResponse × UploadState → Prop where
  | notCreated (message : Str) (fails : io.create = false) :
      StoreUpload state job body io (⟨.internalServerError, job.id, message⟩, state)
  | accepted (message : Str) (stored : Stored io body) :
      StoreUpload state job body io
        (⟨.accepted, job.id, message⟩,
          { state with
            pending := addJob state.pending (.convert job)
            channel := state.channel ++ [.convert job]
            uploads := Function.update state.uploads job.id (some (received body).flatten) })
  | removed (message : Str) (part : Bytes) (created : io.create = true)
      (fails : ¬ Stored io body) :
      StoreUpload state job body io
        (⟨.internalServerError, job.id, message⟩,
          (state.setUpload job.id (some part)).removeUpload io job.id)

theorem storeUpload_cases (state : UploadState) (job : ConvertJob) (body : List BodyEvent)
    (io : FileOutcomes) : StoreUpload state job body io (storeUpload state job body io) := by
  unfold storeUpload
  cases create : io.create with
  | false => exact .notCreated _ create
  | true =>
      simp only [if_true]
      rcases writeBody_cases io.write 0 [] body with ⟨all, equal⟩ | ⟨some, part, equal⟩
      · have all : ∀ k < (received body).length, io.write k = .written := fun k less =>
          Nat.zero_add k ▸ all k less
        rw [equal]
        cases flush : io.flush with
        | true => exact .accepted _ ⟨create, all, flush⟩
        | false =>
            refine .removed _ _ create fun stored => ?_
            rw [stored.2.2] at flush
            cases flush
      · rw [equal]
        refine .removed _ part create fun stored => some fun k less => ?_
        rw [Nat.zero_add]
        exact stored.2.1 k less

/-- A request that is rejected by its parameters changes nothing. -/
theorem uploadMp4Raw_rejected {state : UploadState} {query : Except Str ConvertJob}
    (rejected : ∀ job, query = .ok job → checkUpload state job ≠ .ok ()) (body : List BodyEvent)
    (io : FileOutcomes) :
    (uploadMp4Raw state query body io).2 = state ∧
      (uploadMp4Raw state query body io).1.status = .badRequest := by
  unfold uploadMp4Raw
  cases query with
  | error err => exact ⟨rfl, rfl⟩
  | ok job =>
      cases checked : checkUpload state job with
      | error message => simp only [checked, and_self]
      | ok _ => exact absurd checked (rejected job rfl)

/-- **Only complete uploads are accepted** exactly when a body that is stored does
not break off, and a file that is not stored can be removed. -/
theorem completeOnly_iff {state : UploadState} {job : ConvertJob} {body : List BodyEvent}
    {io : FileOutcomes} (passes : checkUpload state job = .ok ()) :
    CompleteOnly state job body io (uploadMp4Raw state (.ok job) body io) ↔
      (Stored io body → breaksOff body = false) ∧
      (io.create = true → ¬ Stored io body → io.remove = true) := by
  have behind : uploadMp4Raw state (.ok job) body io = storeUpload state job body io := by
    simp only [uploadMp4Raw, passes]
  have cases := storeUpload_cases state job body io
  rw [behind]
  generalize storeUpload state job body io = result at cases
  cases cases with
  | notCreated message fails =>
      have notStored : ¬ Stored io body := fun stored => by
        rw [stored.1] at fails
        cases fails
      refine iff_of_true ⟨?_, ?_, ?_⟩ ⟨fun stored => absurd stored notStored, ?_⟩
      · exact iff_of_false nofun fun complete => notStored complete.2
      · exact fun complete => absurd complete.2 notStored
      · exact fun _ => ⟨rfl, rfl, fun created => by rw [created] at fails; cases fails⟩
      · exact fun created => by rw [created] at fails; cases fails
  | accepted message stored =>
      rw [and_iff_left fun _ notStored => absurd stored notStored]
      constructor
      · exact fun only _ => (only.accepted.mp rfl).1
      · intro ends
        have complete : Complete io body := ⟨ends stored, stored⟩
        refine ⟨iff_of_true rfl complete, fun _ => ⟨rfl, rfl, ?_⟩, fun incomplete => ?_⟩
        · exact Function.update_self ..
        · exact absurd complete incomplete
  | removed message part created fails =>
      have incomplete : ¬ Complete io body := fun complete => fails complete.2
      rw [and_iff_right fun stored => absurd stored fails]
      constructor
      · intro only _ _
        have gone := (only.refused incomplete).2.2 created
        by_contra kept
        simp only [UploadState.removeUpload, if_neg kept, UploadState.setUpload_uploads] at gone
        cases gone
      · intro removes
        have removed := removes created fails
        refine ⟨iff_of_false nofun incomplete, fun complete => absurd complete incomplete,
          fun _ => ?_⟩
        rw [UploadState.removeUpload, if_pos removed]
        exact ⟨rfl, rfl, fun _ => UploadState.setUpload_uploads ..⟩

/-- A server with local storage and nothing to do. -/
def idleUploads : UploadState := ⟨false, [], [], fun _ => none⟩

def everyOperationSucceeds : FileOutcomes := ⟨true, fun _ => .written, true, true⟩

theorem completeOnly_iff_twoChunks :
    CompleteOnly idleUploads (.new "a".toList 30 .new) [.data [1, 2], .data [3]]
        everyOperationSucceeds
        (uploadMp4Raw idleUploads (.ok (.new "a".toList 30 .new)) [.data [1, 2], .data [3]]
          everyOperationSucceeds) ↔
      (Stored everyOperationSucceeds [.data [1, 2], .data [3]] →
        breaksOff [.data [1, 2], .data [3]] = false) ∧
      (everyOperationSucceeds.create = true →
        ¬ Stored everyOperationSucceeds [.data [1, 2], .data [3]] →
        everyOperationSucceeds.remove = true) :=
  completeOnly_iff rfl

/-- A body that breaks off after two bytes is accepted, and the job is sent with
what arrived. -/
theorem broken_upload_is_accepted :
    ∃ response state, uploadMp4Raw idleUploads (.ok (.new "a".toList 30 .new))
        [.data [1, 2], .error] everyOperationSucceeds = (response, state) ∧
      response.status = .accepted ∧ state.channel = [.convert (.new "a".toList 30 .new)] ∧
      state.uploads "a".toList = some [1, 2] ∧
      ¬ CompleteOnly idleUploads (.new "a".toList 30 .new) [.data [1, 2], .error]
        everyOperationSucceeds (response, state) := by
  refine ⟨_, _, rfl, rfl, rfl, rfl, fun only => ?_⟩
  have complete := only.accepted.mp rfl
  exact absurd complete.1 (by decide)

end VideoStorage.Api
