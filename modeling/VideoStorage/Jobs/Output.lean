import VideoStorage.Library.UnixPath
import VideoStorage.Jobs.Convert

/-!
# The files of a conversion

A conversion writes, for every scale and codec, a playlist, an init segment and
numbered segments into a directory named by the width, and a master playlist
above them. Their paths below the output directory are `OutputFile.path`.
-/

set_option autoImplicit false

namespace VideoStorage.Jobs

open RustStd Str Path

namespace ConvertCodec

def playlistSuffix : ConvertCodec → Str
  | vp9 => []
  | h265 => "-h265".toList
  | h264 => "-h264".toList

def playlistFilename (codec : ConvertCodec) (jobId : Str) : Str :=
  jobId ++ codec.playlistSuffix ++ ".m3u8".toList

def segmentPrefix (codec : ConvertCodec) (jobId : Str) : Str :=
  match codec with
  | vp9 => jobId
  | h265 => jobId ++ "-h265".toList
  | h264 => jobId ++ "-h264".toList

def initFilename (codec : ConvertCodec) (jobId : Str) : Str :=
  codec.segmentPrefix jobId ++ "-init.mp4".toList

theorem segmentPrefix_eq (codec : ConvertCodec) (jobId : Str) :
    codec.segmentPrefix jobId = jobId ++ codec.playlistSuffix := by
  cases codec with
  | vp9 => exact (List.append_nil jobId).symm
  | h265 => rfl
  | h264 => rfl

end ConvertCodec

/-- What `convert` asks of the encoder for one scale and one codec. -/
structure HlsOutput where
  playlistPath : Str
  initFilename : Str
  /-- The path of a segment, `%03d` standing for its number. -/
  segmentFilename : Str
  deriving DecidableEq

/-- The output of `convert` for one scale and one codec. -/
def hlsOutput (jobId output : Str) (scale : Scale) (codec : ConvertCodec) : HlsOutput :=
  let outDir := join output (decimal scale.width.toNat)
  { playlistPath := join outDir (codec.playlistFilename jobId)
    initFilename := codec.initFilename jobId
    segmentFilename := outDir ++ '/' :: codec.segmentPrefix jobId ++ "-%03d.m4s".toList }

/-- The outputs of `convert`. -/
def ConvertJob.outputs (job : ConvertJob) (output : Str) : List HlsOutput :=
  job.scales.deref.flatMap fun scale => job.codecs.deref.map (hlsOutput job.id output scale)

/-- A file of a conversion. -/
inductive OutputFile where
  | master
  | playlist (codec : ConvertCodec) (width : UInt32)
  | init (codec : ConvertCodec) (width : UInt32)
  | segment (codec : ConvertCodec) (width : UInt32) (n : UInt32)

namespace OutputFile

/-- The directory of a file: that of its width, or none. -/
def width : OutputFile → Option UInt32
  | master => none
  | playlist _ width | init _ width | segment _ width _ => some width

/-- The name of a file of a job. -/
def name (jobId : Str) : OutputFile → Str
  | master => jobId ++ ".m3u8".toList
  | playlist codec _ => codec.playlistFilename jobId
  | init codec _ => codec.initFilename jobId
  | segment codec _ n =>
      codec.segmentPrefix jobId ++ '-' :: paddedDecimal 3 n.toNat ++ ".m4s".toList

/-- The path of a file below the output directory. -/
def path (jobId : Str) (file : OutputFile) : Str :=
  match file.width with
  | none => file.name jobId
  | some width => decimal width.toNat ++ '/' :: file.name jobId

end OutputFile

/-- A name below the directory of a width. -/
theorem join_decimal (output : Str) (n : Nat) {name : Str} (relative : isAbsolute name = false) :
    join (join output (decimal n)) name = join output (decimal n ++ '/' :: name) := by
  obtain ⟨nonempty, digits⟩ := isDecimal_iff.mp (isDecimal_decimal n)
  have noSlash := notMem_of_allDigits (c := '/') digits (by decide)
  have ends := List.getLast?_eq_getLast_of_ne_nil nonempty
  refine join_join ?_ ends (fun same => noSlash (same ▸ List.getLast_mem nonempty)) relative
  cases printed : decimal n with
  | nil => rfl
  | cons c rest =>
      rw [printed, List.mem_cons, not_or] at noSlash
      simpa [isAbsolute] using Ne.symm noSlash.1

section Paths

variable {jobId : Str} (nonempty : jobId ≠ []) (relative : isAbsolute jobId = false)
include nonempty relative

theorem isAbsolute_append (more : Str) : isAbsolute (jobId ++ more) = false := by
  cases jobId with
  | nil => exact absurd rfl nonempty
  | cons c rest => exact relative

/-- The encoder is asked for the paths of the files. -/
theorem playlistPath_hlsOutput (output : Str) (scale : Scale) (codec : ConvertCodec) :
    (hlsOutput jobId output scale codec).playlistPath =
      join output ((OutputFile.playlist codec scale.width).path jobId) := by
  refine join_decimal output scale.width.toNat ?_
  rw [ConvertCodec.playlistFilename, List.append_assoc]
  exact isAbsolute_append nonempty relative _

end Paths

end VideoStorage.Jobs
