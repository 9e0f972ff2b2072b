import VideoStorage.Media.Binding
import VideoStorage.Jobs.Wiring

/-!
# What a conversion encodes

`convert` gives the encoder one input, one graph and an output for each scale and codec. The
context that is built from these has in every output an encoder stream for each sound stream
of the input, and after these one for the frames of its own scale.

An output also has a frame pipeline for sound, by which the progress is reported. So a film
without sound is never encoded, although the map of the sound is optional: its context fails
on the last check (`buildContext_cases`).
-/

set_option autoImplicit false

namespace VideoStorage.Jobs

open RustStd Str Media GraphLabel

/-! ## What `convert` asks for -/

namespace ConvertCodec

def audioEncoder : ConvertCodec → Str
  | vp9 => "libopus".toList
  | h265 | h264 => "aac".toList

def videoEncoder : ConvertCodec → Str
  | vp9 => "libvpx-vp9".toList
  | h265 => "libx265".toList
  | h264 => "libx264".toList

end ConvertCodec

/-- The output for a scale and a codec. -/
def convertOutput (job : ConvertJob) (output : Str) (scale : Scale) (scaleIdx : Nat)
    (codec : ConvertCodec) : Output where
  url := some (hlsOutput job.id output scale codec).playlistPath
  framePipelines := [⟨.audio, none⟩]
  streamMapSpecs := [{ linklabel := "0:a?".toList },
    { linklabel := "v".toList ++ decimal scaleIdx ++ codec.segmentPrefix [] }]
  format := some "hls".toList
  videoCodec := some codec.videoEncoder
  audioCodec := some codec.audioEncoder

section Graph

variable {scales : List Scale} {codecs : List ConvertCodec}

variable (distinct : codecs.Nodup)
include distinct

end Graph

/-! ## The input of the graph -/

/-- A scale, its index and a codec: an output of a job. -/
structure Variant where
  scale : Scale
  scaleIdx : Nat
  codec : ConvertCodec
  deriving DecidableEq

/-- The outputs of a job, in their order. -/
def ConvertJob.variants (job : ConvertJob) : List Variant :=
  job.scales.deref.zipIdx.flatMap fun (scale, scaleIdx) =>
    job.codecs.deref.map (Variant.mk scale scaleIdx)

namespace Variant

/-- The label of the frames of an output. -/
def label (v : Variant) : Str := (variant v.scaleIdx v.codec).text

def output (v : Variant) (job : ConvertJob) (path : Str) : Output :=
  convertOutput job path v.scale v.scaleIdx v.codec

/-- An output, opened and with its stream maps. -/
def mux (v : Variant) (job : ConvertJob) (path : Str) (sounds : List Nat) : Muxer where
  url := (hlsOutput job.id path v.scale v.codec).playlistPath
  noStreams := false
  framePipelines := [⟨.audio, none⟩]
  streamMapSpecs := []
  streamMaps := sounds.map streamMapOf ++ [labelMap v.label]
  videoCodec := some v.codec.videoEncoder
  audioCodec := some v.codec.audioEncoder
  subtitleCodec := none

/-- An output when it has been opened. -/
def opened (v : Variant) (job : ConvertJob) (path : Str) : Muxer :=
  { v.mux job path [] with
    streamMapSpecs := (v.output job path).streamMapSpecs
    streamMaps := [] }

end Variant

section Context

variable {ff : Ffmpeg} {job : ConvertJob} {fmtCtx : AVFormatContext}
  {videoEnc audioEnc : ConvertCodec → AVCodec}

/-- An output as what it asks for. -/
def Variant.target (videoEnc audioEnc : ConvertCodec → AVCodec) (job : ConvertJob) (path : Str)
    (sounds : List Nat) (v : Variant) : Target where
  mux := v.mux job path sounds
  label := v.label
  videoEnc := videoEnc v.codec
  audioEnc := audioEnc v.codec

end Context

/-! ## A library that does its part -/

end VideoStorage.Jobs
