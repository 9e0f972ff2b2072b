import VideoStorage.Media.StreamMaps

/-!
# Contexts

Building a context opens the inputs, the filter graphs and the outputs, and binds them: the
inputs of the graphs to streams of the input files, and for each output its stream maps to
streams or to outputs of the graphs. Then it checks that every output has a stream, every
output of a graph a destination, and every frame pipeline a stream of its type.

The calls of the media library are parameters (`Ffmpeg`).
-/

set_option autoImplicit false

namespace VideoStorage.Media

open RustStd Str

/-! ## Filter graphs -/

/-- An open pad of a graph, as the media library reports it. -/
structure AVFilterInOut where
  linklabel : Str
  mediaType : AVMediaType
  name : Str
  deriving DecidableEq, Repr

structure InputFilter where
  linklabel : Str
  mediaType : AVMediaType
  name : Str
  deriving DecidableEq, Repr

def InputFilter.new (pad : AVFilterInOut) : InputFilter := ⟨pad.linklabel, pad.mediaType, pad.name⟩

/-- Where frames are sent. -/
inductive FrameDst where
  | graph (fgIndex : Nat)
  | encoder (muxIndex streamIndex : Nat)
  deriving DecidableEq, Repr

structure OutputFilter where
  linklabel : Str
  mediaType : AVMediaType
  name : Str
  fgInputIndex : Nat := 0
  dst : Option FrameDst := none
  deriving DecidableEq, Repr

def OutputFilter.new (pad : AVFilterInOut) : OutputFilter where
  linklabel := pad.linklabel
  mediaType := pad.mediaType
  name := pad.name

structure FilterGraph where
  graphDesc : Str
  inputs : List InputFilter
  outputs : List OutputFilter
  deriving DecidableEq, Repr

/-! ## Demuxers -/

structure FramePipeline where
  mediaType : AVMediaType
  streamIndex : Option Nat
  deriving DecidableEq, Repr

structure DecoderStream where
  streamIndex : Nat
  codecType : AVMediaType
  isUsed : Bool := false
  /-- The destinations of its frames, with the input of the graph. -/
  dsts : List (FrameDst × Option Nat) := []
  deriving DecidableEq, Repr

/-- Where packets are sent: to the decoder of their stream, or to an output as they are. -/
inductive PacketDst where
  | decoder
  | output (muxIndex streamIndex : Nat)
  deriving DecidableEq, Repr

structure Demuxer where
  inFmtCtx : AVFormatContext
  framePipelines : List FramePipeline
  streams : List DecoderStream
  dsts : List (Nat × PacketDst) := []

namespace Demuxer

def new (inFmtCtx : AVFormatContext) (framePipelines : List FramePipeline) : Demuxer where
  inFmtCtx
  framePipelines
  streams := inFmtCtx.streams.zipIdx.map fun (stream, i) =>
    { streamIndex := i, codecType := stream.codecpar.codecType }

end Demuxer

/-! ## Muxers -/

structure AVCodec where
  id : Int
  type : AVMediaType
  deriving DecidableEq, Repr

structure EncoderStream where
  streamIndex : Nat
  codecType : AVMediaType
  encoder : AVCodec
  deriving DecidableEq, Repr

structure StreamSource where
  inputFileIndex : Nat
  inputStreamIndex : Nat
  encoded : Bool
  deriving DecidableEq, Repr

structure Muxer where
  url : Str
  /-- `AVFMT_NOSTREAMS`: the format does without streams. -/
  noStreams : Bool
  framePipelines : List FramePipeline
  streamMapSpecs : List StreamMapSpec
  streamMaps : List StreamMap
  videoCodec : Option Str
  audioCodec : Option Str
  subtitleCodec : Option Str
  streamSources : List (Option StreamSource) := []
  streams : List EncoderStream := []
  hasSrc : Bool := false
  nbStreams : Nat := 0
  deriving DecidableEq

namespace Muxer

/-- A new stream of the output, and its index. -/
def newStream (mux : Muxer) : Muxer × Nat :=
  ({ mux with hasSrc := true, nbStreams := mux.nbStreams + 1 }, mux.nbStreams)

def addEncStream (mux : Muxer) (mediaType : AVMediaType) (enc : AVCodec) : Muxer × Nat :=
  let (mux, streamIndex) := mux.newStream
  ({ mux with streams := mux.streams ++ [⟨streamIndex, mediaType, enc⟩] }, streamIndex)

def registerStreamSource (mux : Muxer) (outputIdx inputFileIndex inputStreamIndex : Nat)
    (encoded : Bool) : Muxer :=
  let entries := mux.streamSources ++
    List.replicate (outputIdx + 1 - mux.streamSources.length) none
  { mux with
    streamSources := entries.set outputIdx (some ⟨inputFileIndex, inputStreamIndex, encoded⟩) }

end Muxer

/-! ## The media library -/

structure Input where
  url : Option Str
  framePipelines : List FramePipeline := []
  deriving DecidableEq

structure Output where
  url : Option Str
  framePipelines : List FramePipeline := []
  streamMapSpecs : List StreamMapSpec := []
  streamMaps : List StreamMap := []
  format : Option Str := none
  videoCodec : Option Str := none
  audioCodec : Option Str := none
  subtitleCodec : Option Str := none
  deriving DecidableEq

/-- What is bound to the outputs. -/
structure Ports where
  filterGraphs : List FilterGraph
  demuxs : List Demuxer

structure Ffmpeg where
  openInput : Input → Except Error AVFormatContext
  /-- Opening an output: whether its format does without streams. -/
  openOutput : Nat → Output → Except Error Bool
  /-- The open inputs and outputs of the graph that a text describes. -/
  segmentApply : Str → Except Error (List AVFilterInOut × List AVFilterInOut)
  findEncoder : Int → Option AVCodec
  findEncoderByName : Str → Option AVCodec
  /-- The codec with a name. -/
  descriptorByName : Str → Option Int
  guessCodec : Str → AVMediaType → Int
  /-- The configuration of an output of a graph for an encoder. -/
  configureOutput : AVMediaType → AVCodec → Except Error Unit
  /-- What is bound to an output without stream maps. -/
  autoStreams : Nat → Muxer → Ports → Except Error (Muxer × Ports)

variable (ff : Ffmpeg)

/-! ## Binding the inputs of the graphs -/

/-- The codec and the encoder for a type: none when streams of the type are copied. -/
def chooseEncoder (mux : Muxer) (mediaType : AVMediaType) : Except Error (Option (Int × AVCodec)) :=
  let choose (mediaCodec : Option Str) : Except Error (Option (Int × AVCodec)) :=
    match mediaCodec with
    | none =>
        let codecId := ff.guessCodec mux.url mediaType
        match ff.findEncoder codecId with
        | none => .error (.openOutput .encoderNotFound)
        | some enc => .ok (some (codecId, enc))
    | some mediaCodec =>
        if mediaCodec = "copy".toList then .ok none
        else
          match (ff.findEncoderByName mediaCodec).or
              ((ff.descriptorByName mediaCodec).bind ff.findEncoder) with
          | none => .error (.openOutput .encoderNotFound)
          | some enc =>
              if enc.type ≠ mediaType then .error (.openOutput .invalidArgument)
              else .ok (some (enc.id, enc))
  match mediaType with
  | .video => choose mux.videoCodec
  | .audio => choose mux.audioCodec
  | .subtitle => choose mux.subtitleCodec
  | _ => .ok none

/-- `format!("{:?}", media_type)` -/
def AVMediaType.debug : AVMediaType → Str
  | unknown => "AVMEDIA_TYPE_UNKNOWN".toList
  | video => "AVMEDIA_TYPE_VIDEO".toList
  | audio => "AVMEDIA_TYPE_AUDIO".toList
  | data => "AVMEDIA_TYPE_DATA".toList
  | subtitle => "AVMEDIA_TYPE_SUBTITLE".toList
  | attachment => "AVMEDIA_TYPE_ATTACHMENT".toList
  | nb => "AVMEDIA_TYPE_NB".toList

end VideoStorage.Media
