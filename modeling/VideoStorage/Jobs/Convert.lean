import VideoStorage.Library.Serde
import VideoStorage.Jobs.Job

/-!
# Convert jobs

A convert job names the scales and the codecs to convert to. An empty list means
the default one, and both the empty and the default list are left out of the
stored job. So a stored job reads back with the same effective lists
(`fromValue_toValue_convertJob`), though not with the same lists.
-/

set_option autoImplicit false

namespace VideoStorage.Jobs

open RustStd SerdeJson

/-! ## Scales -/

structure Scale where
  width : UInt32
  height : UInt32
  deriving DecidableEq, Repr

/-- `RESOLUTIONS`. -/
def resolutions : List Scale := [⟨720, 1280⟩, ⟨540, 960⟩, ⟨480, 854⟩]

def Scale.fields (scale : Scale) : List (Str × Option Value) :=
  [("w".toList, some (toValue scale.width)), ("h".toList, some (toValue scale.height))]

instance : Serde Scale where
  toValue scale := ofFields scale.fields
  fromValue := readStruct do
    let width ← required "w".toList
    let height ← required "h".toList
    return ⟨width, height⟩

instance : LawfulSerde Scale where
  fromValue_toValue scale := by
    have width : required "w".toList (.members (members scale.fields)) = some (scale.width, _) :=
      required_eq (by simp [Scale.fields])
    have height : required "h".toList (.members (members scale.fields)) =
        some (scale.height, _) := required_eq (by simp [Scale.fields])
    refine readStruct_ofFields ?_
    rw [bind_eq width, bind_eq height]
    rfl
  toValue_ne_null _ := nofun

structure Scales where
  scales : List Scale
  deriving DecidableEq, Repr

namespace Scales

/-- `Scales::new`. -/
def new : Scales := ⟨resolutions⟩

def skipSerialize (scales : Scales) : Bool := scales.scales = resolutions || scales.scales.isEmpty

/-- The scales a job converts to. -/
def deref (scales : Scales) : List Scale :=
  if scales.scales.isEmpty then resolutions else scales.scales

theorem deref_ne_nil (scales : Scales) : scales.deref ≠ [] := by
  unfold deref
  split
  · exact List.cons_ne_nil _ _
  · rename_i present
    exact fun none => present (List.isEmpty_iff.mpr none)

theorem deref_of_skipSerialize {scales : Scales} (skipped : scales.skipSerialize = true) :
    scales.deref = resolutions := by
  unfold deref
  split
  · rfl
  · rename_i present
    simpa [skipSerialize, present] using skipped

end Scales

instance : Serde Scales where
  toValue scales := toValue scales.scales
  fromValue value := (fromValue value).map Scales.mk

instance : LawfulSerde Scales where
  fromValue_toValue scales := congrArg (Option.map Scales.mk) (fromValue_toValue scales.scales)
  toValue_ne_null scales := toValue_ne_null scales.scales

/-! ## Codecs -/

inductive ConvertCodec where
  | vp9
  | h265
  | h264
  deriving DecidableEq, Repr

/-- `DEFAULT_CODECS`. -/
def defaultCodecs : List ConvertCodec := [.vp9, .h264]

instance : Serde ConvertCodec where
  toValue
    | .vp9 => .string "vp9".toList
    | .h265 => .string "h265".toList
    | .h264 => .string "h264".toList
  fromValue := readUnitEnum fun name =>
    if name = "vp9".toList then some .vp9
    else if name = "h265".toList then some .h265
    else if name = "h264".toList then some .h264
    else none

instance : LawfulSerde ConvertCodec where
  fromValue_toValue codec := by cases codec <;> rfl
  toValue_ne_null codec := by cases codec <;> nofun

structure ConvertCodecs where
  codecs : List ConvertCodec
  deriving DecidableEq, Repr

namespace ConvertCodecs

/-- `ConvertCodecs::new`. -/
def new : ConvertCodecs := ⟨defaultCodecs⟩

def skipSerialize (codecs : ConvertCodecs) : Bool :=
  codecs.codecs.isEmpty || codecs.codecs = defaultCodecs

/-- The codecs a job converts to. -/
def deref (codecs : ConvertCodecs) : List ConvertCodec :=
  if codecs.codecs.isEmpty then defaultCodecs else codecs.codecs

theorem deref_ne_nil (codecs : ConvertCodecs) : codecs.deref ≠ [] := by
  unfold deref
  split
  · exact List.cons_ne_nil _ _
  · rename_i present
    exact fun none => present (List.isEmpty_iff.mpr none)

theorem deref_of_skipSerialize {codecs : ConvertCodecs} (skipped : codecs.skipSerialize = true) :
    codecs.deref = defaultCodecs := by
  unfold deref
  split
  · rfl
  · rename_i present
    simpa [skipSerialize, present] using skipped

end ConvertCodecs

instance : Serde ConvertCodecs where
  toValue codecs := toValue codecs.codecs
  fromValue value := (fromValue value).map ConvertCodecs.mk

instance : LawfulSerde ConvertCodecs where
  fromValue_toValue codecs :=
    congrArg (Option.map ConvertCodecs.mk) (fromValue_toValue codecs.codecs)
  toValue_ne_null codecs := toValue_ne_null codecs.codecs

/-! ## The job -/

structure ConvertJob where
  id : Str
  crf : UInt8
  dstBucket : Option Str
  scales : Scales
  codecs : ConvertCodecs
  retryTimes : UInt8
  deriving DecidableEq, Repr

namespace ConvertJob

/-- `ConvertJob::new`. -/
def new (id : Str) (crf : UInt8) (scales : Scales) : ConvertJob :=
  ⟨id, crf, none, scales, .new, 0⟩

/-- A product of list lengths saturates at the largest `usize`. -/
def needPermit (job : ConvertJob) : Nat :=
  min (job.codecs.deref.length * job.scales.deref.length) (UInt64.size - 1)

end ConvertJob

instance : Job ConvertJob where
  kind _ := .convert
  id := ConvertJob.id
  needPermit := ConvertJob.needPermit
  waitForRetry job :=
    if job.retryTimes < 5 then some (15, { job with retryTimes := job.retryTimes + 1 }) else none
  onFinalFailure job :=
    ⟨job.id, .convert, [.cleanup, .webhook "Convert job failed after all retries"]⟩

/-- The stored fields. The retry counter is not stored. -/
def ConvertJob.fields (job : ConvertJob) : List (Str × Option Value) :=
  [("id".toList, some (toValue job.id)), ("crf".toList, some (toValue job.crf)),
    ("dst_bucket".toList, job.dstBucket.map toValue),
    ("scales".toList, if job.scales.skipSerialize then none else some (toValue job.scales)),
    ("codecs".toList, if job.codecs.skipSerialize then none else some (toValue job.codecs))]

instance : Serde ConvertJob where
  toValue job := ofFields job.fields
  fromValue := readStruct do
    let id ← required "id".toList
    let crf ← required "crf".toList
    let dstBucket ← defaulted "dst_bucket".toList none
    let scales ← defaulted "scales".toList Scales.new
    let codecs ← defaulted "codecs".toList ConvertCodecs.new
    return ⟨id, crf, dstBucket, scales, codecs, 0⟩

namespace ConvertJob

/-- The job as it is read back: lists that were left out are the default ones,
and the retry counter is reset. -/
def reloaded (job : ConvertJob) : ConvertJob :=
  { job with
    scales := if job.scales.skipSerialize then .new else job.scales
    codecs := if job.codecs.skipSerialize then .new else job.codecs
    retryTimes := 0 }

theorem deref_scales_reloaded (job : ConvertJob) :
    job.reloaded.scales.deref = job.scales.deref := by
  unfold reloaded
  cases skipped : job.scales.skipSerialize with
  | true => exact (Scales.deref_of_skipSerialize skipped).symm
  | false => rfl

theorem deref_codecs_reloaded (job : ConvertJob) :
    job.reloaded.codecs.deref = job.codecs.deref := by
  unfold reloaded
  cases skipped : job.codecs.skipSerialize with
  | true => exact (ConvertCodecs.deref_of_skipSerialize skipped).symm
  | false => rfl

theorem needPermit_reloaded (job : ConvertJob) : job.reloaded.needPermit = job.needPermit := by
  rw [needPermit, deref_scales_reloaded, deref_codecs_reloaded, needPermit]

end ConvertJob

theorem fromValue_toValue_convertJob (job : ConvertJob) :
    fromValue (toValue job) = some job.reloaded := by
  have id : required "id".toList (.members (members job.fields)) = some (job.id, _) :=
    required_eq (by simp [ConvertJob.fields])
  have crf : required "crf".toList (.members (members job.fields)) = some (job.crf, _) :=
    required_eq (by simp [ConvertJob.fields])
  have dstBucket : defaulted "dst_bucket".toList none (.members (members job.fields)) =
      some (job.dstBucket, _) := defaulted_option_eq (by simp [ConvertJob.fields])
  have scales : defaulted "scales".toList Scales.new (.members (members job.fields)) =
      some (job.reloaded.scales, _) := defaulted_eq (by simp [ConvertJob.fields]) Scales.new
  have codecs : defaulted "codecs".toList ConvertCodecs.new (.members (members job.fields)) =
      some (job.reloaded.codecs, _) := defaulted_eq (by simp [ConvertJob.fields]) ConvertCodecs.new
  refine readStruct_ofFields ?_
  rw [bind_eq id, bind_eq crf, bind_eq dstBucket, bind_eq scales, bind_eq codecs]
  rfl

end VideoStorage.Jobs
