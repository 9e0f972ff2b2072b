import VideoStorage.Library.Bytes
import VideoStorage.Library.UnixPath

/-!
# Serving a part of a file

`server_file_with_bucket` answers with a file, or with the part of it that a
`Range` header asks for. `parse_range` takes the header apart and does not check
what it finds: the start may lie behind the end of the file or behind the end
that is asked for, and the file may be empty. Each of these makes one of the
subtractions underflow.

In all other cases the range is inside the file, and the headers and the body
are those of the range (`servedSafely_iff`).
-/

set_option autoImplicit false

namespace VideoStorage.Api

open RustStd Str Path

/-! ## Arithmetic of sizes -/

section Arithmetic

variable {ε : Type}

/-- A subtraction that panics when it underflows. -/
def checkedSub (a b : UInt64) : Checked ε UInt64 :=
  if b.toNat ≤ a.toNat then .ok (UInt64.ofNat (a.toNat - b.toNat)) else .error .panic

/-- An addition that panics when it overflows. -/
def checkedAdd (a b : UInt64) : Checked ε UInt64 :=
  if a.toNat + b.toNat < UInt64.size then .ok (UInt64.ofNat (a.toNat + b.toNat)) else .error .panic

theorem checkedSub_eq_ok {a b c : UInt64} :
    (checkedSub a b : Checked ε UInt64) = .ok c ↔ c.toNat + b.toNat = a.toNat := by
  have small := a.toNat_lt
  unfold checkedSub
  split
  · rename_i le
    have value : (UInt64.ofNat (a.toNat - b.toNat)).toNat = a.toNat - b.toNat :=
      UInt64.toNat_ofNat_of_lt' (Nat.lt_of_le_of_lt (Nat.sub_le ..) small)
    rw [Except.ok.injEq, ← UInt64.toNat_inj, value]
    omega
  · rename_i more
    exact iff_of_false nofun (by omega)

end Arithmetic

/-! ## The header -/

/-- `parse::<u64>`. -/
def parseU64 (text : Str) : Option UInt64 := (parseUnsigned (UInt64.size - 1) text).map UInt64.ofNat

/-- `HeaderValue::to_str`: a value of visible characters, spaces and tabs. -/
def headerText (value : Bytes) : Option Str :=
  if value.all fun b => 32 ≤ b && b < 127 || b == 9 then
    some (value.map fun b => Char.ofNat b.toNat)
  else none

/-- `str::strip_prefix`. -/
def stripFront (text front : Str) : Option Str :=
  if front.isPrefixOf text then some (text.drop front.length) else none

/-- The start of a `Range` header, and its end, where they read as numbers. -/
def requestedRange (header : Option Bytes) : Option (UInt64 × Option UInt64) := do
  let value ← header
  let text ← headerText value
  let stripped ← stripFront text "bytes=".toList
  let parts := split '-' stripped
  let start ← parseU64 (parts.headD [])
  some (start, parts[1]?.bind parseU64)

inductive StatusCode where
  | ok
  | accepted
  | partialContent
  | badRequest
  | notFound
  | internalServerError
  deriving DecidableEq, Repr

variable {ε : Type}

/-- `parse_range`: the status, and the first and the last byte. -/
def parseRange (header : Option Bytes) (fileSize : UInt64) :
    Checked ε (StatusCode × UInt64 × UInt64) :=
  match requestedRange header with
  | some (start, requested) => do
      let last ← checkedSub fileSize 1
      pure (.partialContent, start, min (requested.getD last) last)
  | none => do
      let last ← checkedSub fileSize 1
      pure (.ok, 0, last)

/-! ## The file -/

/-- A file on disk. Its length is a `u64`. -/
structure LocalFile where
  content : Bytes
  small : content.length < UInt64.size
  /-- Whether the file is opened and the position set. -/
  opens : Bool

/-- An object of a bucket. A read of a range inside it gives the bytes of the
range, or fails. -/
structure S3Object where
  content : Bytes
  small : content.length < UInt64.size
  read : UInt64 → UInt64 → Option Bytes
  read_inside : ∀ {start stop data}, start.toNat ≤ stop.toNat → stop.toNat < content.length →
    read start stop = some data →
      data = (content.drop start.toNat).take (stop.toNat - start.toNat + 1)

/-- What a path and a key lead to: the file at the path, when its metadata is
read, and otherwise the object of the key, when there is an operator and it finds
the object. -/
inductive Found where
  | file (file : LocalFile)
  | object (object : S3Object)

namespace Found

def content : Found → Bytes
  | file stored => stored.content
  | object stored => stored.content

def size (found : Found) : UInt64 := UInt64.ofNat found.content.length

theorem toNat_size (found : Found) : found.size.toNat = found.content.length := by
  have small : found.content.length < UInt64.size := by
    cases found with
    | file stored => exact stored.small
    | object stored => exact stored.small
  exact UInt64.toNat_ofNat_of_lt' small

end Found

/-- `metadata` of the path, and `stat` of the key with an operator. -/
def lookUp (file : Option LocalFile) (operator : Option (Option S3Object)) : Option Found :=
  match file with
  | some file => some (.file file)
  | none => operator.join.map .object

/-- `try_serve_from_filesystem`: the bytes that are streamed, when the file is
opened. -/
def tryServeFromFilesystem (file : LocalFile) (start stop : UInt64) : Checked ε (Option Bytes) := do
  if file.opens then
    let length ← checkedSub stop start >>= (checkedAdd · 1)
    pure (some ((file.content.drop start.toNat).take length.toNat))
  else pure none

/-- `try_serve_from_s3`. -/
def tryServeFromS3 (object : S3Object) (start stop : UInt64) : Option Bytes :=
  object.read start stop

/-! ## The response -/

structure FileResponse where
  status : StatusCode
  contentType : Option Str
  contentLength : Option Str
  contentRange : Option Str
  body : Bytes

/-- `err_response`: the text of an error as the body. -/
def errResponse (status : StatusCode) (body : Str) : FileResponse :=
  ⟨status, none, none, none, utf8 body⟩

/-- `file_not_found`. -/
def fileNotFound : FileResponse := errResponse .notFound "File not found".toList

/-- `Path::extension`. -/
def pathExtension (path : Str) : Option Str := do
  let .normal name ← (components path).getLast? | none
  let (stem, extension) ← rsplitOnce '.' name
  if stem = [] then none else some extension

/-- `hls_content_type`. -/
def hlsContentType (path : Str) : Str :=
  let extension := ((pathExtension path).getD []).map Char.toLower
  if extension = "m3u8".toList then "application/vnd.apple.mpegurl".toList
  else if extension = "m4s".toList then "video/iso.segment".toList
  else if extension = "mp4".toList then "video/mp4".toList
  else "application/octet-stream".toList

/-- `format!("bytes {start}-{end}/{size}")`. -/
def contentRangeText (start stop size : UInt64) : Str :=
  "bytes ".toList ++ decimal start.toNat ++ '-' :: decimal stop.toNat ++ '/' :: decimal size.toNat

/-- `server_file_with_bucket`. The headers that are the same in every response
are left out. -/
def serverFileWithBucket (header : Option Bytes) (filename : Str) (found : Option Found) :
    Checked ε FileResponse :=
  match found with
  | none => .ok fileNotFound
  | some found => do
      let (status, start, stop) ← parseRange header found.size
      let length ← checkedSub stop start >>= (checkedAdd · 1)
      let body ← match found with
        | .file file => tryServeFromFilesystem file start stop
        | .object object => pure (tryServeFromS3 object start stop)
      match body with
      | none => .ok fileNotFound
      | some body =>
          .ok {
            status
            contentType := some (hlsContentType filename)
            contentLength := some (decimal length.toNat)
            contentRange :=
              if status = .partialContent then some (contentRangeText start stop found.size)
              else none
            body }

/-! ## What is safe -/

/-- The range is a part of a file of that size, and the response is that part. -/
structure ServesRange (found : Found) (start stop : UInt64) (response : FileResponse) : Prop where
  order : start.toNat ≤ stop.toNat
  inside : stop.toNat < found.size.toNat
  length : response.contentLength = some (decimal (stop.toNat - start.toNat + 1))
  range : response.contentRange = if response.status = .partialContent then
    some (contentRangeText start stop found.size) else none
  body : response.body = (found.content.drop start.toNat).take (stop.toNat - start.toNat + 1)
  streamed : response.body.length = stop.toNat - start.toNat + 1
  bounds : 1 ≤ response.body.length ∧ response.body.length ≤ found.size.toNat

/-- Nothing underflows or overflows, and a file that is served is served with the
range that was computed. -/
def ServedSafely (header : Option Bytes) (filename : Str) (found : Option Found) : Prop :=
  ∃ response, (serverFileWithBucket header filename found : Checked Empty FileResponse) =
      .ok response ∧
    (response.status = .ok ∨ response.status = .partialContent →
      ∃ stored start stop, found = some stored ∧
        (parseRange header stored.size : Checked Empty _) = .ok (response.status, start, stop) ∧
        ServesRange stored start stop response)

/-- The file is not empty, and a start that is asked for lies before its end and
not behind the end that is asked for. -/
def rangeFits (header : Option Bytes) (size : UInt64) : Bool :=
  decide (0 < size.toNat) &&
    match requestedRange header with
    | some (start, requested) =>
        decide (start.toNat < size.toNat) &&
          requested.all fun stop => decide (start.toNat ≤ stop.toNat)
    | none => true

theorem toNat_min (a b : UInt64) : (min a b).toNat = min a.toNat b.toNat := by
  show (if a ≤ b then a else b).toNat = _
  split
  · rename_i order
    exact (Nat.min_eq_left (UInt64.le_iff_toNat_le.mp order)).symm
  · rename_i order
    exact (Nat.min_eq_right (Nat.le_of_not_le fun less =>
      order (UInt64.le_iff_toNat_le.mpr less))).symm

/-- The last byte of the range lies in the file. -/
theorem parseRange_inside {header : Option Bytes} {size start stop : UInt64} {status : StatusCode}
    (parsed : (parseRange header size : Checked ε _) = .ok (status, start, stop)) :
    stop.toNat < size.toNat ∧ (status = .ok ∨ status = .partialContent) := by
  have behind : ∀ last : UInt64, (checkedSub size 1 : Checked ε UInt64) = .ok last →
      last.toNat < size.toNat := by
    intro last here
    have value := checkedSub_eq_ok.mp here
    exact value ▸ Nat.lt_succ_self _
  unfold parseRange at parsed
  split at parsed
  · obtain ⟨last, here, rest⟩ := bind_eq_ok parsed
    cases rest
    refine ⟨?_, .inr rfl⟩
    rw [toNat_min]
    exact Nat.lt_of_le_of_lt (Nat.min_le_right _ _) (behind last here)
  · obtain ⟨last, here, rest⟩ := bind_eq_ok parsed
    cases rest
    exact ⟨behind _ here, .inl rfl⟩

/-- A range fits when it is computed and does not end before it starts. -/
theorem rangeFits_iff (header : Option Bytes) (size : UInt64) :
    rangeFits header size = true ↔
      ∃ status start stop, (parseRange header size : Checked ε _) = .ok (status, start, stop) ∧
        start.toNat ≤ stop.toNat := by
  have one : (1 : UInt64).toNat = 1 := rfl
  unfold rangeFits parseRange
  rw [Bool.and_eq_true, decide_eq_true_eq]
  constructor
  · rintro ⟨nonempty, fits⟩
    obtain ⟨last, value⟩ : ∃ last : UInt64, last.toNat + 1 = size.toNat := by
      have small := size.toNat_lt
      refine ⟨UInt64.ofNat (size.toNat - 1), ?_⟩
      rw [UInt64.toNat_ofNat_of_lt' (Nat.lt_of_le_of_lt (Nat.sub_le ..) small)]
      omega
    have computed : (checkedSub size 1 : Checked ε UInt64) = .ok last :=
      checkedSub_eq_ok.mpr (one ▸ value)
    rw [computed]
    cases asked : requestedRange header with
    | none => exact ⟨_, _, _, rfl, Nat.zero_le _⟩
    | some range =>
        obtain ⟨start, requested⟩ := range
        simp only [asked, Bool.and_eq_true, decide_eq_true_eq] at fits
        refine ⟨_, _, _, rfl, ?_⟩
        rw [toNat_min, Nat.le_min]
        refine ⟨?_, by omega⟩
        cases requested with
        | none =>
            show start.toNat ≤ last.toNat
            omega
        | some stop => exact of_decide_eq_true fits.2
  · rintro ⟨status, start, stop, parsed, order⟩
    cases asked : requestedRange header with
    | none =>
        rw [asked] at parsed
        obtain ⟨last, here, rest⟩ := bind_eq_ok parsed
        have value := checkedSub_eq_ok.mp here
        exact ⟨by omega, rfl⟩
    | some range =>
        obtain ⟨start', requested⟩ := range
        rw [asked] at parsed
        obtain ⟨last, here, rest⟩ := bind_eq_ok parsed
        have value := checkedSub_eq_ok.mp here
        cases rest
        rw [toNat_min, Nat.le_min] at order
        simp only [Bool.and_eq_true, decide_eq_true_eq]
        refine ⟨by omega, by omega, ?_⟩
        cases requested with
        | none => rfl
        | some stop => exact decide_eq_true order.1

/-- The number of bytes of a range in a file. -/
theorem length_of_range {found : Found} {start stop : UInt64} (order : start.toNat ≤ stop.toNat)
    (inside : stop.toNat < found.size.toNat) :
    (checkedSub stop start >>= (checkedAdd · 1) : Checked ε UInt64) =
      .ok (UInt64.ofNat (stop.toNat - start.toNat + 1)) ∧
    (UInt64.ofNat (stop.toNat - start.toNat + 1)).toNat = stop.toNat - start.toNat + 1 := by
  have small : stop.toNat - start.toNat + 1 < UInt64.size :=
    Nat.lt_of_le_of_lt (by omega) found.size.toNat_lt
  have difference : (UInt64.ofNat (stop.toNat - start.toNat)).toNat = stop.toNat - start.toNat :=
    UInt64.toNat_ofNat_of_lt' (Nat.lt_trans (Nat.lt_succ_self _) small)
  have subtracted : (checkedSub stop start : Checked ε UInt64) =
      .ok (UInt64.ofNat (stop.toNat - start.toNat)) :=
    checkedSub_eq_ok.mpr (by rw [difference]; exact Nat.sub_add_cancel order)
  refine ⟨?_, UInt64.toNat_ofNat_of_lt' small⟩
  rw [subtracted, bind_ok, checkedAdd, difference]
  exact if_pos small

/-- The bytes of a range that fits are what is served. -/
theorem length_slice {content : Bytes} {start stop : Nat} (order : start ≤ stop)
    (inside : stop < content.length) :
    ((content.drop start).take (stop - start + 1)).length = stop - start + 1 := by
  rw [List.length_take, List.length_drop]
  omega

/-- A range that fits is served as it is, or the file cannot be read. -/
theorem serves_range {header : Option Bytes} {found : Found} {status : StatusCode}
    {start stop : UInt64} (filename : Str)
    (parsed : (parseRange header found.size : Checked ε _) = .ok (status, start, stop))
    (order : start.toNat ≤ stop.toNat) :
    ∃ response, (serverFileWithBucket header filename (some found) : Checked ε _) = .ok response ∧
      (response.status = .ok ∨ response.status = .partialContent →
        response.status = status ∧ ServesRange found start stop response) := by
  obtain ⟨inside, code⟩ := parseRange_inside parsed
  obtain ⟨length, value⟩ := @length_of_range ε found start stop order inside
  have size := found.toNat_size
  have streamed := length_slice order (size ▸ inside)
  have missing : ¬ (fileNotFound.status = .ok ∨ fileNotFound.status = .partialContent) := by decide
  have served : ∀ contentType, ServesRange found start stop
      ⟨status, contentType, some (decimal (stop.toNat - start.toNat + 1)),
        if status = .partialContent then some (contentRangeText start stop found.size) else none,
        (found.content.drop start.toNat).take (stop.toNat - start.toNat + 1)⟩ := fun contentType =>
    ⟨order, inside, rfl, rfl, rfl, streamed, by rw [streamed]; omega⟩
  unfold serverFileWithBucket
  simp only [parsed, bind_ok, length, value]
  cases found with
  | file file =>
      cases opens : file.opens with
      | false =>
          simp only [tryServeFromFilesystem, opens, Bool.false_eq_true, if_false]
          exact ⟨_, rfl, fun reached => absurd reached missing⟩
      | true =>
          simp only [tryServeFromFilesystem, opens, if_true, length, bind_ok, value]
          exact ⟨_, rfl, fun _ => ⟨rfl, served _⟩⟩
  | object object =>
      cases read : object.read start stop with
      | none =>
          simp only [tryServeFromS3, read]
          exact ⟨_, rfl, fun reached => absurd reached missing⟩
      | some data =>
          obtain rfl := object.read_inside order (size ▸ inside) read
          simp only [tryServeFromS3, read]
          exact ⟨_, rfl, fun _ => ⟨rfl, served _⟩⟩

/-- **Ranges are safe** exactly when no file is found, or the range that is asked
for fits the file. -/
theorem servedSafely_iff (header : Option Bytes) (filename : Str) (found : Option Found) :
    ServedSafely header filename found ↔
      ∀ stored, found = some stored → rangeFits header stored.size = true := by
  constructor
  · rintro ⟨response, ok, -⟩ stored rfl
    obtain ⟨⟨status, start, stop⟩, parsed, rest⟩ := bind_eq_ok ok
    obtain ⟨length, computed, -⟩ := bind_eq_ok rest
    obtain ⟨difference, subtracted, -⟩ := bind_eq_ok computed
    have value := checkedSub_eq_ok.mp subtracted
    exact (rangeFits_iff header stored.size).mpr ⟨status, start, stop, parsed, by omega⟩
  · intro fits
    cases found with
    | none =>
        exact ⟨fileNotFound, rfl, fun reached => absurd reached (by decide)⟩
    | some stored =>
        obtain ⟨status, start, stop, parsed, order⟩ :=
          (rangeFits_iff header stored.size).mp (fits stored rfl)
        obtain ⟨response, ok, serves⟩ := serves_range filename parsed order
        refine ⟨response, ok, fun reached => ?_⟩
        obtain ⟨same, range⟩ := serves reached
        exact ⟨stored, start, stop, rfl, same ▸ parsed, range⟩

/-- A file of ten bytes on disk. -/
def tenBytes : LocalFile := ⟨List.replicate 10 0, by decide, true⟩

/-- The three ways in which the arithmetic fails: a range that ends before it
starts, one that starts behind the file, and any request of an empty file. -/
theorem ranges_underflow :
    (∀ header ∈ ["bytes=5-2".toList, "bytes=10-".toList],
      (serverFileWithBucket (some (utf8 header)) "a.mp4".toList (some (.file tenBytes)) :
        Checked Empty FileResponse) matches .error .panic) ∧
    ((serverFileWithBucket none "a.mp4".toList (some (.file ⟨[], by decide, true⟩)) :
      Checked Empty FileResponse) matches .error .panic) ∧
    ¬ ServedSafely (some (utf8 "bytes=5-2".toList)) "a.mp4".toList (some (.file tenBytes)) := by
  refine ⟨by decide, by decide, ?_⟩
  rintro ⟨response, ok, -⟩
  have panics : (serverFileWithBucket (some (utf8 "bytes=5-2".toList)) "a.mp4".toList
      (some (.file tenBytes)) : Checked Empty FileResponse) = .error .panic := rfl
  rw [panics] at ok
  cases ok

end VideoStorage.Api
