import VideoStorage.Api.VideoKey
import VideoStorage.Claim.VideoFilename

/-!
# What is authorised and what is served

The claim middleware and `serve_video` read the same filename with two parsers.
The middleware's asset id and width are checked against the token; the serving
chain's job id and key name the object. The two agree when the asset id is the
job id and a key `<number>/<file>` has its number reported as the width.

They agree exactly on the filenames of `AuthorisedShape`: one to three segments,
a file the converter writes, a width that fits 16 bits, and a bucket that is
not a number (`authorised_iff_shape`). The middleware reads the width off the
middle of three segments whatever they are, while the serving chain takes a
numeric first segment for a width, so `720//a.m3u8` is served from the
directory of width 720 and checked for no width.
-/

set_option autoImplicit false

namespace VideoStorage.Api

open RustStd Str Path Claim

/-! ## The width a key stands in -/

/-- The key, with repeated separators collapsed, is `<number n>/<file>`. -/
def WidthKey (key : Str) (n : Nat) : Prop :=
  ∃ digits file, collapseSeparators key = digits ++ '/' :: file ∧ isDecimal digits = true ∧
    decimalValue digits = n

/-- The width is the number before the first separator of the key. -/
theorem widthKey_iff {key : Str} {n : Nat} :
    WidthKey key n ↔ ∃ digits rest, splitOnce '/' key = some (digits, rest) ∧
      isDecimal digits = true ∧ decimalValue digits = n := by
  constructor
  · rintro ⟨digits, file, equal, decimal, value⟩
    have absent := notMem_of_allDigits (c := '/') (isDecimal_iff.mp decimal).2 (by decide)
    obtain ⟨rest, found⟩ := splitOnce_collapseSeparators.mp
      ⟨file, splitOnce_eq_some.mpr ⟨equal, absent⟩⟩
    exact ⟨digits, rest, found, decimal, value⟩
  · rintro ⟨digits, rest, found, decimal, value⟩
    obtain ⟨file, found'⟩ := splitOnce_collapseSeparators.mpr ⟨rest, found⟩
    exact ⟨digits, file, (splitOnce_eq_some.mp found').1, decimal, value⟩

theorem not_widthKey_of_notMem {key : Str} {n : Nat} (absent : '/' ∉ key) : ¬ WidthKey key n := by
  rw [widthKey_iff, splitOnce_eq_none.mpr absent]
  rintro ⟨digits, rest, found, -⟩
  cases found

theorem widthKey_append {first rest : Str} {n : Nat} (absent : '/' ∉ first) :
    WidthKey (first ++ '/' :: rest) n ↔ isDecimal first = true ∧ decimalValue first = n := by
  rw [widthKey_iff, splitOnce_append absent]
  constructor
  · rintro ⟨digits, rest', found, decimal, value⟩
    cases found
    exact ⟨decimal, value⟩
  · rintro ⟨decimal, value⟩
    exact ⟨first, rest, rfl, decimal, value⟩

/-- Every width the key stands in is the reported one. -/
def WidthReported (key : Str) (width : Option UInt16) : Prop :=
  ∀ n, WidthKey key n → width.map UInt16.toNat = some n

/-- A segment that is a number fits 16 bits. -/
def FitsWidth (segment : Str) : Prop := isDecimal segment = true → decimalValue segment ≤ 65535

/-- A width read off the first segment of the key is reported when it fits. -/
theorem widthReported_iff_fits {first rest : Str} (absent : '/' ∉ first) :
    WidthReported (first ++ '/' :: rest) (parseU16 first) ↔ FitsWidth first := by
  simp only [WidthReported, widthKey_append absent]
  constructor
  · intro reported decimal
    have here := reported _ ⟨decimal, rfl⟩
    rw [parseU16_of_isDecimal decimal] at here
    by_contra large
    rw [if_neg large] at here
    cases here
  · rintro fits n ⟨decimal, rfl⟩
    rw [parseU16_of_isDecimal decimal, if_pos (fits decimal)]

/-- When another segment is read, a numeric first segment goes unreported. -/
theorem widthReported_none_iff {first rest : Str} (absent : '/' ∉ first) :
    WidthReported (first ++ '/' :: rest) none ↔ isDecimal first = false := by
  simp only [WidthReported, widthKey_append absent]
  constructor
  · intro reported
    by_contra decimal
    cases reported _ ⟨by simpa using decimal, rfl⟩
  · rintro notDecimal n ⟨decimal, -⟩
    rw [notDecimal] at decimal
    cases decimal

/-! ## The job id of a key -/

/-- The job id of a key without separators is the file up to its first dash. -/
theorem jobIdOfPath_of_notMem {path : Str} (absent : '/' ∉ path) :
    jobIdOfPath path = upTo '-' path := by
  have free : '/' ∉ headPiece path := fun member => absent ((List.takeWhile_prefix _).subset member)
  rw [jobIdOfPath, splitOnce_of_notMem free, headPiece]

/-- A first segment without a dash is not part of the job id. -/
theorem jobIdOfPath_append {first : Str} (rest : Str) (absent : '/' ∉ first)
    (noDash : '-' ∉ first) :
    jobIdOfPath (first ++ '/' :: rest) = upTo '-' rest := by
  have head : headPiece (first ++ '/' :: rest) = first ++ '/' :: upTo '-' rest := by
    have free : ∀ c ∈ first, (c != '-') = true := fun c member => by
      simpa using fun same : c = '-' => noDash (same ▸ member)
    rw [headPiece, upTo, List.takeWhile_append_of_pos free, List.takeWhile_cons_of_pos (by decide),
      upTo]
  rw [jobIdOfPath, head, splitOnce_append absent]

/-- A first segment with a dash holds the job id before that dash. -/
theorem jobIdOfPath_append_of_mem {first rest : Str} (absent : '/' ∉ first) (dash : '-' ∈ first) :
    jobIdOfPath (first ++ '/' :: rest) = upTo '-' first := by
  have head : headPiece (first ++ '/' :: rest) = upTo '-' first := by
    rcases eq_upTo_or '-' first with whole | ⟨more, equal⟩
    · exact absurd dash (whole ▸ upTo_notMem '-' first)
    · rw [headPiece, equal, List.append_assoc, List.cons_append,
        upTo_append (upTo_notMem '-' first), upTo_append (upTo_notMem '-' first)]
  have free : '/' ∉ upTo '-' first := fun member =>
    absent ((List.takeWhile_prefix _).subset member)
  rw [jobIdOfPath, head, splitOnce_of_notMem free]

/-- When the file a key ends with is accepted, the one dot of the key stands in
that file. -/
theorem dot_of_file {front file path suffix assetId : Str} {segment : Option UInt32}
    (equal : front ++ file = path ++ '.' :: suffix) (noDot' : '.' ∉ suffix)
    (ok : parseFilePart file = some (assetId, segment)) :
    ∃ stem, file = stem ++ '.' :: suffix ∧ path = front ++ stem := by
  cases found : rsplitOnce '.' file with
  | none =>
      have absent := splitOnce_eq_none.mp (Option.map_eq_none_iff.mp found)
      exact absurd (List.mem_reverse.mpr (parseFilePart_dot ok)) absent
  | some pieces =>
      obtain ⟨stem, extension⟩ := pieces
      obtain ⟨rfl, free⟩ := rsplitOnce_eq_some.mp found
      rw [← List.append_assoc] at equal
      have same := front_eq_of_oneDot noDot' free equal.symm
      rw [same] at equal
      have rest : '.' :: extension = '.' :: suffix := List.append_cancel_left equal
      exact ⟨stem, by rw [rest], same.symm⟩

/-! ## The filenames on which the two agree -/

/-- The filenames the two readings agree on. Of three segments the first is the
bucket, unless the second has a dash: then it holds the job id. -/
def AuthorisedShape (filename : Str) : Prop :=
  match split '/' filename with
  | [file] => ∃ id, PlainFile id file
  | [first, file] => FitsWidth first ∧ ∃ id, PlainFile id file
  | [first, second, file] =>
      if '-' ∈ second then isDecimal first = false ∧ PlainFile (upTo '-' second) file
      else allDigits first = false ∧ FitsWidth second ∧ ∃ id, PlainFile id file
  | _ => False

/-- The two readings agree on the object served. -/
def Agree (key jobId assetId : Str) (width : Option UInt16) : Prop :=
  assetId = jobId ∧ WidthReported key width

section Agreement

variable {first file key jobId assetId : Str} {segment : Option UInt32}

/-- The job id of a key that ends with an accepted file. -/
theorem jobId_of_file {front : Str}
    (extract : extractJobIdFromKey (front ++ file) = .ok jobId)
    (parsed : parseFilePart file = some (assetId, segment)) :
    ∃ stem suffix, file = stem ++ '.' :: suffix ∧ '.' ∉ stem ∧ '.' ∉ suffix ∧
      jobId = jobIdOfPath (front ++ stem) := by
  obtain ⟨path, suffix, equal, noDot, noDot', -, rfl⟩ := extractJobIdFromKey_ok extract
  obtain ⟨stem, dot, rfl⟩ := dot_of_file equal noDot' parsed
  exact ⟨stem, suffix, dot, fun member => noDot (List.mem_append_right _ member), noDot', rfl⟩

/-- Where the job id is the file up to its first dash, it is the asset id of the
plain files. -/
theorem assetId_eq_jobId_iff (front : Str)
    (extract : extractJobIdFromKey (front ++ file) = .ok jobId)
    (parsed : parseFilePart file = some (assetId, segment)) (single : '/' ∉ file)
    (reads : ∀ stem, '/' ∉ stem → jobIdOfPath (front ++ stem) = upTo '-' stem) :
    assetId = jobId ↔ ∃ id, PlainFile id file := by
  obtain ⟨stem, suffix, dot, noDot, noDot', rfl⟩ := jobId_of_file extract parsed
  have inside : '/' ∉ stem := fun member => single (by simp [dot, member])
  rw [reads stem inside, eq_comm, upTo_stem_iff dot noDot noDot' parsed]
  simp only [plainFile_iff dot noDot noDot' parsed, exists_eq_left]

/-- Where the job id does not depend on the file, it is the asset id of the plain
files of that id. -/
theorem assetId_eq_jobId_iff_second (front second : Str)
    (extract : extractJobIdFromKey (front ++ file) = .ok jobId)
    (parsed : parseFilePart file = some (assetId, segment))
    (reads : ∀ stem, jobIdOfPath (front ++ stem) = upTo '-' second) :
    assetId = jobId ↔ PlainFile (upTo '-' second) file := by
  obtain ⟨stem, suffix, dot, noDot, noDot', rfl⟩ := jobId_of_file extract parsed
  rw [reads stem, plainFile_iff dot noDot noDot' parsed]
  constructor
  · intro same
    exact ⟨same.symm, same ▸ upTo_notMem '-' second⟩
  · exact fun plain => plain.1.symm

/-- A job id with a separator is no asset id. -/
theorem assetId_ne_jobId (front : Str)
    (extract : extractJobIdFromKey (front ++ file) = .ok jobId)
    (parsed : parseFilePart file = some (assetId, segment)) (single : '/' ∉ file)
    (reads : ∀ stem, '/' ∈ jobIdOfPath (front ++ stem)) : assetId ≠ jobId := by
  obtain ⟨stem, suffix, dot, noDot, noDot', rfl⟩ := jobId_of_file extract parsed
  obtain ⟨codec, listed, tail, kind, equal⟩ := parseFilePart_shape dot noDot noDot' parsed
  rintro rfl
  exact single (by rw [equal]; simp [reads stem])

/-- A file of its own is served under the id it is authorised for when it is
plain. -/
theorem agree_iff_file (extract : extractJobIdFromKey file = .ok jobId)
    (parsed : parseFilePart file = some (assetId, segment)) (single : '/' ∉ file)
    (width : Option UInt16) : Agree file jobId assetId width ↔ ∃ id, PlainFile id file := by
  rw [Agree, assetId_eq_jobId_iff [] extract parsed single fun stem absent =>
    jobIdOfPath_of_notMem absent]
  exact and_iff_left fun n stands => absurd stands (not_widthKey_of_notMem single)

/-- Behind a first segment without a dash the width is read off that segment. -/
theorem agree_iff_width (extract : extractJobIdFromKey (first ++ '/' :: file) = .ok jobId)
    (parsed : parseFilePart file = some (assetId, segment)) (single : '/' ∉ file)
    (absent : '/' ∉ first) (noDash : '-' ∉ first) :
    Agree (first ++ '/' :: file) jobId assetId (parseU16 first) ↔
      FitsWidth first ∧ ∃ id, PlainFile id file := by
  rw [Agree, widthReported_iff_fits absent, and_comm]
  refine and_congr_right' (assetId_eq_jobId_iff (first ++ ['/']) ?_ parsed single ?_)
  · simpa using extract
  · intro stem _
    simpa using jobIdOfPath_append stem absent noDash

/-- A segment with a dash before the file holds the job id and is no width. -/
theorem agree_iff_dashed (front second : Str)
    (extract : extractJobIdFromKey (front ++ second ++ '/' :: file) = .ok jobId)
    (parsed : parseFilePart file = some (assetId, segment)) (dash : '-' ∈ second)
    (reads : ∀ stem, jobIdOfPath (front ++ second ++ '/' :: stem) = upTo '-' second) :
    Agree (front ++ second ++ '/' :: file) jobId assetId (parseU16 second) ↔
      WidthReported (front ++ second ++ '/' :: file) none ∧ PlainFile (upTo '-' second) file := by
  rw [Agree, parseU16_eq_none_of_mem dash (by decide) (by decide), and_comm]
  refine and_congr_right'
    (assetId_eq_jobId_iff_second (front ++ second ++ ['/']) second ?_ parsed ?_)
  · simpa using extract
  · intro stem
    simpa using reads stem

/-- Behind two segments, the first of them a number, the job id is read out of
the second. -/
theorem agree_iff_number {second : Str}
    (extract : extractJobIdFromKey (first ++ '/' :: (second ++ '/' :: file)) = .ok jobId)
    (parsed : parseFilePart file = some (assetId, segment)) (single : '/' ∉ file)
    (absent : '/' ∉ first) (digits : allDigits first = true) :
    Agree (first ++ '/' :: (second ++ '/' :: file)) jobId assetId (parseU16 second) ↔
      '-' ∈ second ∧ isDecimal first = false ∧ PlainFile (upTo '-' second) file := by
  have noDash := notMem_of_allDigits (c := '-') digits (by decide)
  have reads : ∀ stem, jobIdOfPath (first ++ '/' :: (second ++ '/' :: stem)) =
      upTo '-' (second ++ '/' :: stem) := fun stem => jobIdOfPath_append _ absent noDash
  by_cases dash : '-' ∈ second
  · have cut : ∀ stem, upTo '-' (second ++ '/' :: stem) = upTo '-' second := by
      intro stem
      rcases eq_upTo_or '-' second with whole | ⟨more, equal⟩
      · exact absurd dash (whole ▸ upTo_notMem '-' second)
      · rw [equal, List.append_assoc, List.cons_append, upTo_append (upTo_notMem '-' second),
          upTo_append (upTo_notMem '-' second)]
    have dashed := agree_iff_dashed (first ++ ['/']) second
      (by simpa using extract) parsed dash (fun stem => by simpa [cut] using reads stem)
    simp only [List.append_assoc, List.cons_append, List.nil_append] at dashed
    rw [dashed, widthReported_none_iff absent]
    exact (and_iff_right dash).symm
  · refine iff_of_false (fun agree => ?_) (fun shape => dash shape.1)
    refine assetId_ne_jobId (first ++ '/' :: (second ++ ['/'])) (by simpa using extract)
      parsed single (fun stem => ?_) agree.1
    have inside : '/' ∈ upTo '-' (second ++ '/' :: stem) := by
      have free : ∀ c ∈ second, (c != '-') = true := fun c member => by
        simpa using fun same : c = '-' => dash (same ▸ member)
      rw [upTo, List.takeWhile_append_of_pos free, List.takeWhile_cons_of_pos (by decide)]
      simp
    simpa [reads] using inside

/-! ### One, two and three segments -/

theorem agree_iff_shape_file {bucket : Option Str} (absent : '/' ∉ file)
    (split : splitBucketAndKey file = .ok (bucket, key))
    (extract : extractJobIdFromKey key = .ok jobId)
    (parsed : parseFilePart file = some (assetId, segment)) :
    Agree key jobId assetId none ↔ AuthorisedShape file := by
  simp only [AuthorisedShape, split_of_notMem absent]
  rcases splitBucketAndKey_ok split with ⟨-, rfl, -⟩ | ⟨first, -, found, -⟩
  · exact agree_iff_file extract parsed absent none
  · rw [splitOnce_of_notMem absent] at found
    cases found

theorem agree_iff_shape_pair {bucket : Option Str} (absent : '/' ∉ first) (single : '/' ∉ file)
    (split : splitBucketAndKey (first ++ '/' :: file) = .ok (bucket, key))
    (extract : extractJobIdFromKey key = .ok jobId)
    (parsed : parseFilePart file = some (assetId, segment)) :
    Agree key jobId assetId (parseU16 first) ↔ AuthorisedShape (first ++ '/' :: file) := by
  simp only [AuthorisedShape, split_append absent, split_of_notMem single]
  rcases splitBucketAndKey_ok split with ⟨-, rfl, digits⟩ | ⟨first', -, found, notDigits⟩
  · have firstDigits := digits _ _ (splitOnce_append absent _)
    exact agree_iff_width extract parsed single absent (notMem_of_allDigits firstDigits (by decide))
  · rw [splitOnce_append absent] at found
    cases found
    have fits : FitsWidth first := fun decimal => by
      rw [(isDecimal_iff.mp decimal).2] at notDigits
      cases notDigits
    rw [agree_iff_file extract parsed single, and_iff_right fits]

theorem agree_iff_shape_triple {second : Str} {bucket : Option Str} (absent : '/' ∉ first)
    (absent' : '/' ∉ second) (single : '/' ∉ file)
    (split : splitBucketAndKey (first ++ '/' :: (second ++ '/' :: file)) = .ok (bucket, key))
    (extract : extractJobIdFromKey key = .ok jobId)
    (parsed : parseFilePart file = some (assetId, segment)) :
    Agree key jobId assetId (parseU16 second) ↔
      AuthorisedShape (first ++ '/' :: (second ++ '/' :: file)) := by
  simp only [AuthorisedShape, split_append absent, split_append absent', split_of_notMem single]
  rcases splitBucketAndKey_ok split with ⟨-, rfl, digits⟩ | ⟨first', -, found, notDigits⟩
  · -- The first segment is part of the key, and the width is read off the second.
    have firstDigits := digits _ _ (splitOnce_append absent _)
    rw [agree_iff_number extract parsed single absent firstDigits, firstDigits]
    split
    · rename_i dash
      exact and_iff_right dash
    · rename_i noDash
      exact iff_of_false (fun shape => noDash shape.1) nofun
  · -- The first segment is the bucket.
    rw [splitOnce_append absent] at found
    cases found
    have notDecimal : isDecimal first = false := by simp [isDecimal, notDigits]
    split
    · rename_i dash
      have dashed := agree_iff_dashed [] second (by simpa using extract) parsed dash
        (fun stem => jobIdOfPath_append_of_mem absent' dash)
      simp only [List.nil_append] at dashed
      have notWidth : isDecimal second = false := by
        rw [← Bool.not_eq_true, isDecimal_iff]
        exact fun decimal => notMem_of_allDigits decimal.2 (by decide) dash
      rw [dashed, widthReported_none_iff absent', and_iff_right notWidth,
        and_iff_right notDecimal]
    · rename_i noDash
      rw [agree_iff_width extract parsed single absent' noDash, and_iff_right notDigits]

end Agreement

/-- **What is authorised is what is served**, exactly on the filenames of
`AuthorisedShape`. -/
theorem authorised_iff_shape {filename key jobId assetId : Str} {bucket : Option Str}
    {segment : Option UInt32} {width : Option UInt16}
    (parsed : parseVideoFilename filename = some (assetId, segment, width))
    (split : splitBucketAndKey filename = .ok (bucket, key))
    (extract : extractJobIdFromKey key = .ok jobId) :
    (assetId = jobId ∧ ∀ n, WidthKey key n → width.map UInt16.toNat = some n) ↔
      AuthorisedShape filename := by
  change Agree key jobId assetId width ↔ AuthorisedShape filename
  obtain ⟨file, cut, accepted⟩ := parseVideoFilename_ok parsed
  unfold filePartAndWidth at cut
  split at cut
  · rename_i single
    cases cut
    obtain ⟨rfl, absent⟩ := split_eq_singleton.mp single
    exact agree_iff_shape_file absent split extract accepted
  · rename_i first _ pieces
    cases cut
    obtain ⟨back, rfl, absent, rest⟩ := split_eq_cons_cons.mp pieces
    obtain ⟨rfl, single⟩ := split_eq_singleton.mp rest
    exact agree_iff_shape_pair absent single split extract accepted
  · rename_i first second _ pieces
    cases cut
    obtain ⟨back, rfl, absent, rest⟩ := split_eq_cons_cons.mp pieces
    obtain ⟨back', rfl, absent', rest'⟩ := split_eq_cons_cons.mp rest
    obtain ⟨rfl, single⟩ := split_eq_singleton.mp rest'
    exact agree_iff_shape_triple absent absent' single split extract accepted
  · cases cut

theorem authorised_iff_shape_segment :
    ("demo".toList = "demo".toList ∧ ∀ n, WidthKey "720/demo-001.m4s".toList n →
      (some (720 : UInt16)).map UInt16.toNat = some n) ↔
      AuthorisedShape "my-bucket/720/demo-001.m4s".toList :=
  @authorised_iff_shape _ _ _ _ (some "my-bucket".toList) (some 1) _ rfl rfl rfl

/-- The playlist of width 720 is served under a job id that is not the asset id,
and without a width to check. -/
theorem doubled_separator_unauthorised :
    parseVideoFilename "720//a.m3u8".toList = some ("a".toList, none, none) ∧
    splitBucketAndKey "720//a.m3u8".toList = .ok (none, "720//a.m3u8".toList) ∧
    extractJobIdFromKey "720//a.m3u8".toList = .ok "/a".toList ∧
    WidthKey "720//a.m3u8".toList 720 ∧
    ¬ ("a".toList = "/a".toList ∧ ∀ n, WidthKey "720//a.m3u8".toList n →
      (none : Option UInt16).map UInt16.toNat = some n) :=
  ⟨rfl, rfl, rfl, ⟨"720".toList, "a.m3u8".toList, rfl, rfl, rfl⟩, fun agree => by
    cases agree.2 720 ⟨"720".toList, "a.m3u8".toList, rfl, rfl, rfl⟩⟩

end VideoStorage.Api
