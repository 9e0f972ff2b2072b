import VideoStorage.Library.Str

/-!
# The filename a token is checked for

The claim middleware reads an asset id, a segment index and a width out of the
requested filename (`parse_video_filename`). The width is the segment before
the file when it reads as a number; the file is a playlist, an init segment or
a numbered segment.

A file the parser accepts is the asset id, a codec suffix and one of the three
tails (`parseFilePart_shape`). When the asset id has no dash this reading is
the only one (`plainFile_iff`): these are the names the converter writes.
-/

set_option autoImplicit false

namespace VideoStorage.Claim

open RustStd Str

/-! ## The parser -/

/-- `str::parse::<u16>`. -/
def parseU16 (text : Str) : Option UInt16 := (parseUnsigned 65535 text).map UInt16.ofNat

/-- `str::parse::<u32>`. -/
def parseU32 (text : Str) : Option UInt32 := (parseUnsigned 4294967295 text).map UInt32.ofNat

/-- `remove_codec_suffix`. -/
def removeCodecSuffix (assetId : Str) : Str :=
  ((stripSuffix assetId "-h265".toList).or (stripSuffix assetId "-h264".toList)).getD assetId

/-- The file and the width of a filename of one, two or three segments. -/
def filePartAndWidth (filename : Str) : Option (Str × Option UInt16) :=
  match split '/' filename with
  | [file] => some (file, none)
  | [first, file] => some (file, parseU16 first)
  | [_bucket, width, file] => some (file, parseU16 width)
  | _ => none

/-- The asset id and the segment index of a file. The init segment has index 0;
the number of a segment stands behind its last dash. -/
def parseFilePart (file : Str) : Option (Str × Option UInt32) :=
  if endsWith file ".m3u8".toList then
    some (removeCodecSuffix (trimEndMatches file ".m3u8".toList), none)
  else if endsWith file "-init.mp4".toList then
    some (removeCodecSuffix (trimEndMatches file "-init.mp4".toList), some 0)
  else if file.contains '-' && endsWith file ".m4s".toList then
    match rsplitOnce '-' (trimEndMatches file ".m4s".toList) with
    | none => none
    | some (assetIdWithSuffix, number) =>
        (parseU32 number).map fun segment => (removeCodecSuffix assetIdWithSuffix, some segment)
  else none

/-- `parse_video_filename`: the asset id, the segment index and the width. -/
def parseVideoFilename (filename : Str) : Option (Str × Option UInt32 × Option UInt16) := do
  let (file, width) ← filePartAndWidth filename
  let (assetId, segment) ← parseFilePart file
  some (assetId, segment, width)

theorem parseVideoFilename_ok {filename assetId : Str} {segment : Option UInt32}
    {width : Option UInt16} (ok : parseVideoFilename filename = some (assetId, segment, width)) :
    ∃ file, filePartAndWidth filename = some (file, width) ∧
      parseFilePart file = some (assetId, segment) := by
  obtain ⟨⟨file, width'⟩, cut, rest⟩ := Option.bind_eq_some_iff.mp ok
  obtain ⟨⟨assetId', segment'⟩, parsed, here⟩ := Option.bind_eq_some_iff.mp rest
  cases here
  exact ⟨file, cut, parsed⟩

/-! ## Reading a width -/

theorem parseU16_of_isDecimal {text : Str} (decimal : isDecimal text = true) :
    (parseU16 text).map UInt16.toNat =
      if decimalValue text ≤ 65535 then some (decimalValue text) else none := by
  rw [parseU16, parseUnsigned_of_isDecimal decimal]
  split
  · rename_i small
    have inRange : decimalValue text < UInt16.size := Nat.lt_succ_of_le small
    simp only [Option.map_some, UInt16.toNat_ofNat_of_lt' inRange]
  · rfl

theorem parseU32_of_isDecimal {text : Str} (decimal : isDecimal text = true)
    (small : decimalValue text ≤ 4294967295) :
    parseU32 text = some (UInt32.ofNat (decimalValue text)) := by
  rw [parseU32, parseUnsigned_of_isDecimal decimal, if_pos small, Option.map_some]

theorem parseU16_eq_none_of_mem {text : Str} {c : Char} (member : c ∈ text)
    (notDigit : c.isDigit = false) (notPlus : c ≠ '+') : parseU16 text = none := by
  rw [parseU16, parseUnsigned_eq_none_of_mem member notDigit notPlus]
  rfl

/-! ## The shape of an accepted file -/

/-- The codec suffixes, the one of the default codec being empty. -/
def codecSuffixes : List Str := [[], "-h265".toList, "-h264".toList]

/-- What stands behind the codec suffix in a file name. -/
inductive FileTail : Str → Prop where
  | playlist : FileTail ".m3u8".toList
  | init : FileTail "-init.mp4".toList
  | segment (number : Str) (noDash : '-' ∉ number) : FileTail ('-' :: number ++ ".m4s".toList)

/-- A file of the asset `id`: the id, free of dashes, a codec suffix and a
tail. -/
def PlainFile (id file : Str) : Prop :=
  '-' ∉ id ∧ ∃ codec ∈ codecSuffixes, ∃ tail, FileTail tail ∧ file = id ++ codec ++ tail

theorem FileTail.dot {tail : Str} (kind : FileTail tail) : '.' ∈ tail := by
  cases kind with
  | playlist => decide
  | init => decide
  | segment number noDash => exact List.mem_append_right _ (by decide)

theorem FileTail.head {tail : Str} (kind : FileTail tail) :
    ∃ c more, tail = c :: more ∧ (c = '.' ∨ c = '-') := by
  cases kind with
  | playlist => exact ⟨'.', "m3u8".toList, rfl, .inl rfl⟩
  | init => exact ⟨'-', "init.mp4".toList, rfl, .inr rfl⟩
  | segment number noDash => exact ⟨'-', _, rfl, .inr rfl⟩

/-- What stands behind the asset id starts with a dash or a dot and has a
dot. -/
theorem codec_append_tail {codec tail : Str} (listed : codec ∈ codecSuffixes)
    (kind : FileTail tail) :
    ∃ c more, codec ++ tail = c :: more ∧ (c = '.' ∨ c = '-') ∧ '.' ∈ c :: more := by
  have dotted : '.' ∈ codec ++ tail := List.mem_append_right _ kind.dot
  simp only [codecSuffixes, List.mem_cons, List.not_mem_nil, or_false] at listed
  rcases listed with rfl | rfl | rfl
  · obtain ⟨c, more, equal, cut⟩ := kind.head
    exact ⟨c, more, equal, cut, equal ▸ dotted⟩
  · exact ⟨'-', "h265".toList ++ tail, rfl, .inr rfl, dotted⟩
  · exact ⟨'-', "h264".toList ++ tail, rfl, .inr rfl, dotted⟩

/-- What `remove_codec_suffix` removes is a codec suffix. -/
theorem removeCodecSuffix_append (text : Str) :
    ∃ codec ∈ codecSuffixes, text = removeCodecSuffix text ++ codec := by
  unfold removeCodecSuffix
  cases first : stripSuffix text "-h265".toList with
  | some front => exact ⟨_, by simp [codecSuffixes], stripSuffix_eq_some.mp first⟩
  | none =>
      cases second : stripSuffix text "-h264".toList with
      | some front => exact ⟨_, by simp [codecSuffixes], stripSuffix_eq_some.mp second⟩
      | none => exact ⟨[], by simp [codecSuffixes], by simp⟩

/-- Removing the codec suffix of an id without dashes gives the id. -/
theorem removeCodecSuffix_of_noDash {id codec : Str} (noDash : '-' ∉ id)
    (listed : codec ∈ codecSuffixes) : removeCodecSuffix (id ++ codec) = id := by
  simp only [codecSuffixes, List.mem_cons, List.not_mem_nil, or_false] at listed
  have stays : ∀ suffix : Str, '-' ∈ suffix → stripSuffix id suffix = none := fun suffix member =>
    stripSuffix_eq_none.mpr (endsWith_of_notMem member noDash)
  rcases listed with rfl | rfl | rfl
  · simp [removeCodecSuffix, stays]
  · simp [removeCodecSuffix]
  · have other : stripSuffix (id ++ "-h264".toList) "-h265".toList = none :=
      stripSuffix_eq_none.mpr
        (endsWith_of_last_ne '4' '5' (by simp) rfl (by decide))
    simp only [removeCodecSuffix, other, stripSuffix_append, Option.none_or, Option.getD_some]

/-- In a file with one dot the part before an extension has none. -/
theorem front_eq_of_oneDot {stem suffix front extension : Str} (noDot : '.' ∉ suffix)
    (noDot' : '.' ∉ extension) (equal : stem ++ '.' :: suffix = front ++ '.' :: extension) :
    front = stem := by
  have first : rsplitOnce '.' (stem ++ '.' :: suffix) = some (stem, suffix) :=
    rsplitOnce_eq_some.mpr ⟨rfl, noDot⟩
  have second := rsplitOnce_eq_some.mpr ⟨equal, noDot'⟩
  rw [first] at second
  cases second
  rfl

/-- An accepted file has a dot. -/
theorem parseFilePart_dot {file assetId : Str} {segment : Option UInt32}
    (ok : parseFilePart file = some (assetId, segment)) : '.' ∈ file := by
  by_contra absent
  have never : ∀ suffix : Str, '.' ∈ suffix → endsWith file suffix = false :=
    fun suffix member => endsWith_of_notMem member absent
  rw [parseFilePart, never ".m3u8".toList (by decide), never "-init.mp4".toList (by decide),
    never ".m4s".toList (by decide)] at ok
  simp at ok

/-! ### Files of one dot -/

/-- Removing an extension from a file with one dot removes it once. -/
theorem trimEndMatches_of_oneDot {front extension : Str} (noDot : '.' ∉ front)
    (dotted : '.' ∈ extension) : trimEndMatches (front ++ extension) extension = front :=
  trimEndMatches_append (List.ne_nil_of_mem dotted) (endsWith_of_notMem dotted noDot)

theorem parseFilePart_playlist {front : Str} (free : '.' ∉ front) :
    parseFilePart (front ++ ".m3u8".toList) = some (removeCodecSuffix front, none) := by
  rw [parseFilePart, if_pos (endsWith_iff.mpr ⟨_, rfl⟩), trimEndMatches_of_oneDot free (by decide)]

theorem parseFilePart_init {front : Str} (free : '.' ∉ front) :
    parseFilePart (front ++ "-init.mp4".toList) = some (removeCodecSuffix front, some 0) := by
  have notPlaylist : endsWith (front ++ "-init.mp4".toList) ".m3u8".toList = false :=
    endsWith_of_last_ne '4' '8' (by simp) rfl (by decide)
  rw [parseFilePart, if_neg (Bool.eq_false_iff.mp notPlaylist), if_pos (endsWith_iff.mpr ⟨_, rfl⟩),
    trimEndMatches_of_oneDot free (by decide)]

/-- The number of a segment stands behind the last dash. -/
theorem parseFilePart_segment {front number : Str} (free : '.' ∉ front ++ '-' :: number)
    (noDash : '-' ∉ number) :
    parseFilePart ((front ++ '-' :: number) ++ ".m4s".toList) =
      (parseU32 number).map fun segment => (removeCodecSuffix front, some segment) := by
  have last : ((front ++ '-' :: number) ++ ".m4s".toList).getLast? = some 's' := by
    rw [List.getLast?_append]
    rfl
  have notPlaylist := endsWith_of_last_ne 's' '8' last
    (show ".m3u8".toList.getLast? = some '8' from rfl) (by decide)
  have notInit := endsWith_of_last_ne 's' '4' last
    (show "-init.mp4".toList.getLast? = some '4' from rfl) (by decide)
  have dashed : (((front ++ '-' :: number) ++ ".m4s".toList).contains '-' &&
      endsWith ((front ++ '-' :: number) ++ ".m4s".toList) ".m4s".toList) = true := by
    rw [Bool.and_eq_true]
    exact ⟨by simp, endsWith_iff.mpr ⟨_, rfl⟩⟩
  have cut : rsplitOnce '-' (front ++ '-' :: number) = some (front, number) :=
    rsplitOnce_eq_some.mpr ⟨rfl, noDash⟩
  rw [parseFilePart, if_neg (Bool.eq_false_iff.mp notPlaylist),
    if_neg (Bool.eq_false_iff.mp notInit), if_pos dashed,
    trimEndMatches_of_oneDot free (by decide), cut]

section OneDot

variable {file stem suffix : Str}

variable (dot : file = stem ++ '.' :: suffix) (noDot : '.' ∉ stem) (noDot' : '.' ∉ suffix)
include dot noDot noDot'

/-- The part of a file before an extension that holds the only dot. -/
theorem notMem_front_of_extension (front extension : Str) (free : '.' ∉ extension)
    (equal : file = front ++ '.' :: extension) : '.' ∉ front := by
  rw [front_eq_of_oneDot noDot' free (dot.symm.trans equal)]
  exact noDot

/-- An accepted file is the asset id, a codec suffix and a tail. -/
theorem parseFilePart_shape {assetId : Str} {segment : Option UInt32}
    (ok : parseFilePart file = some (assetId, segment)) :
    ∃ codec ∈ codecSuffixes, ∃ tail, FileTail tail ∧ file = assetId ++ codec ++ tail := by
  unfold parseFilePart at ok
  split at ok
  · rename_i playlist
    obtain ⟨front, equal⟩ := endsWith_iff.mp playlist
    have free := notMem_front_of_extension dot noDot noDot' _ _ (by decide) equal
    rw [equal, trimEndMatches_of_oneDot free (by decide)] at ok
    cases ok
    obtain ⟨codec, listed, whole⟩ := removeCodecSuffix_append front
    exact ⟨codec, listed, _, .playlist, by rw [← whole, equal]⟩
  · split at ok
    · rename_i init
      obtain ⟨front, equal⟩ := endsWith_iff.mp init
      have free : '.' ∉ front := fun member =>
        notMem_front_of_extension dot noDot noDot' (front ++ "-init".toList) "mp4".toList
          (by decide) (by simp [equal]) (by simp [member])
      rw [equal, trimEndMatches_of_oneDot free (by decide)] at ok
      cases ok
      obtain ⟨codec, listed, whole⟩ := removeCodecSuffix_append front
      exact ⟨codec, listed, _, .init, by rw [← whole, equal]⟩
    · split at ok
      · rename_i dashed
        simp only [Bool.and_eq_true] at dashed
        obtain ⟨front, equal⟩ := endsWith_iff.mp dashed.2
        have free := notMem_front_of_extension dot noDot noDot' _ _ (by decide) equal
        rw [equal, trimEndMatches_of_oneDot free (by decide)] at ok
        split at ok
        · cases ok
        · rename_i withSuffix number cut
          obtain ⟨segmentValue, -, here⟩ := Option.map_eq_some_iff.mp ok
          cases here
          obtain ⟨pieces, noDash⟩ := rsplitOnce_eq_some.mp cut
          obtain ⟨codec, listed, whole⟩ := removeCodecSuffix_append withSuffix
          refine ⟨codec, listed, _, .segment number noDash, ?_⟩
          rw [← whole, equal, pieces]
          simp
      · cases ok

/-- The parser gives back the id of a plain file. -/
theorem parseFilePart_plain {id assetId : Str} {segment : Option UInt32}
    (plain : PlainFile id file) (ok : parseFilePart file = some (assetId, segment)) :
    assetId = id := by
  obtain ⟨noDash, codec, listed, tail, kind, equal⟩ := plain
  have stripped := removeCodecSuffix_of_noDash noDash listed
  cases kind with
  | playlist =>
      have free := notMem_front_of_extension dot noDot noDot' _ _ (by decide) equal
      rw [equal, parseFilePart_playlist free, stripped] at ok
      cases ok
      rfl
  | init =>
      have free : '.' ∉ id ++ codec := fun member =>
        notMem_front_of_extension dot noDot noDot' (id ++ codec ++ "-init".toList) "mp4".toList
          (by decide) (by simp [equal]) (List.mem_append_left _ member)
      rw [equal, parseFilePart_init free, stripped] at ok
      cases ok
      rfl
  | segment number noDash' =>
      have equal' : file = (id ++ codec ++ '-' :: number) ++ ".m4s".toList := by simp [equal]
      have free := notMem_front_of_extension dot noDot noDot' _ _ (by decide) equal'
      rw [equal', parseFilePart_segment free noDash', stripped] at ok
      obtain ⟨value, -, here⟩ := Option.map_eq_some_iff.mp ok
      cases here
      rfl

/-- The file up to its first dash or dot is the asset id, when that id has no
dash. -/
theorem upTo_stem_iff {assetId : Str} {segment : Option UInt32}
    (ok : parseFilePart file = some (assetId, segment)) :
    upTo '-' stem = assetId ↔ '-' ∉ assetId := by
  constructor
  · intro same
    exact same ▸ upTo_notMem '-' stem
  · intro noDash
    obtain ⟨codec, listed, tail, kind, equal⟩ := parseFilePart_shape dot noDot noDot' ok
    obtain ⟨c, more, behind, cut, dotted⟩ := codec_append_tail listed kind
    rw [List.append_assoc, behind] at equal
    rcases List.append_eq_append_iff.mp (dot.symm.trans equal) with
      ⟨between, longer, rest⟩ | ⟨between, longer, rest⟩
    · cases between with
      | nil => rw [longer, List.append_nil, upTo_of_notMem (by simpa [longer] using noDash)]
      | cons d between =>
          -- The asset id would reach past the only dot.
          rw [List.cons_append, List.cons_eq_cons] at rest
          exact absurd (rest.2 ▸ List.mem_append_right between dotted) noDot'
    · cases between with
      | nil => rw [longer, List.append_nil, upTo_of_notMem noDash]
      | cons d between =>
          rw [List.cons_append, List.cons_eq_cons] at rest
          rcases cut with rfl | rfl
          · exact absurd (by simp [longer, ← rest.1]) noDot
          · rw [longer, ← rest.1, upTo_append noDash]

/-- A parsed file is plain for the asset id the parser gives, when that id has
no dash, and for no other id. -/
theorem plainFile_iff {id assetId : Str} {segment : Option UInt32}
    (ok : parseFilePart file = some (assetId, segment)) :
    PlainFile id file ↔ id = assetId ∧ '-' ∉ assetId := by
  constructor
  · intro plain
    have same := parseFilePart_plain dot noDot noDot' plain ok
    exact ⟨same.symm, same ▸ plain.1⟩
  · rintro ⟨rfl, noDash⟩
    exact ⟨noDash, parseFilePart_shape dot noDot noDot' ok⟩

end OneDot

end VideoStorage.Claim
