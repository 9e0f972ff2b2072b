import VideoStorage.Api.Authorisation
import VideoStorage.Jobs.Output

/-!
# One naming scheme

Four components name the files of a video: the converter gives them their paths
below the output directory, the upload makes object keys of these, `serve_video`
finds the job id in a requested filename, and the claim middleware reads the
asset id, the segment and the width out of it. For the request of a file in a
bucket they should all mean the same file (`NamingAgrees`).

They do for every valid job id without a backslash (`namingAgrees_iff`). The
upload replaces every backslash of a path by a slash, and a job id may hold one:
its files are stored under keys nobody asks for.
-/

set_option autoImplicit false

namespace VideoStorage.Api

open RustStd Str Path Claim Jobs

/-! ## Job ids, buckets and keys -/

def isValidJobId (jobId : Str) : Bool :=
  !jobId.isEmpty && !jobId.contains '/' && !jobId.contains '-' && !jobId.contains '.' &&
    !jobId.contains ' ' && decide ((utf8 jobId).length ≤ 128)

/-- `is_pure_ascii_digits`. -/
def isPureAsciiDigits (text : Str) : Bool := isDecimal text

def validateBucketForWrite (bucket : Str) : Except String Unit :=
  if bucket.isEmpty then .error "Invalid bucket: empty"
  else if bucket.contains '/' then .error "Invalid bucket: contains '/'"
  else if isPureAsciiDigits bucket then
    .error "Invalid bucket: numeric-only bucket is not allowed"
  else .ok ()

/-- `str::replace` of a backslash by a slash. -/
def replaceBackslash (text : Str) : Str := text.map fun c => if c = '\\' then '/' else c

/-- `to_s3_key`. -/
def toS3Key (localRoot file remotePrefix : Str) : Except Str Str :=
  match stripPrefix file localRoot with
  | none => .error (file ++ " not under ".toList ++ localRoot)
  | some rel =>
      let rel := replaceBackslash rel
      if remotePrefix.isEmpty then .ok rel
      else .ok (trimEndMatches remotePrefix ['/'] ++ '/' :: rel)

/-- The filename of a request for a key of a bucket. -/
def requestFilename (bucket rel : Str) : Str := bucket ++ '/' :: rel

/-! ## What the components make of a file -/

/-- The segment the claim middleware should read: 0 for an init segment. -/
def segmentIndex : OutputFile → Option UInt32
  | .master | .playlist .. => none
  | .init .. => some 0
  | .segment _ _ n => some n

/-- The width the claim middleware should read. -/
def widthIndex (file : OutputFile) : Option UInt16 :=
  file.width.map fun width => UInt16.ofNat width.toNat

/-- The components agree on a file of a job, requested with a bucket. -/
structure NamingAgrees (workspace jobId bucket : Str) (file : OutputFile) : Prop where
  /-- `upload_one` stores the file under the key that is read. -/
  stored : toS3Key (join (videosDir workspace) jobId)
      (join (join (videosDir workspace) jobId) (file.path jobId)) "videos".toList =
    .ok (s3Key (file.path jobId))
  split : splitBucketAndKey (requestFilename bucket (file.path jobId)) =
    .ok (some bucket, file.path jobId)
  extracted : extractJobIdFromKey (file.path jobId) = .ok jobId
  /-- `serve_video` looks for the file where it was written. -/
  served : ∀ backend, (∀ defaultBucket build, backend = .s3 defaultBucket build →
      build bucket = true) →
    serveVideo backend (videosDir workspace) (requestFilename bucket (file.path jobId)) =
      .ok ⟨jobId, file.path jobId, join (join (videosDir workspace) jobId) (file.path jobId),
        s3Key (file.path jobId)⟩
  /-- The claim is checked for the file. -/
  parsed : parseVideoFilename (requestFilename bucket (file.path jobId)) =
    some (jobId, segmentIndex file, widthIndex file)

/-! ## Valid job ids and buckets -/

/-- A job id that is valid. -/
structure ValidJobId (jobId : Str) : Prop where
  nonempty : jobId ≠ []
  noSlash : '/' ∉ jobId
  noDash : '-' ∉ jobId
  noDot : '.' ∉ jobId

theorem validJobId_of {jobId : Str} (valid : isValidJobId jobId = true) : ValidJobId jobId := by
  simp only [isValidJobId, Bool.and_eq_true, Bool.not_eq_true', List.isEmpty_eq_false_iff,
    List.contains_eq_mem, decide_eq_false_iff_not] at valid
  exact ⟨valid.1.1.1.1.1, valid.1.1.1.1.2, valid.1.1.1.2, valid.1.1.2⟩

/-- A bucket that may be written to. -/
structure WritableBucket (bucket : Str) : Prop where
  nonempty : bucket ≠ []
  noSlash : '/' ∉ bucket
  notNumber : isDecimal bucket = false

theorem writableBucket_of {bucket : Str} (valid : validateBucketForWrite bucket = .ok ()) :
    WritableBucket bucket := by
  unfold validateBucketForWrite at valid
  split at valid
  · cases valid
  · rename_i nonempty
    split at valid
    · cases valid
    · rename_i noSlash
      split at valid
      · cases valid
      · rename_i notNumber
        exact ⟨by simpa using nonempty, by simpa using noSlash, Bool.eq_false_iff.mpr notNumber⟩

/-! ## The name of a file -/

/-- What stands between the job id and the dot of a name. -/
def nameTail : OutputFile → Str
  | .master => []
  | .playlist codec _ => codec.playlistSuffix
  | .init codec _ => codec.playlistSuffix ++ "-init".toList
  | .segment codec _ n => codec.playlistSuffix ++ '-' :: paddedDecimal 3 n.toNat

def nameExtension : OutputFile → Str
  | .master | .playlist .. => "m3u8".toList
  | .init .. => "mp4".toList
  | .segment .. => "m4s".toList

theorem name_eq (jobId : Str) (file : OutputFile) :
    file.name jobId = jobId ++ nameTail file ++ '.' :: nameExtension file := by
  cases file with
  | master =>
      rw [nameTail, List.append_nil]
      rfl
  | playlist codec width =>
      simp [OutputFile.name, nameTail, nameExtension, ConvertCodec.playlistFilename]
  | init codec width =>
      simp [OutputFile.name, nameTail, nameExtension, ConvertCodec.initFilename,
        ConvertCodec.segmentPrefix_eq]
  | segment codec width n =>
      simp [OutputFile.name, nameTail, nameExtension, ConvertCodec.segmentPrefix_eq]

theorem playlistSuffix_listed (codec : ConvertCodec) : codec.playlistSuffix ∈ codecSuffixes := by
  cases codec with
  | vp9 => exact List.mem_cons_self
  | h265 => exact List.mem_cons_of_mem _ List.mem_cons_self
  | h264 => exact List.mem_cons_of_mem _ (List.mem_cons_of_mem _ List.mem_cons_self)

/-- The characters of a number that is printed. -/
theorem notMem_paddedDecimal {c : Char} (other : c.isDigit = false) (n : Nat) :
    c ∉ paddedDecimal 3 n :=
  notMem_of_allDigits (isDecimal_iff.mp (isDecimal_paddedDecimal 3 n)).2 other

theorem notMem_decimal {c : Char} (other : c.isDigit = false) (n : Nat) : c ∉ decimal n :=
  notMem_of_allDigits (isDecimal_iff.mp (isDecimal_decimal n)).2 other

theorem notMem_nameExtension {c : Char} (other : c = '.' ∨ c = '/' ∨ c = '\\') (file : OutputFile) :
    c ∉ nameExtension file := by
  cases file <;> rcases other with rfl | rfl | rfl <;> simp only [nameExtension] <;> decide

/-- Dots, slashes and backslashes of a name are those of the job id and the one
dot. -/
theorem notMem_nameTail {c : Char} (other : c = '.' ∨ c = '/' ∨ c = '\\') (file : OutputFile) :
    c ∉ nameTail file := by
  have suffix : ∀ codec : ConvertCodec, c ∉ codec.playlistSuffix := by
    intro codec
    cases codec <;> rcases other with rfl | rfl | rfl <;> decide
  have notDigit : c.isDigit = false := by rcases other with rfl | rfl | rfl <;> decide
  have notDash : c ≠ '-' := by rcases other with rfl | rfl | rfl <;> decide
  cases file with
  | master => exact List.not_mem_nil
  | playlist codec width => exact suffix codec
  | init codec width =>
      rw [nameTail, List.mem_append, not_or]
      exact ⟨suffix codec, by rcases other with rfl | rfl | rfl <;> decide⟩
  | segment codec width n =>
      rw [nameTail, List.mem_append, List.mem_cons, not_or, not_or]
      exact ⟨suffix codec, notDash, notMem_paddedDecimal notDigit n.toNat⟩

/-- A name has at most two dashes behind the job id, the first right behind it. -/
theorem nameTail_dashes (file : OutputFile) :
    (nameTail file).count '-' ≤ 2 ∧ (nameTail file = [] ∨ ∃ more, nameTail file = '-' :: more) := by
  have suffix : ∀ codec : ConvertCodec, codec.playlistSuffix.count '-' ≤ 1 ∧
      (codec.playlistSuffix = [] ∨ ∃ more, codec.playlistSuffix = '-' :: more) := by
    intro codec
    cases codec with
    | vp9 => exact ⟨by decide, .inl rfl⟩
    | h265 => exact ⟨by decide, .inr ⟨_, rfl⟩⟩
    | h264 => exact ⟨by decide, .inr ⟨_, rfl⟩⟩
  have behind : ∀ (codec : ConvertCodec) (more : Str), '-' ∉ more →
      (codec.playlistSuffix ++ '-' :: more).count '-' ≤ 2 ∧
        ∃ more', codec.playlistSuffix ++ '-' :: more = '-' :: more' := by
    intro codec more free
    obtain ⟨few, first⟩ := suffix codec
    refine ⟨?_, ?_⟩
    · rw [List.count_append, List.count_cons_self, List.count_eq_zero.mpr free]
      omega
    · rcases first with empty | ⟨rest, equal⟩
      · exact ⟨more, by rw [empty]; rfl⟩
      · exact ⟨rest ++ '-' :: more, by rw [equal]; rfl⟩
  cases file with
  | master => exact ⟨Nat.zero_le _, .inl rfl⟩
  | playlist codec width => exact ⟨(suffix codec).1.trans (by decide), (suffix codec).2⟩
  | init codec width =>
      obtain ⟨few, first⟩ := behind codec "init".toList (by decide)
      exact ⟨few, .inr first⟩
  | segment codec width n =>
      obtain ⟨few, first⟩ := behind codec _ (notMem_paddedDecimal (by decide) n.toNat)
      exact ⟨few, .inr first⟩

theorem notMem_name {jobId : Str} {c : Char} (other : c = '/' ∨ c = '\\') (absent : c ∉ jobId)
    (file : OutputFile) :
    c ∉ file.name jobId := by
  have notDot : c ≠ '.' := by rcases other with rfl | rfl <;> decide
  rw [name_eq, List.mem_append, List.mem_append, List.mem_cons, not_or, not_or, not_or]
  exact ⟨⟨absent, notMem_nameTail (.inr other) file⟩, notDot,
    notMem_nameExtension (.inr other) file⟩

section Files

variable {jobId : Str} (valid : ValidJobId jobId) (file : OutputFile)
include valid

/-! ## The job id of a key -/

/-- The job id stands before the first dash of a name. -/
theorem upTo_stem : upTo '-' (jobId ++ nameTail file) = jobId := by
  rcases (nameTail_dashes file).2 with empty | ⟨more, equal⟩
  · rw [empty, List.append_nil, upTo_of_notMem valid.noDash]
  · rw [equal, upTo_append valid.noDash]

theorem extractJobIdFromKey_path : extractJobIdFromKey (file.path jobId) = .ok jobId := by
  have noDot : '.' ∉ jobId ++ nameTail file := by
    rw [List.mem_append, not_or]
    exact ⟨valid.noDot, notMem_nameTail (.inl rfl) file⟩
  have noSlash : '/' ∉ jobId ++ nameTail file := by
    rw [List.mem_append, not_or]
    exact ⟨valid.noSlash, notMem_nameTail (.inr (.inl rfl)) file⟩
  have dashes : (jobId ++ nameTail file).count '-' ≤ 2 := by
    rw [List.count_append, List.count_eq_zero.mpr valid.noDash, Nat.zero_add]
    exact (nameTail_dashes file).1
  have extension := notMem_nameExtension (.inl rfl) file
  unfold OutputFile.path
  rw [name_eq]
  split
  · rw [extractJobIdFromKey_of_dot noDot extension dashes, jobIdOfPath_of_notMem noSlash,
      upTo_stem valid file]
  · rename_i width _
    have free : ∀ c, c.isDigit = false → c ∉ decimal width.toNat := fun c other =>
      notMem_decimal other width.toNat
    have noDot' : '.' ∉ decimal width.toNat ++ '/' :: (jobId ++ nameTail file) := by
      rw [List.mem_append, List.mem_cons, not_or, not_or]
      exact ⟨free '.' (by decide), by decide, noDot⟩
    have dashes' : (decimal width.toNat ++ '/' :: (jobId ++ nameTail file)).count '-' ≤ 2 := by
      rw [List.count_append, List.count_eq_zero.mpr (free '-' (by decide)), Nat.zero_add,
        List.count_cons_of_ne (by decide)]
      exact dashes
    rw [← List.cons_append, ← List.append_assoc,
      extractJobIdFromKey_of_dot noDot' extension dashes',
      jobIdOfPath_append _ (free '/' (by decide)) (free '-' (by decide)), upTo_stem valid file]

/-! ## What the claim middleware reads -/

theorem parseFilePart_name :
    parseFilePart (file.name jobId) = some (jobId, segmentIndex file) := by
  have noDot : ∀ codec : ConvertCodec, '.' ∉ jobId ++ codec.playlistSuffix := by
    intro codec
    rw [List.mem_append, not_or]
    exact ⟨valid.noDot, notMem_nameTail (.inl rfl) (.playlist codec 0)⟩
  have removed := fun codec : ConvertCodec =>
    removeCodecSuffix_of_noDash valid.noDash (playlistSuffix_listed codec)
  cases file with
  | master =>
      have whole := removed .vp9
      rw [ConvertCodec.playlistSuffix, List.append_nil] at whole
      exact (parseFilePart_playlist valid.noDot).trans (by rw [whole]; rfl)
  | playlist codec width =>
      exact (parseFilePart_playlist (noDot codec)).trans (by rw [removed codec]; rfl)
  | init codec width =>
      rw [OutputFile.name, ConvertCodec.initFilename, ConvertCodec.segmentPrefix_eq]
      exact (parseFilePart_init (noDot codec)).trans (by rw [removed codec]; rfl)
  | segment codec width n =>
      have number : parseU32 (paddedDecimal 3 n.toNat) = some n := by
        rw [parseU32_of_isDecimal (isDecimal_paddedDecimal 3 n.toNat), decimalValue_paddedDecimal,
          UInt32.ofNat_toNat]
        rw [decimalValue_paddedDecimal]
        exact Nat.le_of_lt_succ n.toNat_lt
      have free : '.' ∉ jobId ++ codec.playlistSuffix ++ '-' :: paddedDecimal 3 n.toNat := by
        rw [List.mem_append, List.mem_cons, not_or, not_or]
        exact ⟨noDot codec, by decide, notMem_paddedDecimal (by decide) n.toNat⟩
      have noDash := notMem_paddedDecimal (c := '-') (by decide) n.toNat
      rw [OutputFile.name, ConvertCodec.segmentPrefix_eq]
      refine (parseFilePart_segment free noDash).trans ?_
      rw [number, Option.map_some, removed codec]
      rfl

end Files

/-- A bucket does not read as a width, unless it starts with a plus sign. -/
theorem parseU16_bucket {bucket : Str} (writable : WritableBucket bucket)
    (noSign : bucket.head? ≠ some '+') : parseU16 bucket = none := by
  rw [parseU16, parseUnsigned_of_not_isDecimal writable.notNumber noSign]
  rfl

theorem parseVideoFilename_path {jobId bucket : Str} (valid : ValidJobId jobId)
    (writable : WritableBucket bucket) (noSign : bucket.head? ≠ some '+') {file : OutputFile}
    (fits : ∀ width, file.width = some width → width.toNat ≤ 65535) :
    parseVideoFilename (requestFilename bucket (file.path jobId)) =
      some (jobId, segmentIndex file, widthIndex file) := by
  have noSlash := notMem_name (.inl rfl) valid.noSlash file
  have cut : filePartAndWidth (requestFilename bucket (file.path jobId)) =
      some (file.name jobId, widthIndex file) := by
    unfold filePartAndWidth requestFilename OutputFile.path widthIndex
    rw [split_append writable.noSlash]
    cases here : file.width with
    | none =>
        simp only [split_of_notMem noSlash, parseU16_bucket writable noSign, Option.map_none]
    | some width =>
        have digits := notMem_decimal (c := '/') (by decide) width.toNat
        have read := parseU16_of_isDecimal (isDecimal_decimal width.toNat)
        rw [decimalValue_decimal, if_pos (fits width here)] at read
        obtain ⟨value, found, same⟩ := Option.map_eq_some_iff.mp read
        simp only [split_append digits, split_of_notMem noSlash, found, Option.map_some]
        rw [← same, UInt16.ofNat_toNat]
  simp only [parseVideoFilename, cut, parseFilePart_name valid file, Option.bind_eq_bind,
    Option.bind_some]

/-! ## The key a file is stored under -/

/-- A piece that is more than a dot names something. -/
theorem component_isNone {piece : Str} (nonempty : piece ≠ []) (notDot : piece ≠ ['.']) :
    (component piece).isNone = false := by
  unfold component
  rw [if_neg (not_or.mpr ⟨nonempty, notDot⟩)]
  split <;> rfl

/-- The path of a file is relative and has no empty piece. -/
theorem path_named {jobId : Str} (valid : ValidJobId jobId) (file : OutputFile) :
    isAbsolute (file.path jobId) = false ∧ AllNamed (file.path jobId) := by
  have noSlash := notMem_name (.inl rfl) valid.noSlash file
  obtain ⟨c, rest, first⟩ : ∃ c rest, jobId = c :: rest :=
    List.exists_cons_of_ne_nil valid.nonempty
  have name : ∃ more, file.name jobId = c :: more ∧ c ≠ '.' ∧ c ≠ '/' := by
    refine ⟨rest ++ nameTail file ++ '.' :: nameExtension file, by rw [name_eq, first]; rfl, ?_⟩
    have noDot := valid.noDot
    have free := valid.noSlash
    rw [first, List.mem_cons, not_or] at noDot free
    exact ⟨Ne.symm noDot.1, Ne.symm free.1⟩
  obtain ⟨more, equal, notDot, notSlash⟩ := name
  have named : (component (file.name jobId)).isNone = false := by
    refine component_isNone (by rw [equal]; nofun) fun dot => notDot ?_
    rw [equal] at dot
    exact (List.cons.inj dot).1
  unfold OutputFile.path AllNamed
  cases file.width with
  | none =>
      refine ⟨?_, fun piece member => ?_⟩
      · rw [equal, isAbsolute_cons]
        exact beq_eq_false_iff_ne.mpr notSlash
      · rw [split_of_notMem noSlash] at member
        rwa [List.mem_singleton.mp member]
  | some width =>
      obtain ⟨nonempty, digits⟩ := isDecimal_iff.mp (isDecimal_decimal width.toNat)
      have free := notMem_decimal (c := '/') (by decide) width.toNat
      refine ⟨?_, fun piece member => ?_⟩
      · cases printed : decimal width.toNat with
        | nil => exact absurd printed nonempty
        | cons d digits' =>
            rw [printed, List.mem_cons, not_or] at free
            simp only [printed, List.cons_append, isAbsolute_cons]
            exact beq_eq_false_iff_ne.mpr (Ne.symm free.1)
      · rw [split_append free, split_of_notMem noSlash, List.mem_pair] at member
        rcases member with rfl | rfl
        · refine component_isNone nonempty fun dot => ?_
          have noDot := notMem_decimal (c := '.') (by decide) width.toNat
          exact noDot (dot ▸ List.mem_singleton_self _)
        · exact named

theorem backslash_mem_path {jobId : Str} (file : OutputFile) :
    '\\' ∈ file.path jobId ↔ '\\' ∈ jobId := by
  have name : '\\' ∈ file.name jobId ↔ '\\' ∈ jobId := by
    refine ⟨fun member => not_imp_not.mp (fun absent => ?_) member, fun member => ?_⟩
    · exact notMem_name (.inr rfl) absent file
    · rw [name_eq]
      exact List.mem_append_left _ (List.mem_append_left _ member)
  unfold OutputFile.path
  cases file.width with
  | none => exact name
  | some width =>
      rw [List.mem_append, List.mem_cons, name]
      have free := notMem_decimal (c := '\\') (by decide) width.toNat
      simp [free]

theorem replaceBackslash_eq_self {text : Str} : replaceBackslash text = text ↔ '\\' ∉ text := by
  unfold replaceBackslash
  constructor
  · intro same member
    rw [← same] at member
    obtain ⟨c, -, here⟩ := List.mem_map.mp member
    split at here
    · cases here
    · rename_i other
      exact other here
  · intro absent
    refine (List.map_congr_left fun c member => ?_).trans (List.map_id text)
    exact if_neg fun backslash : c = '\\' => absent (backslash ▸ member)

/-- The key of a file below the root that is uploaded. -/
theorem toS3Key_join {root rel : Str} (relative : isAbsolute rel = false) (nonempty : root ≠ [])
    (named : AllNamed rel) :
    toS3Key root (join root rel) "videos".toList = .ok (s3Key (replaceBackslash rel)) := by
  have trimmed : trimEndMatches "videos".toList ['/'] = "videos".toList := rfl
  have stripped := stripPrefix_join relative nonempty named
  unfold toS3Key
  rw [stripped]
  refine congrArg Except.ok ?_
  rw [trimmed]
  rfl

/-- A file is stored under the key that is read when its job id has no
backslash. -/
theorem toS3Key_path_iff {jobId directory : Str} (valid : ValidJobId jobId)
    (nonempty : directory ≠ []) (file : OutputFile) :
    toS3Key directory (join directory (file.path jobId)) "videos".toList =
        .ok (s3Key (file.path jobId)) ↔ '\\' ∉ jobId := by
  obtain ⟨relative, named⟩ := path_named valid file
  rw [toS3Key_join relative nonempty named, Except.ok.injEq]
  unfold s3Key
  rw [List.append_cancel_left_eq, replaceBackslash_eq_self, backslash_mem_path]

/-! ## All of them -/

theorem splitBucketAndKey_path {bucket rel : Str} (writable : WritableBucket bucket)
    (nonempty : rel ≠ []) :
    splitBucketAndKey (requestFilename bucket rel) = .ok (some bucket, rel) := by
  have notDigits : allDigits bucket = false := by
    have notNumber := writable.notNumber
    simpa [isDecimal, writable.nonempty] using notNumber
  simp only [splitBucketAndKey, requestFilename, splitOnce_append writable.noSlash, notDigits,
    Bool.false_eq_true, if_false, if_neg nonempty]

theorem serveVideo_path {backend : StorageBackend} {videosDir bucket jobId rel : Str}
    (writable : WritableBucket bucket)
    (built : ∀ defaultBucket build, backend = .s3 defaultBucket build → build bucket = true)
    (split : splitBucketAndKey (requestFilename bucket rel) = .ok (some bucket, rel))
    (extracted : extractJobIdFromKey rel = .ok jobId) :
    serveVideo backend videosDir (requestFilename bucket rel) =
      .ok ⟨jobId, rel, join (join videosDir jobId) rel, s3Key rel⟩ := by
  unfold serveVideo
  rw [split]
  cases backend with
  | «local» =>
      simp only [bind, pure, Except.bind, Except.pure, extracted]
      rfl
  | s3 defaultBucket build =>
      have operator : StorageBackend.operatorForBucket (.s3 defaultBucket build) bucket = true := by
        simp [StorageBackend.operatorForBucket, writable.nonempty, writable.noSlash,
          built defaultBucket build rfl]
      simp only [bind, pure, Except.bind, Except.pure, chooseBucketForS3, Option.some_or, operator,
        if_true, extracted]
      rfl

/-- **One naming scheme.** For a valid job id and a bucket that may be written to
and does not start with a plus sign, the components agree on every file of a
conversion exactly when the job id has no backslash. -/
theorem namingAgrees_iff {jobId bucket : Str} {file : OutputFile} (workspace : Str)
    (valid : isValidJobId jobId = true) (writable : validateBucketForWrite bucket = .ok ())
    (noSign : bucket.head? ≠ some '+')
    (fits : ∀ width, file.width = some width → width.toNat ≤ 65535) :
    NamingAgrees workspace jobId bucket file ↔ '\\' ∉ jobId := by
  have valid := validJobId_of valid
  have writable := writableBucket_of writable
  have directory : join (videosDir workspace) jobId ≠ [] := join_ne_nil (videosDir_ne_nil workspace)
  have stored := toS3Key_path_iff valid directory file
  constructor
  · intro agrees
    exact stored.mp agrees.stored
  · intro free
    have nonempty : file.path jobId ≠ [] := by
      intro empty
      have unnamed := (path_named valid file).2 [] (by rw [empty]; exact List.mem_singleton_self _)
      cases unnamed
    have split := splitBucketAndKey_path writable nonempty
    have extracted := extractJobIdFromKey_path valid file
    exact ⟨stored.mpr free, split, extracted,
      fun _ built => serveVideo_path writable built split extracted,
      parseVideoFilename_path valid writable noSign fits⟩

theorem namingAgrees_iff_segment :
    NamingAgrees "/srv".toList "demo".toList "my-bucket".toList (.segment .h265 720 7) ↔
      '\\' ∉ "demo".toList :=
  namingAgrees_iff "/srv".toList (by decide) rfl (by decide) fun _ here =>
    (Option.some.inj here) ▸ by decide

/-- A job id with a backslash: its master playlist is stored one level deeper
than it is asked for. -/
theorem backslash_is_stored_elsewhere :
    isValidJobId "a\\b".toList = true ∧ validateBucketForWrite "media".toList = .ok () ∧
    toS3Key "/srv/videos/a\\b".toList "/srv/videos/a\\b/a\\b.m3u8".toList "videos".toList =
      .ok "videos/a/b.m3u8".toList ∧
    ¬ NamingAgrees "/srv".toList "a\\b".toList "media".toList .master := by
  refine ⟨by decide, rfl, rfl, fun agrees => ?_⟩
  exact absurd agrees.stored (by decide)

end VideoStorage.Api
