import VideoStorage.Library.Bytes
import VideoStorage.Library.UnixPath

/-!
# From a request filename to a file

`serve_video` cuts the requested filename twice. `split_bucket_and_key` takes
off a bucket, the first segment when it is not a number, and
`extract_job_id_from_key` reads the job id out of the remaining key. The file
opened is `videos_dir/<job id>/<key>`, the object read from S3 is
`videos/<key>`.

**Confinement.** The file opened lies strictly below `videos_dir`, wherever the
workspace is, exactly when neither piece starts with a separator and the key
names something (`localPath_confined_iff`). In terms of the filename the pieces
go wrong in four ways, collected in `confinedFilename`: a leading separator
(the digit test of the first segment holds of the empty segment), a separator
right after the stripped prefix, a doubled separator after the first segment of
the key, and a key that is a lone dot.
-/

set_option autoImplicit false

namespace VideoStorage.Api

open RustStd Str Path

/-! ## The splitters -/

/-- `split_bucket_and_key`: the bucket, when the first segment is one, and the
key. A numeric first segment is a width and belongs to the key. -/
def splitBucketAndKey (filename : Str) : Except String (Option Str × Str) :=
  match splitOnce '/' filename with
  | none => .ok (none, filename)
  | some (first, rest) =>
      if allDigits first then .ok (none, filename)
      else if rest = [] then .error "Invalid /videos path"
      else .ok (some first, rest)

/-- `extract_job_id_from_key`: the key must have one dot, and one to three
pieces between dashes before it. The job id is the first piece, without the
segment before its first separator. -/
def extractJobIdFromKey (key : Str) : Except String Str :=
  let pathAndSuffix := split '.' key
  if pathAndSuffix.length ≠ 2 then .error "Invalid filename"
  else
    let path := pathAndSuffix.headD []
    let vals := split '-' path
    if ¬ (1 ≤ vals.length ∧ vals.length ≤ 3) then .error "Invalid filename"
    else
      match splitOnce '/' (vals.headD []) with
      | some (_, jid) => .ok jid
      | none => .ok (vals.headD [])

/-- `choose_bucket_for_s3`: the bucket of the request, or the default one. -/
def chooseBucketForS3 (bucketPrefix defaultBucket : Option Str) : Except String Str :=
  match bucketPrefix.or defaultBucket with
  | some bucket => .ok bucket
  | none => .error "Missing bucket"

/-- The video directory of a workspace. -/
def videosDir (workspace : Str) : Str := join workspace "videos".toList

/-- The file `serve_video` opens. -/
def localPath (videosDir jobId key : Str) : Str := join (join videosDir jobId) key

/-- The object `serve_video` reads from the bucket. -/
def s3Key (key : Str) : Str := "videos/".toList ++ key

/-- What the storage manager says to a request: nothing for local storage, and
for S3 the default bucket and whether an operator for a bucket can be built. -/
inductive StorageBackend where
  | local
  | s3 (defaultBucket : Option Str) (buildS3Operator : Str → Bool)

/-- `operator_for_bucket` gives an operator. -/
def StorageBackend.operatorForBucket : StorageBackend → Str → Bool
  | .local, _ => false
  | .s3 _ buildS3Operator, bucket =>
      !(bucket.isEmpty || bucket.contains '/') && buildS3Operator bucket

/-- What `serve_video` hands to `server_file_with_bucket`. -/
structure ServeTarget where
  jobId : Str
  key : Str
  localPath : Str
  s3Key : Str

/-- `serve_video` up to `server_file_with_bucket`: the errors are the bodies of
the 400 responses. -/
def serveVideo (backend : StorageBackend) (videosDir filename : Str) :
    Except String ServeTarget := do
  let (bucketPrefix, key) ← splitBucketAndKey filename
  match backend with
  | .local => pure ()
  | .s3 defaultBucket _ =>
      let bucketName ← chooseBucketForS3 bucketPrefix defaultBucket
      if backend.operatorForBucket bucketName then pure () else throw "Invalid bucket"
  let jobId ← extractJobIdFromKey key
  pure { jobId, key, localPath := localPath videosDir jobId key, s3Key := s3Key key }

/-! ## What the splitters return -/

/-- The key is the filename, or what follows a bucket that is not a number. -/
theorem splitBucketAndKey_ok {filename key : Str} {bucket : Option Str}
    (ok : splitBucketAndKey filename = .ok (bucket, key)) :
    (bucket = none ∧ key = filename ∧
      ∀ first rest, splitOnce '/' filename = some (first, rest) → allDigits first = true) ∨
    ∃ first, bucket = some first ∧ splitOnce '/' filename = some (first, key) ∧
      allDigits first = false := by
  unfold splitBucketAndKey at ok
  split at ok
  · rename_i whole
    cases ok
    exact .inl ⟨rfl, rfl, fun first rest found => by rw [whole] at found; cases found⟩
  · rename_i first rest found
    split at ok
    · rename_i digits
      cases ok
      refine .inl ⟨rfl, rfl, fun first' rest' found' => ?_⟩
      rw [found] at found'
      cases found'
      exact digits
    · rename_i notDigits
      split at ok
      · cases ok
      · cases ok
        exact .inr ⟨first, rfl, found, by simpa using notDigits⟩

/-- What is served is what the two splitters return. -/
theorem serveVideo_ok {backend : StorageBackend} {videosDir filename : Str} {target : ServeTarget}
    (ok : serveVideo backend videosDir filename = .ok target) :
    ∃ bucket, splitBucketAndKey filename = .ok (bucket, target.key) ∧
      extractJobIdFromKey target.key = .ok target.jobId ∧
      target.localPath = localPath videosDir target.jobId target.key ∧
      target.s3Key = s3Key target.key := by
  obtain ⟨⟨bucket, key⟩, split, ok⟩ := bind_eq_ok ok
  have finish : (do
      let jobId ← extractJobIdFromKey key
      pure (⟨jobId, key, localPath videosDir jobId key, s3Key key⟩ : ServeTarget)) = .ok target →
      ∃ bucket, splitBucketAndKey filename = .ok (bucket, target.key) ∧
        extractJobIdFromKey target.key = .ok target.jobId ∧
        target.localPath = localPath videosDir target.jobId target.key ∧
        target.s3Key = s3Key target.key := by
    intro ok
    obtain ⟨jobId, extract, here⟩ := bind_eq_ok ok
    cases here
    exact ⟨bucket, split, extract, rfl, rfl⟩
  cases backend with
  | «local» => exact finish ok
  | s3 defaultBucket buildS3Operator =>
      obtain ⟨bucketName, -, ok⟩ := bind_eq_ok ok
      split at ok
      · exact finish ok
      · cases ok

/-- The first piece of a key between dashes: up to its first dash. -/
def headPiece (path : Str) : Str := upTo '-' path

/-- The job id in the part of a key before the dot. -/
def jobIdOfPath (path : Str) : Str :=
  match splitOnce '/' (headPiece path) with
  | some (_, jid) => jid
  | none => headPiece path

/-- An accepted key has one dot, and its job id is read before the dot. -/
theorem extractJobIdFromKey_ok {key jobId : Str} (ok : extractJobIdFromKey key = .ok jobId) :
    ∃ path suffix, key = path ++ '.' :: suffix ∧ '.' ∉ path ∧ '.' ∉ suffix ∧
      (split '-' path).length ≤ 3 ∧ jobId = jobIdOfPath path := by
  simp only [extractJobIdFromKey, split_headD] at ok
  split at ok
  · cases ok
  · rename_i twoPieces
    split at ok
    · cases ok
    · rename_i fewPieces
      cases found : splitOnce '.' key with
      | none =>
          rw [split_of_notMem (splitOnce_eq_none.mp found)] at twoPieces
          simp at twoPieces
      | some pieces =>
          obtain ⟨path, suffix⟩ := pieces
          obtain ⟨rfl, noDot⟩ := splitOnce_eq_some.mp found
          rw [upTo_append noDot] at ok fewPieces
          refine ⟨path, suffix, rfl, noDot, ?_, by omega, ?_⟩
          · rw [split_append noDot] at twoPieces
            exact split_length_one.mp (by simpa using twoPieces)
          · rw [jobIdOfPath, headPiece]
            split at ok <;> rename_i cut <;> cases ok <;> rfl

/-- A key with one dot and at most two dashes before it is accepted. -/
theorem extractJobIdFromKey_of_dot {path suffix : Str} (noDot : '.' ∉ path) (noDot' : '.' ∉ suffix)
    (dashes : path.count '-' ≤ 2) :
    extractJobIdFromKey (path ++ '.' :: suffix) = .ok (jobIdOfPath path) := by
  have pieces : split '.' (path ++ '.' :: suffix) = [path, suffix] := by
    rw [split_append noDot, split_of_notMem noDot']
  have few : 1 ≤ (split '-' path).length ∧ (split '-' path).length ≤ 3 := by
    rw [length_split]
    omega
  simp only [extractJobIdFromKey, pieces, List.headD_cons, split_headD]
  rw [if_neg (by simp), if_neg (not_not.mpr few), jobIdOfPath, headPiece]
  split <;> rfl

/-- The job id stands in the key before the dot. -/
theorem jobIdOfPath_isInfix (path : Str) : jobIdOfPath path <:+: path := by
  have head : headPiece path <+: path := List.takeWhile_prefix _
  rw [jobIdOfPath]
  split
  · rename_i found
    have tail := (splitOnce_eq_some.mp found).1
    refine List.IsInfix.trans ?_ head.isInfix
    rw [tail]
    exact ((List.suffix_cons '/' _).trans (List.suffix_append _ _)).isInfix
  · exact head.isInfix

/-! ## Confinement -/

/-- An accepted key starts with a dot and has only separators after it. -/
def loneDot (key : Str) : Bool := key.head? == some '.' && key.tail.all fun c => c == '/'

/-- The first segment of a key, when it holds neither a dot nor a dash, is
followed by two separators. -/
def doubledSeparator (key : Str) : Bool :=
  match splitOnce '/' key with
  | some (first, rest) => isAbsolute rest && !first.contains '.' && !first.contains '-'
  | none => false

/-- The filenames whose files lie below the video directory: after the stripped
prefix there is neither a leading separator, nor a doubled one behind a first
segment free of dots and dashes, nor a lone dot. -/
def confinedFilename (filename : Str) : Bool :=
  match splitOnce '/' filename with
  | none => filename != ['.']
  | some (first, rest) =>
      if allDigits first then !first.isEmpty && !isAbsolute rest
      else !isAbsolute rest && !doubledSeparator rest && !loneDot rest

/-- A key with one dot names nothing exactly when it is a lone dot. -/
theorem names_eq_nil_iff {path suffix : Str} (noDot : '.' ∉ path) (noDot' : '.' ∉ suffix)
    (relative : isAbsolute (path ++ '.' :: suffix) = false) :
    names (path ++ '.' :: suffix) = [] ↔ loneDot (path ++ '.' :: suffix) = true := by
  constructor
  · intro none
    have separators : ∀ text : Str, '.' ∉ text → (∀ c ∈ text, c ∈ path ++ '.' :: suffix) →
        text.all (fun c => c == '/') = true := by
      intro text free inside
      refine List.all_eq_true.mpr fun c member => ?_
      by_contra other
      exact free (eq_dot_of_names_eq_nil none (inside c member) (by simpa using other) ▸ member)
    have front := separators path noDot fun c member => List.mem_append_left _ member
    have back := separators suffix noDot' fun c member => by simp [member]
    cases path with
    | nil => simpa [loneDot] using back
    | cons c rest =>
        simp only [List.all_cons, Bool.and_eq_true, beq_iff_eq] at front
        simp [isAbsolute_cons, front.1] at relative
  · intro lone
    simp only [loneDot, Bool.and_eq_true, beq_iff_eq] at lone
    cases path with
    | cons c rest =>
        simp only [List.cons_append, List.head?_cons, Option.some.injEq] at lone
        exact absurd (List.mem_cons_self ..) (lone.1 ▸ noDot)
    | nil =>
        have rest := lone.2
        cases suffix with
        | nil => rfl
        | cons c rest' =>
            simp only [List.nil_append, List.tail_cons, List.all_cons, Bool.and_eq_true,
              beq_iff_eq] at rest
            rw [rest.1]
            exact (names_append_separator ['.'] rest').trans (names_of_separators rest.2)

/-- No segment of a text with at most one dot climbs. -/
theorem parentDir_notMem_names {text : Str} (oneDot : text.count '.' ≤ 1) :
    .parentDir ∉ names text := by
  intro member
  obtain ⟨piece, inside, climbs⟩ := List.mem_filterMap.mp member
  have twoDots : piece = ['.', '.'] := by
    unfold component at climbs
    split at climbs
    · cases climbs
    · split at climbs
      · assumption
      · cases climbs
  have count := (infix_of_mem_split inside).sublist.count_le '.'
  rw [twoDots] at count
  have two : List.count '.' ['.', '.'] = 2 := by decide
  omega

/-- Behind the piece that holds the job id a key goes on with a dash or a
dot. -/
theorem headPiece_append (path suffix : Str) :
    ∃ c tail, path ++ '.' :: suffix = headPiece path ++ c :: tail ∧ (c = '.' ∨ c = '-') := by
  rcases eq_upTo_or '-' path with whole | ⟨more, equal⟩
  · exact ⟨'.', suffix, by rw [headPiece, whole], .inl rfl⟩
  · refine ⟨'-', more ++ '.' :: suffix, ?_, .inr rfl⟩
    rw [headPiece]
    nth_rewrite 1 [equal]
    simp

/-- The job id of a key starts with a separator exactly when the key has a
doubled separator after a first segment without dots and dashes. -/
theorem jobId_absolute_iff {path : Str} (noDot : '.' ∉ path) (suffix : Str) :
    isAbsolute (jobIdOfPath path) = doubledSeparator (path ++ '.' :: suffix) := by
  obtain ⟨c, tail, equal, cut⟩ := headPiece_append path suffix
  have notSlash : c ≠ '/' := by rcases cut with rfl | rfl <;> decide
  have noDash : '-' ∉ headPiece path := upTo_notMem '-' path
  have noDot' : '.' ∉ headPiece path := fun member =>
    noDot ((List.takeWhile_prefix _).subset member)
  rw [jobIdOfPath]
  cases found : splitOnce '/' (headPiece path) with
  | some pieces =>
      obtain ⟨first, jid⟩ := pieces
      obtain ⟨head, noSlash⟩ := splitOnce_eq_some.mp found
      rw [head] at noDash noDot'
      simp only [List.mem_append, not_or] at noDash noDot'
      have key : path ++ '.' :: suffix = first ++ '/' :: (jid ++ c :: tail) := by
        rw [equal, head, List.append_assoc, List.cons_append]
      have sameHead : isAbsolute (jid ++ c :: tail) = isAbsolute jid := by
        cases jid with
        | nil => simp [isAbsolute, notSlash]
        | cons d rest => rfl
      simp [doubledSeparator, key, splitOnce_append noSlash, sameHead, noDash.1, noDot'.1]
  | none =>
      have noSlash := splitOnce_eq_none.mp found
      have notAbsolute : isAbsolute (headPiece path) = false := by
        cases head : headPiece path with
        | nil => rfl
        | cons d rest =>
            rw [head, List.mem_cons, not_or] at noSlash
            simpa [isAbsolute] using Ne.symm noSlash.1
      rw [notAbsolute, doubledSeparator]
      split
      · rename_i first rest key
        -- The first segment reaches past the head piece, so it holds the dash or the dot.
        have inside : c ∈ first := mem_front_of_append_eq
          (equal.symm.trans (splitOnce_eq_some.mp key).1) noSlash notSlash
        rcases cut with rfl | rfl <;> simp [inside]
      · rfl

/-- Where neither piece is absolute, the file lies strictly below the video
directory exactly when the key is not a lone dot. -/
theorem localPath_strictDescendant_iff {directory path suffix : Str} (nonempty : directory ≠ [])
    (noDot : '.' ∉ path) (noDot' : '.' ∉ suffix)
    (relativeKey : isAbsolute (path ++ '.' :: suffix) = false)
    (relativeId : isAbsolute (jobIdOfPath path) = false) :
    StrictDescendant (localPath directory (jobIdOfPath path) (path ++ '.' :: suffix)) directory ↔
      loneDot (path ++ '.' :: suffix) = false := by
  have below : components (localPath directory (jobIdOfPath path) (path ++ '.' :: suffix)) =
      components directory ++ (names (jobIdOfPath path) ++ names (path ++ '.' :: suffix)) := by
    rw [localPath, components_join relativeKey (join_ne_nil nonempty),
      components_join relativeId nonempty, List.append_assoc]
  have noClimb : .parentDir ∉ names (jobIdOfPath path) ++ names (path ++ '.' :: suffix) := by
    have oneDot : (path ++ '.' :: suffix).count '.' ≤ 1 := by
      simp [List.count_eq_zero.mpr noDot, List.count_eq_zero.mpr noDot']
    have less := ((jobIdOfPath_isInfix path).trans
      (List.prefix_append path ('.' :: suffix)).isInfix).sublist.count_le '.'
    rw [List.mem_append, not_or]
    exact ⟨parentDir_notMem_names (less.trans oneDot), parentDir_notMem_names oneDot⟩
  rw [strictDescendant_iff below, and_iff_left noClimb, ← Bool.not_eq_true,
    ← names_eq_nil_iff noDot noDot' relativeKey, not_iff_not, List.append_eq_nil_iff]
  constructor
  · exact And.right
  · intro noName
    -- A lone dot leaves nothing before the dot, so the job id is empty too.
    have lone := (names_eq_nil_iff noDot noDot' relativeKey).mp noName
    cases path with
    | nil => exact ⟨rfl, noName⟩
    | cons c rest =>
        simp only [loneDot, List.cons_append, List.head?_cons, Bool.and_eq_true, beq_iff_eq,
          Option.some.injEq] at lone
        exact absurd (List.mem_cons_self ..) (lone.1 ▸ noDot)

theorem videosDir_ne_nil (workspace : Str) : videosDir workspace ≠ [] := by
  rw [videosDir, join, if_neg (by decide)]
  split <;> simp

/-- The video directory of a workspace is deeper than the workspace. -/
theorem not_strictDescendant_videosDir {path : Str} (nonempty : path ≠ []) :
    ¬ StrictDescendant path (videosDir path) := by
  refine not_strictDescendant_of_length ?_
  rw [videosDir, components_join (by decide) nonempty, List.length_append]
  exact Nat.le_add_right _ _

/-- For every workspace the file lies strictly below the video directory
exactly when the key is not absolute, has no doubled separator and is not a
lone dot. -/
theorem localPath_confined_iff_key {key jobId : Str}
    (extract : extractJobIdFromKey key = .ok jobId) :
    (∀ workspace, StrictDescendant (localPath (videosDir workspace) jobId key)
      (videosDir workspace)) ↔
      isAbsolute key = false ∧ doubledSeparator key = false ∧ loneDot key = false := by
  obtain ⟨path, suffix, rfl, noDot, noDot', -, rfl⟩ := extractJobIdFromKey_ok extract
  have keyNonempty : path ++ '.' :: suffix ≠ [] := by simp
  rw [← jobId_absolute_iff noDot suffix]
  cases absoluteKey : isAbsolute (path ++ '.' :: suffix) with
  | true =>
      -- The key itself is opened; a workspace at the key has its videos below it.
      refine iff_of_false (fun confined => ?_) (by simp)
      have opened := confined (path ++ '.' :: suffix)
      rw [localPath, join_absolute absoluteKey] at opened
      exact not_strictDescendant_videosDir keyNonempty opened
  | false =>
      cases absoluteId : isAbsolute (jobIdOfPath path) with
      | true =>
          refine iff_of_false (fun confined => ?_) (by simp)
          have idNonempty : jobIdOfPath path ≠ [] := fun empty => by
            rw [empty] at absoluteId
            cases absoluteId
          have opened := confined (join (jobIdOfPath path) (path ++ '.' :: suffix))
          rw [localPath, join_absolute absoluteId] at opened
          exact not_strictDescendant_videosDir (join_ne_nil idNonempty) opened
      | false =>
          have pointwise := fun workspace => localPath_strictDescendant_iff
            (videosDir_ne_nil workspace) noDot noDot' absoluteKey absoluteId
          simp only [pointwise, true_and, forall_const]

/-- The condition on the filename is the condition on its key. -/
theorem confinedFilename_iff {filename key : Str} {bucket : Option Str}
    (ok : splitBucketAndKey filename = .ok (bucket, key)) :
    confinedFilename filename = true ↔
      isAbsolute key = false ∧ doubledSeparator key = false ∧ loneDot key = false := by
  rcases splitBucketAndKey_ok ok with ⟨-, rfl, digits⟩ | ⟨first, -, found, notDigits⟩
  · cases found : splitOnce '/' key with
    | none =>
        have noSlash := splitOnce_eq_none.mp found
        simp only [confinedFilename, doubledSeparator, found, bne_iff_ne, true_and]
        cases key with
        | nil => decide
        | cons c rest =>
            simp only [List.mem_cons, not_or] at noSlash
            cases rest with
            | nil => simp [isAbsolute_cons, loneDot, Ne.symm noSlash.1]
            | cons d more =>
                simp only [List.mem_cons, not_or] at noSlash
                simp [isAbsolute_cons, loneDot, Ne.symm noSlash.1, Ne.symm noSlash.2.1]
    | some pieces =>
        obtain ⟨first, rest⟩ := pieces
        obtain ⟨equal, noSlash⟩ := splitOnce_eq_some.mp found
        have firstDigits := digits first rest found
        have noDot := notMem_of_allDigits (c := '.') firstDigits (by decide)
        have noDash := notMem_of_allDigits (c := '-') firstDigits (by decide)
        simp only [confinedFilename, doubledSeparator, found, firstDigits]
        subst equal
        cases first with
        | nil => simp [isAbsolute_cons]
        | cons c more =>
            simp only [List.mem_cons, not_or] at noSlash noDot noDash
            simp [isAbsolute_cons, loneDot, noDot, noDash, Ne.symm noSlash.1, Ne.symm noDot.1]
  · simp only [confinedFilename, found, notDigits, Bool.false_eq_true, if_false,
      Bool.and_eq_true, Bool.not_eq_true', and_assoc]

/-- What a request is served from local storage lies below the video directory,
when its filename has a confined shape. -/
theorem serveVideo_confined {backend : StorageBackend} {workspace filename : Str}
    {target : ServeTarget}
    (served : serveVideo backend (videosDir workspace) filename = .ok target)
    (confined : confinedFilename filename = true) :
    StrictDescendant target.localPath (videosDir workspace) := by
  obtain ⟨bucket, split, extract, path, -⟩ := serveVideo_ok served
  rw [path]
  exact (localPath_confined_iff_key extract).mpr ((confinedFilename_iff split).mp confined)
    workspace

/-- **Confinement of video serving.** For a filename the splitters accept, the
file opened lies strictly below the video directory of every workspace exactly
when the filename has one of the confined shapes. -/
theorem localPath_confined_iff {filename key jobId : Str} {bucket : Option Str}
    (split : splitBucketAndKey filename = .ok (bucket, key))
    (extract : extractJobIdFromKey key = .ok jobId) :
    (∀ workspace, StrictDescendant (localPath (videosDir workspace) jobId key)
      (videosDir workspace)) ↔ confinedFilename filename = true :=
  (localPath_confined_iff_key extract).trans (confinedFilename_iff split).symm

theorem localPath_confined_iff_segment :
    (∀ workspace, StrictDescendant
      (localPath (videosDir workspace) "demo".toList "720/demo-001.m4s".toList)
      (videosDir workspace)) ↔ confinedFilename "my-bucket/720/demo-001.m4s".toList = true :=
  @localPath_confined_iff _ _ _ (some "my-bucket".toList) rfl rfl

/-- The digit test holds of an empty first segment, so a leading separator makes
the key absolute and the file anywhere. -/
theorem absolute_filename_escapes :
    splitBucketAndKey "/etc/host.conf".toList = .ok (none, "/etc/host.conf".toList) ∧
    extractJobIdFromKey "/etc/host.conf".toList = .ok "etc/host".toList ∧
    localPath (videosDir "/srv".toList) "etc/host".toList "/etc/host.conf".toList =
      "/etc/host.conf".toList ∧
    ¬ StrictDescendant
      (localPath (videosDir "/srv".toList) "etc/host".toList "/etc/host.conf".toList)
      (videosDir "/srv".toList) :=
  ⟨rfl, rfl, rfl, not_strictDescendant_of_length (by decide)⟩

end VideoStorage.Api
