import VideoStorage.Media.StreamSpecifier

/-!
# Stream maps

The stream maps of an output are expanded before anything is bound: each names streams of an
input by a specifier, or the output of a filter by its label; a map with a minus sign takes
streams back that earlier maps have named.

A specifier matches the streams that it chooses from its list, or the one at its index among
these (`matches_parsed`). The maps that are left after the expansion are those that the
specifications declare (`expandStreamMaps_enabled`).
-/

set_option autoImplicit false

namespace VideoStorage.Media

open RustStd Str

/-! ## Matching -/

structure AVCodecParameters where
  codecType : AVMediaType
  format : Int
  width : Int
  height : Int
  sampleRate : Int
  nbChannels : Int
  deriving DecidableEq

structure AVStream where
  id : Int
  disposition : BitVec 32
  /-- What `av_dict_get` finds under a key: the value, if that is UTF-8. -/
  metadata : Str → Option (Option Str)
  codecpar : AVCodecParameters

structure AVProgram where
  id : Int
  streamIndex : List Nat

structure AVStreamGroup where
  id : Int
  /-- The indices of its streams. -/
  streams : List Nat

/-- An input file, as it has been opened: the index of a stream is its place in the list. -/
structure AVFormatContext where
  streams : List AVStream
  programs : List AVProgram
  streamGroups : List AVStreamGroup

/-- `as i32` -/
def asI32 (n : Int) : Int := n.bmod (2 ^ 32)

def AVCodecParameters.usable (par : AVCodecParameters) : Bool :=
  match par.codecType with
  | .audio => decide (par.sampleRate > 0) && decide (par.nbChannels > 0) && par.format != -1
  | .video => decide (par.width > 0) && decide (par.height > 0) && par.format != -1
  | .unknown => false
  | _ => true

namespace StreamSpecifier

/-- The check of the media type, the first of the loop of `matches`. -/
def typed (ss : StreamSpecifier) (candidate : AVStream) : Bool :=
  ss.mediaType.all fun mediaType => candidate.codecpar.codecType == mediaType &&
    !(ss.noApic && (candidate.disposition &&& 0x400#32) != 0)

/-- `CString::new` fails on a key with a NUL. -/
def nulKey (ss : StreamSpecifier) : Bool := ss.metaKey.any fun key => key.contains '\x00'

/-- The checks of the loop of `matches` on a candidate, or none when it panics: the key is
unwrapped as a C string after the media type has been checked. -/
def passes (ss : StreamSpecifier) (candidate : AVStream) : Option Bool :=
  if !ss.typed candidate then some false
  else if ss.nulKey then none
  else some (
    (ss.metaKey.all fun key => (candidate.metadata key).any fun entryVal =>
      ss.metaVal.all fun val => entryVal == some val) &&
    (!ss.usableOnly || candidate.codecpar.usable) &&
    ss.disposition.all fun disp =>
      if disp = "default".toList then (candidate.disposition &&& 0x0001#32) != 0
      else if disp = "forced".toList then (candidate.disposition &&& 0x0040#32) != 0
      else false)

/-- The loop of `matches`, over the indices of the candidates; none when it panics. -/
def scan (ss : StreamSpecifier) (fmtCtx : AVFormatContext) (st : Nat) :
    Int → List Nat → Option Bool
  | _, [] => some false
  | nbMatched, i :: more =>
      match fmtCtx.streams[i]? with
      | none => ss.scan fmtCtx st nbMatched more
      | some candidate =>
          match ss.passes candidate with
          | none => none
          | some false => ss.scan fmtCtx st nbMatched more
          | some true =>
              if st = i then some (ss.idx.isNone || ss.idx == some nbMatched)
              else ss.scan fmtCtx st (nbMatched + 1) more

/-- The indices that the loop of `matches` goes over: none of them where the function returns
before its loop. -/
def candidates (ss : StreamSpecifier) (fmtCtx : AVFormatContext) (st : Nat) : List Nat :=
  match ss.listType with
  | .streamId =>
      if fmtCtx.streams[st]?.map AVStream.id ≠ some (asI32 ss.listId) then [] else [st]
  | .all => if ss.idx.isSome then List.range (st + 1) else [st]
  | .program =>
      match fmtCtx.programs.find? fun program => program.id == asI32 ss.listId with
      | some program => program.streamIndex
      | none => []
  | .groupId =>
      match fmtCtx.streamGroups.find? fun group => group.id == ss.listId with
      | some group => group.streams
      | none => []
  | .groupIdx =>
      if 0 ≤ ss.listId then
        match fmtCtx.streamGroups[ss.listId.toNat]? with
        | some group => group.streams
        | none => []
      else []

/-- Whether a specifier matches the stream at an index; none when this panics. -/
def «matches» (ss : StreamSpecifier) (fmtCtx : AVFormatContext) (st : Nat) : Option Bool :=
  ss.scan fmtCtx st 0 (ss.candidates fmtCtx st)

/-! ### What is chosen -/

/-- The list of streams that a specifier chooses from. -/
def listed (ss : StreamSpecifier) (fmtCtx : AVFormatContext) : List Nat :=
  match ss.listType with
  | .all => List.range fmtCtx.streams.length
  | .streamId => (List.range fmtCtx.streams.length).filter fun i =>
      fmtCtx.streams[i]?.any fun stream => stream.id == asI32 ss.listId
  | .program => ((fmtCtx.programs.find? fun program => program.id == asI32 ss.listId).map
      AVProgram.streamIndex).getD []
  | .groupId => ((fmtCtx.streamGroups.find? fun group => group.id == ss.listId).map
      AVStreamGroup.streams).getD []
  | .groupIdx => if 0 ≤ ss.listId then
      (fmtCtx.streamGroups[ss.listId.toNat]?.map AVStreamGroup.streams).getD [] else []

/-- Whether there is a stream at an index that passes the checks. -/
def passesAt (ss : StreamSpecifier) (fmtCtx : AVFormatContext) (i : Nat) : Bool :=
  fmtCtx.streams[i]?.any fun candidate => ss.passes candidate == some true

/-- Whether there is a stream of the media type at an index. -/
def typedAt (ss : StreamSpecifier) (fmtCtx : AVFormatContext) (i : Nat) : Bool :=
  fmtCtx.streams[i]?.any ss.typed

/-- The streams of its list that pass the checks of a specifier, in the order of the list. -/
def chosen (ss : StreamSpecifier) (fmtCtx : AVFormatContext) : List Nat :=
  (ss.listed fmtCtx).filter (ss.passesAt fmtCtx)

variable (ss : StreamSpecifier) (fmtCtx : AVFormatContext) (st : Nat)

theorem scan_passing {i : Nat} (passing : ss.passesAt fmtCtx i = true) (nbMatched : Int)
    (more : List Nat) :
    ss.scan fmtCtx st nbMatched (i :: more) =
      if st = i then some (ss.idx.isNone || ss.idx == some nbMatched)
      else ss.scan fmtCtx st (nbMatched + 1) more := by
  rw [passesAt] at passing
  rw [scan]
  cases here : fmtCtx.streams[i]? with
  | none =>
      rw [here] at passing
      cases passing
  | some candidate =>
      rw [here, Option.any_some, beq_iff_eq] at passing
      simp only [passing]

theorem passes_isSome (plain : ss.nulKey = false) (candidate : AVStream) :
    (ss.passes candidate).isSome = true := by
  rw [passes, plain]
  cases ss.typed candidate <;> rfl

theorem scan_failing (plain : ss.nulKey = false) {i : Nat} (failing : ss.passesAt fmtCtx i = false)
    (nbMatched : Int) (more : List Nat) :
    ss.scan fmtCtx st nbMatched (i :: more) = ss.scan fmtCtx st nbMatched more := by
  rw [passesAt] at failing
  rw [scan]
  cases here : fmtCtx.streams[i]? with
  | none => rfl
  | some candidate =>
      obtain ⟨answer, passes⟩ := Option.isSome_iff_exists.mp (ss.passes_isSome plain candidate)
      rw [here, Option.any_some, passes] at failing
      cases answer with
      | false => simp only [passes]
      | true => cases failing

theorem scan_isSome (plain : ss.nulKey = false) (nbMatched : Int) (candidates : List Nat) :
    (ss.scan fmtCtx st nbMatched candidates).isSome = true := by
  induction candidates generalizing nbMatched with
  | nil => rfl
  | cons i more ih =>
      cases passing : ss.passesAt fmtCtx i with
      | false =>
          rw [scan_failing ss fmtCtx st plain passing]
          exact ih nbMatched
      | true =>
          rw [scan_passing ss fmtCtx st passing]
          split
          · rfl
          · exact ih (nbMatched + 1)

/-- With a key that cannot be a C string the loop panics on the first candidate of its media
type, and matches none before. -/
theorem scan_nul (nul : ss.nulKey = true) (nbMatched : Int) (candidates : List Nat) :
    ss.scan fmtCtx st nbMatched candidates =
      if candidates.any (ss.typedAt fmtCtx) then none else some false := by
  induction candidates generalizing nbMatched with
  | nil => rfl
  | cons i more ih =>
      rw [scan, List.any_cons, typedAt]
      cases here : fmtCtx.streams[i]? with
      | none => exact ih nbMatched
      | some candidate =>
          dsimp only
          rw [Option.any_some, passes, nul]
          cases ss.typed candidate with
          | false => exact ih nbMatched
          | true => rfl

/-- The loop finds a stream among the candidates that pass, and it counts those before. -/
theorem scan_iff (plain : ss.nulKey = false) (nbMatched : Int) (candidates : List Nat) :
    ss.scan fmtCtx st nbMatched candidates = some true ↔
      st ∈ candidates.filter (ss.passesAt fmtCtx) ∧ ∀ idx ∈ ss.idx,
        nbMatched + (candidates.filter (ss.passesAt fmtCtx)).idxOf st = idx := by
  induction candidates generalizing nbMatched with
  | nil => simp [scan]
  | cons i more ih =>
      cases passing : ss.passesAt fmtCtx i with
      | false =>
          rw [scan_failing ss fmtCtx st plain passing, ih,
            List.filter_cons_of_neg (by simp [passing])]
      | true =>
          rw [scan_passing ss fmtCtx st passing, List.filter_cons_of_pos passing]
          by_cases here : st = i
          · subst here
            rw [if_pos rfl, List.idxOf_cons_self]
            cases idx : ss.idx with
            | none => simp
            | some k =>
                simp only [Option.isNone_some, Bool.false_or, beq_iff_eq, Option.some.injEq,
                  List.mem_cons_self, true_and, Option.mem_some_iff, forall_eq']
                omega
          · rw [if_neg here, ih, List.mem_cons, List.idxOf_cons_ne _ (Ne.symm here)]
            simp only [here, false_or]
            refine and_congr_right fun _ => forall₂_congr fun k _ => ?_
            omega

/-- What a specifier matches: the streams that it chooses or, when it has an index, the one at
this index among them. -/
def Selects : Prop :=
  st ∈ ss.chosen fmtCtx ∧ ∀ idx ∈ ss.idx, ((ss.chosen fmtCtx).idxOf st : Int) = idx

theorem matches_selects (plain : ss.nulKey = false)
    (same : ss.listed fmtCtx = ss.candidates fmtCtx st) :
    ss.matches fmtCtx st = some true ↔ ss.Selects fmtCtx st := by
  rw [«matches», scan_iff ss fmtCtx st plain, Selects, chosen, same]
  simp only [Int.zero_add]

variable {fmtCtx st}

theorem mem_chosen_of_range (inside : st < fmtCtx.streams.length) {p : Nat → Bool}
    (same : ss.listed fmtCtx = (List.range fmtCtx.streams.length).filter p) :
    st ∈ ss.chosen fmtCtx ↔ p st = true ∧ ss.passesAt fmtCtx st = true := by
  rw [chosen, same, List.mem_filter, List.mem_filter, List.mem_range]
  simp only [inside, true_and]

/-- Among the streams up to a stream it has the place that it has among all. -/
theorem idxOf_upTo (inside : st < fmtCtx.streams.length) {p : Nat → Bool} (passing : p st = true) :
    ((List.range fmtCtx.streams.length).filter p).idxOf st =
      ((List.range (st + 1)).filter p).idxOf st := by
  obtain ⟨more, length⟩ := Nat.exists_eq_add_of_lt inside
  have parts : List.range fmtCtx.streams.length =
      List.range (st + 1) ++ (List.range more).map (st + 1 + ·) := by
    rw [← List.range_add]
    congr 1
    omega
  rw [parts, List.filter_append, List.idxOf_append_of_mem]
  exact List.mem_filter.mpr ⟨List.self_mem_range_succ, passing⟩

theorem matches_iff (plain : ss.nulKey = false) (inside : st < fmtCtx.streams.length)
    (oneEnding : ss.listType = .streamId → ss.idx = none) :
    ss.matches fmtCtx st = some true ↔ ss.Selects fmtCtx st := by
  cases list : ss.listType with
  | program =>
      refine matches_selects ss fmtCtx st plain ?_
      simp only [listed, candidates, list]
      cases fmtCtx.programs.find? fun program => program.id == asI32 ss.listId <;> rfl
  | groupId =>
      refine matches_selects ss fmtCtx st plain ?_
      simp only [listed, candidates, list]
      cases fmtCtx.streamGroups.find? fun group => group.id == ss.listId <;> rfl
  | groupIdx =>
      refine matches_selects ss fmtCtx st plain ?_
      simp only [listed, candidates, list]
      cases fmtCtx.streamGroups[ss.listId.toNat]? <;> rfl
  | streamId =>
      have there : fmtCtx.streams[st]? = some fmtCtx.streams[st] := List.getElem?_eq_getElem inside
      have same : st ∈ ss.chosen fmtCtx ↔
          fmtCtx.streams[st]?.any (fun stream => stream.id == asI32 ss.listId) = true ∧
            ss.passesAt fmtCtx st = true :=
        mem_chosen_of_range ss inside (by rw [listed, list])
      rw [«matches», candidates, list, scan_iff ss fmtCtx st plain]
      simp only [Selects, same, there, Option.map_some, Option.any_some, beq_iff_eq, ne_eq,
        Option.some.injEq, oneEnding list]
      by_cases id : fmtCtx.streams[st].id = asI32 ss.listId
      · simp [id]
      · simp [id]
  | all =>
      have range : ss.listed fmtCtx = (List.range fmtCtx.streams.length).filter fun _ => true := by
        rw [listed, list, List.filter_true]
      rw [Selects, mem_chosen_of_range ss inside range, «matches», candidates, list]
      simp only [true_and]
      rw [scan_iff ss fmtCtx st plain]
      cases idx : ss.idx with
      | none => simp
      | some k =>
          rw [Option.isSome_some, if_pos rfl, List.mem_filter]
          simp only [List.self_mem_range_succ, true_and, Int.zero_add]
          refine and_congr_right fun passing => ?_
          rw [chosen, listed, list, idxOf_upTo inside passing]

variable {ss}

/-- A specifier that has been read matches the streams that it selects. With a NUL in the key of
its metadata it matches none: it panics, if one of the candidates is of its media type. -/
theorem matches_parsed {spec : Str} (read : parse spec = .ok ss)
    (inside : st < fmtCtx.streams.length) :
    (ss.nulKey = false → ∃ answer, ss.matches fmtCtx st = some answer ∧
      (answer = true ↔ ss.Selects fmtCtx st)) ∧
    (ss.nulKey = true → ss.matches fmtCtx st =
      if (ss.candidates fmtCtx st).any (ss.typedAt fmtCtx) then none else some false) := by
  refine ⟨fun plain => ?_, fun nul => scan_nul ss fmtCtx st nul 0 _⟩
  obtain ⟨answer, answered⟩ := Option.isSome_iff_exists.mp
    (scan_isSome ss fmtCtx st plain 0 (ss.candidates fmtCtx st))
  refine ⟨answer, answered, ?_⟩
  have selects := matches_iff ss plain inside fun ends => by
    have alone := (one_ending _ _ _ _ (wellFormed_of_parse read).endings).1
    refine Option.not_isSome_iff_eq_none.mp fun indexed => ?_
    exact absurd ((alone indexed).1.symm.trans (beq_iff_eq.mpr ends)) Bool.false_ne_true
  rw [← selects, «matches», answered, Option.some.injEq]

/-- The second picture stream of a film, that has a sound stream before it, by its number and by
a key that no C string holds. -/
theorem matches_parsed_second :
    let video : AVStream := ⟨0, 0, fun _ => none, ⟨.video, 0, 1920, 1080, 0, 0⟩⟩
    let audio : AVStream := ⟨1, 0, fun _ => none, ⟨.audio, 8, 0, 0, 48000, 2⟩⟩
    let ss : StreamSpecifier := { mediaType := some .video, idx := some 1 }
    let fmtCtx : AVFormatContext := ⟨[video, audio, video], [], []⟩
    (∃ answer, ss.matches fmtCtx 2 = some answer ∧ (answer = true ↔ ss.Selects fmtCtx 2)) ∧
      ∃ keyed, parse "m:k\x00".toList = .ok keyed ∧ keyed.matches fmtCtx 2 = none := by
  intro video audio ss fmtCtx
  have wellFormed : ss.WellFormed := wellFormed_type (by decide) (by rintro _ ⟨⟩; decide)
  refine ⟨(matches_parsed (parse_print wellFormed) (by decide)).1 rfl, ?_⟩
  have keyed : WellFormed { metaKey := some "k\x00".toList } := {
    sound_default with
    metaKey := by
      rintro _ ⟨⟩
      decide
    metaVal := by
      rintro _ ⟨⟩
    endings := by decide
    some := by decide }
  have read : parse "m:k\x00".toList = .ok { metaKey := some "k\x00".toList } :=
    parse_print keyed
  exact ⟨_, read, (matches_parsed read (by decide)).2 (by decide)⟩

end StreamSpecifier

/-! ## The expansion -/

inductive OpenOutputError where
  | invalidArgument
  | encoderNotFound
  | matchesNoStreams (linklabel : Str)
  | notContainStream
  deriving DecidableEq, Repr

inductive FilterGraphParseError where
  | invalidArgument
  | invalidFileIndexInFg (fileIdx : Nat) (desc : Str)
  | invalidFilterSpecifier (desc : Str)
  | outputUnconnected (name : Str) (index : Nat) (linklabel : Str)
  deriving DecidableEq, Repr

/-- Why a context is not built. -/
inductive Error where
  | openOutput (error : OpenOutputError)
  | filterGraphParse (error : FilterGraphParseError)
  | filterZeroOutputs
  | fileSameAsInput (url : Str)
  | frameFilterTypeNoMatched (tag mediaType : Str)
  | frameFilterStreamTypeNoMatched (tag : Str) (idx : Nat) (mediaType : Str)
  /-- A call of the library failed. -/
  | library (code : Int)
  /-- An index was out of bounds, or a key has a NUL. -/
  | panic
  deriving DecidableEq, Repr

structure StreamMapSpec where
  linklabel : Str
  copy : Bool := false
  deriving DecidableEq, Repr

structure StreamMap where
  disabled : Bool := false
  fileIndex : Nat := 0
  streamIndex : Nat := 0
  linklabel : Option Str := none
  copy : Bool
  deriving DecidableEq, Repr

/-- A number with an optional minus sign, and what stands after it. -/
def strtol (input : Str) : Option (Int × Str) :=
  let (negative, chars) : Bool × Str :=
    match input with
    | '-' :: chars => (true, chars)
    | chars => (false, chars)
  let numberStr := chars.takeWhile Char.isDigit
  if numberStr = [] then none
  else
    (StreamSpecifier.parseI64 numberStr).map fun number =>
      (if negative then -number else number, chars.drop numberStr.length)

/-- What stands in the brackets of a label. -/
def pureLinklabel (linklabel : Str) : Except Error Str :=
  match splitOnce ']' linklabel.tail with
  | none => .error (.openOutput .invalidArgument)
  | some (pure, _) => if pure = [] then .error (.openOutput .invalidArgument) else .ok pure

def stripColon : Str → Str
  | ':' :: stripped => stripped
  | specStr => specStr

/-- The specifier of a map: the text after the index of the file, without its question mark. -/
def streamSpec (specStr : Str) : Except Error StreamSpecifier :=
  if specStr = [] then .ok {}
  else
    match StreamSpecifier.parse (stripColon specStr) with
    | .ok ss => .ok ss
    | .error _ => .error (.openOutput .invalidArgument)

/-- A panic ends the building of the context. -/
def orPanic {α : Type} : Option α → Except Error α
  | some a => .ok a
  | none => .error .panic

/-- The streams of an input that a specifier matches. -/
def matchedStreams (ss : StreamSpecifier) (fmtCtx : AVFormatContext) : Except Error (List Nat) :=
  (List.range fmtCtx.streams.length).filterM fun i => orPanic (ss.matches fmtCtx i)

/-- The streams that a specifier without a NUL in its key matches. -/
def matching (ss : StreamSpecifier) (fmtCtx : AVFormatContext) : List Nat :=
  (List.range fmtCtx.streams.length).filter fun i => ss.matches fmtCtx i == some true

theorem filterM_ok {ε α : Type} {p : α → Except ε Bool} {q : α → Bool} {values : List α}
    (same : ∀ value ∈ values, p value = .ok (q value)) :
    values.filterM p = .ok (values.filter q) := by
  have kept : ∀ acc, List.filterAuxM p values acc = .ok ((values.filter q).reverse ++ acc) := by
    induction values with
    | nil => exact fun acc => rfl
    | cons value values ih =>
        intro acc
        have later := ih fun other member => same other (List.mem_cons_of_mem _ member)
        rw [List.filterAuxM, same value (List.mem_cons_self ..)]
        refine (later _).trans ?_
        rw [List.filter_cons]
        cases q value with
        | false => rfl
        | true => simp
  rw [List.filterM, kept]
  simp only [List.append_nil]
  exact congrArg Except.ok (List.reverse_reverse _)

theorem orPanic_matches {ss : StreamSpecifier} (plain : ss.nulKey = false)
    (fmtCtx : AVFormatContext) (st : Nat) :
    orPanic (ss.matches fmtCtx st) = .ok (ss.matches fmtCtx st == some true) := by
  obtain ⟨answer, answered⟩ := Option.isSome_iff_exists.mp
    (StreamSpecifier.scan_isSome ss fmtCtx st plain 0 (ss.candidates fmtCtx st))
  rw [StreamSpecifier.matches, answered]
  cases answer <;> rfl

theorem matchedStreams_plain {ss : StreamSpecifier} (plain : ss.nulKey = false)
    (fmtCtx : AVFormatContext) : matchedStreams ss fmtCtx = .ok (matching ss fmtCtx) :=
  filterM_ok fun i _ => orPanic_matches plain fmtCtx i

/-- What the text of a map says. -/
inductive MapArg where
  | output (linklabel : Str)
  | streams (fileIdx : Nat) (fmtCtx : AVFormatContext) (ss : StreamSpecifier)
      (isNegative allowUnused : Bool)

/-- The text of a map, without its minus sign, and whether it has one. -/
def stripMinus (linklabel : Str) : Str × Bool :=
  match linklabel with
  | '-' :: linklabel => (linklabel, true)
  | linklabel => (linklabel, false)

/-- A round of `expand_stream_maps`, up to the specifier. The label of an output is told by its
bracket, or by not beginning with a number; a minus sign before it is dropped. -/
def readMap (demuxs : List AVFormatContext) (spec : StreamMapSpec) : Except Error MapArg :=
  let (linklabel, isNegative) := stripMinus spec.linklabel
  if linklabel.head? = some '[' then
    match pureLinklabel linklabel with
    | .error error => .error error
    | .ok pure => .ok (.output pure)
  else
    match strtol linklabel with
    | none => .ok (.output linklabel)
    | some (fileIdx, remainder) =>
        if fileIdx < 0 then .error (.openOutput .invalidArgument)
        else
          match demuxs[fileIdx.toNat]? with
          | none => .error (.openOutput .invalidArgument)
          | some fmtCtx =>
              let (specStr, allowUnused) : Str × Bool :=
                match stripSuffix remainder ['?'] with
                | some stripped => (stripped, true)
                | none => (remainder, false)
              match streamSpec specStr with
              | .error error => .error error
              | .ok ss => .ok (.streams fileIdx.toNat fmtCtx ss isNegative allowUnused)

/-- A round of `expand_stream_maps`. -/
def expandStreamMap (demuxs : List AVFormatContext) (maps : List StreamMap) (spec : StreamMapSpec) :
    Except Error (List StreamMap) := do
  match ← readMap demuxs spec with
  | .output linklabel => .ok (maps ++ [{ linklabel := some linklabel, copy := spec.copy }])
  | .streams fileIdx fmtCtx ss true _ =>
      maps.mapM fun existing => do
        if existing.linklabel.isNone && existing.fileIndex == fileIdx then
          if ← orPanic (ss.matches fmtCtx existing.streamIndex) then
            .ok { existing with disabled := true }
          else .ok existing
        else .ok existing
  | .streams fileIdx fmtCtx ss false allowUnused =>
      let matched ← matchedStreams ss fmtCtx
      if matched = [] ∧ allowUnused = false then
        .error (.openOutput (.matchesNoStreams (stripMinus spec.linklabel).1))
      else
        .ok (maps ++ matched.map fun streamIdx =>
          { fileIndex := fileIdx, streamIndex := streamIdx, copy := spec.copy })

def expandStreamMaps (demuxs : List AVFormatContext) (maps : List StreamMap)
    (specs : List StreamMapSpec) : Except Error (List StreamMap) :=
  specs.foldlM (expandStreamMap demuxs) maps

/-! ### What the specifications declare -/

/-- What a specification declares: maps, or that streams of earlier maps are taken back. -/
inductive Directive where
  | add (maps : List StreamMap)
  | takeBack (fileIdx : Nat) (streams : List Nat)

namespace Directive

def maps : Directive → List StreamMap
  | add maps => maps
  | takeBack _ _ => []

def takesBack (map : StreamMap) : Directive → Bool
  | add _ => false
  | takeBack fileIdx streams =>
      map.linklabel.isNone && map.fileIndex == fileIdx && streams.contains map.streamIndex

end Directive

/-- A specification whose specifier, if it has one, has no NUL in its key. -/
def PlainKey (demuxs : List AVFormatContext) (spec : StreamMapSpec) : Prop :=
  ∀ fileIdx fmtCtx ss isNegative allowUnused,
    readMap demuxs spec = .ok (.streams fileIdx fmtCtx ss isNegative allowUnused) →
      ss.nulKey = false

/-- A specification, as it stands for itself. -/
def directive (demuxs : List AVFormatContext) (spec : StreamMapSpec) : Except Error Directive :=
  match readMap demuxs spec with
  | .error error => .error error
  | .ok (.output linklabel) => .ok (.add [{ linklabel := some linklabel, copy := spec.copy }])
  | .ok (.streams fileIdx fmtCtx ss true _) => .ok (.takeBack fileIdx (matching ss fmtCtx))
  | .ok (.streams fileIdx fmtCtx ss false allowUnused) =>
      let matched := matching ss fmtCtx
      if matched = [] ∧ allowUnused = false then
        .error (.openOutput (.matchesNoStreams (stripMinus spec.linklabel).1))
      else
        .ok (.add (matched.map fun streamIdx =>
          { fileIndex := fileIdx, streamIndex := streamIdx, copy := spec.copy }))

/-- What specifications declare together: each adds its maps, less those that a later one
takes back. -/
def declared : List Directive → List StreamMap
  | [] => []
  | directive :: later =>
      (directive.maps.filter fun map => !later.any (Directive.takesBack map)) ++ declared later

/-- The maps that are not disabled. -/
def enabled (maps : List StreamMap) : List StreamMap := maps.filter fun map => !map.disabled

def Directive.apply (maps : List StreamMap) : Directive → List StreamMap
  | add new => maps ++ new
  | takeBack fileIdx streams => maps.map fun existing =>
      if (takeBack fileIdx streams).takesBack existing then { existing with disabled := true }
      else existing

theorem StreamSpecifier.lt_of_matches {ss : StreamSpecifier} (plain : ss.nulKey = false)
    {fmtCtx : AVFormatContext} {st : Nat} (held : ss.matches fmtCtx st = some true) :
    st < fmtCtx.streams.length := by
  have passing := (List.mem_filter.mp ((scan_iff ss fmtCtx st plain 0 _).mp held).1).2
  rw [passesAt, Option.any_eq_true] at passing
  obtain ⟨stream, there, -⟩ := passing
  exact (List.getElem?_eq_some_iff.mp there).1

theorem contains_matching {ss : StreamSpecifier} (plain : ss.nulKey = false)
    (fmtCtx : AVFormatContext) (st : Nat) :
    (matching ss fmtCtx).contains st = (ss.matches fmtCtx st == some true) := by
  rw [Bool.eq_iff_iff, List.contains_iff_mem, matching, List.mem_filter, List.mem_range]
  exact and_iff_right_of_imp fun held =>
    StreamSpecifier.lt_of_matches plain (beq_iff_eq.mp held)

theorem mapM_ok {ε α β : Type} {f : α → Except ε β} {g : α → β} {values : List α}
    (same : ∀ value ∈ values, f value = .ok (g value)) : values.mapM f = .ok (values.map g) := by
  induction values with
  | nil => rfl
  | cons value values ih =>
      rw [List.mapM_cons, same value (List.mem_cons_self ..),
        ih fun other member => same other (List.mem_cons_of_mem _ member)]
      rfl

theorem expandStreamMap_eq (demuxs : List AVFormatContext) (maps : List StreamMap)
    {spec : StreamMapSpec} (plain : PlainKey demuxs spec) :
    expandStreamMap demuxs maps spec =
      (directive demuxs spec).map fun directive => directive.apply maps := by
  rw [expandStreamMap, directive]
  cases read : readMap demuxs spec with
  | error error => rfl
  | ok arg =>
      cases arg with
      | output linklabel => rfl
      | streams fileIdx fmtCtx ss isNegative allowUnused =>
          have plainKey := plain _ _ _ _ _ read
          cases isNegative with
          | true =>
              refine mapM_ok fun existing _ => ?_
              rw [Directive.takesBack, contains_matching plainKey,
                orPanic_matches plainKey]
              cases existing.linklabel.isNone && existing.fileIndex == fileIdx with
              | false => rfl
              | true => cases ss.matches fmtCtx existing.streamIndex == some true <;> rfl
          | false =>
              change (matchedStreams ss fmtCtx).bind _ = _
              rw [matchedStreams_plain plainKey]
              dsimp only [Except.bind]
              split <;> rfl

theorem directive_fresh {demuxs : List AVFormatContext} {spec : StreamMapSpec} {d : Directive}
    (read : directive demuxs spec = .ok d) : ∀ map ∈ d.maps, map.disabled = false := by
  rw [directive] at read
  split at read
  · cases read
  · cases read
    exact fun map member => List.mem_singleton.mp member ▸ rfl
  · cases read
    exact fun map member => absurd member List.not_mem_nil
  · dsimp only at read
    split at read
    · cases read
    · cases read
      intro map member
      obtain ⟨streamIdx, -, rfl⟩ := List.mem_map.mp member
      rfl

theorem enabled_apply (maps : List StreamMap) {d : Directive}
    (fresh : ∀ map ∈ d.maps, map.disabled = false) :
    enabled (d.apply maps) = (enabled maps).filter (fun map => !d.takesBack map) ++ d.maps := by
  cases d with
  | add new =>
      have all : enabled new = new := List.filter_eq_self.mpr fun map member => by
        rw [fresh map member]
        rfl
      have kept : (enabled maps).filter (fun map => !(Directive.add new).takesBack map) =
          enabled maps := List.filter_eq_self.mpr fun map _ => rfl
      rw [kept, Directive.apply, enabled, List.filter_append]
      exact congrArg _ all
  | takeBack fileIdx streams =>
      rw [Directive.maps, List.append_nil, Directive.apply]
      induction maps with
      | nil => rfl
      | cons map maps ih =>
          simp only [enabled, List.map_cons, List.filter_cons] at ih ⊢
          cases taken : (Directive.takeBack fileIdx streams).takesBack map <;>
            cases disabled : map.disabled <;> simp [taken, disabled, ih]

/-- The maps that are left after the expansion are those that the specifications declare, after
the maps that were there before. -/
theorem expandStreamMaps_enabled (demuxs : List AVFormatContext) (maps : List StreamMap)
    (specs : List StreamMapSpec) (plain : ∀ spec ∈ specs, PlainKey demuxs spec) :
    (expandStreamMaps demuxs maps specs).map enabled =
      (specs.mapM (directive demuxs)).map fun later => declared (.add (enabled maps) :: later) := by
  induction specs generalizing maps with
  | nil =>
      have all : (enabled maps).filter (fun _ => true) = enabled maps := List.filter_true _
      exact congrArg Except.ok ((List.append_nil _).trans all).symm
  | cons spec specs ih =>
      rw [expandStreamMaps, List.foldlM_cons, List.mapM_cons,
        expandStreamMap_eq demuxs maps (plain spec (List.mem_cons_self ..))]
      cases read : directive demuxs spec with
      | error error => rfl
      | ok d =>
          refine (ih (d.apply maps) fun other member =>
            plain other (List.mem_cons_of_mem _ member)).trans ?_
          cases rest : specs.mapM (directive demuxs) with
          | error error => rfl
          | ok later =>
              refine congrArg Except.ok ?_
              dsimp only
              rw [enabled_apply maps (directive_fresh read), declared, declared, declared,
                Directive.maps, Directive.maps, List.filter_append, List.filter_filter,
                List.append_assoc]
              simp only [List.any_cons, Bool.not_or, Bool.and_comm]

/-- All streams of a film, less its sound, and a label. -/
theorem expandStreamMaps_enabled_silent :
    let video : AVStream := ⟨0, 0, fun _ => none, ⟨.video, 0, 1920, 1080, 0, 0⟩⟩
    let audio : AVStream := ⟨1, 0, fun _ => none, ⟨.audio, 8, 0, 0, 48000, 2⟩⟩
    let specs : List StreamMapSpec :=
      [{ linklabel := "0".toList }, { linklabel := "-0:a".toList }, { linklabel := "[v]".toList }]
    (expandStreamMaps [⟨[audio, video, audio], [], []⟩] [] specs).map enabled =
      .ok [{ streamIndex := 1, copy := false }, { linklabel := some "v".toList, copy := false }] := by
  intro video audio specs
  have all : readMap [⟨[audio, video, audio], [], []⟩] { linklabel := "0".toList } =
      .ok (.streams 0 ⟨[audio, video, audio], [], []⟩ {} false false) := rfl
  have sound : readMap [⟨[audio, video, audio], [], []⟩] { linklabel := "-0:a".toList } =
      .ok (.streams 0 ⟨[audio, video, audio], [], []⟩ { mediaType := some .audio } true false) := by
    have wellFormed : StreamSpecifier.WellFormed { mediaType := some .audio } :=
      StreamSpecifier.wellFormed_type (by decide) StreamSpecifier.sound_default.idx
    have spec : streamSpec ":a".toList = .ok { mediaType := some .audio } := by
      have stripped : stripColon ":a".toList = "a".toList := rfl
      have parsed : StreamSpecifier.parse "a".toList = .ok { mediaType := some .audio } :=
        StreamSpecifier.parse_print wellFormed
      rw [streamSpec, if_neg (by decide), stripped, parsed]
    have number : strtol "0:a".toList = some (0, ":a".toList) := by decide
    have required : stripSuffix ":a".toList ['?'] = none := by decide
    have minus : stripMinus "-0:a".toList = ("0:a".toList, true) := rfl
    have first : [(⟨[audio, video, audio], [], []⟩ : AVFormatContext)][(0 : Int).toNat]? =
      some ⟨[audio, video, audio], [], []⟩ := rfl
    rw [readMap, minus]
    dsimp only
    rw [if_neg (by decide), number]
    dsimp only
    rw [if_neg (by decide), first]
    dsimp only
    rw [required]
    dsimp only
    rw [spec]
    rfl
  have plain : ∀ spec ∈ specs, PlainKey [⟨[audio, video, audio], [], []⟩] spec := by
    intro spec member fileIdx fmtCtx ss isNegative allowUnused read
    simp only [specs, List.mem_cons, List.not_mem_nil, or_false] at member
    obtain rfl | rfl | rfl := member
    · rw [all] at read
      cases read
      rfl
    · rw [sound] at read
      cases read
      rfl
    · cases read
  refine (expandStreamMaps_enabled _ [] specs plain).trans ?_
  have added : directive [⟨[audio, video, audio], [], []⟩] { linklabel := "0".toList } =
      .ok (.add [⟨false, 0, 0, none, false⟩, ⟨false, 0, 1, none, false⟩,
        ⟨false, 0, 2, none, false⟩]) := by
    rw [directive, all]
    rfl
  have taken : directive [⟨[audio, video, audio], [], []⟩] { linklabel := "-0:a".toList } =
      .ok (.takeBack 0 [0, 2]) := by
    rw [directive, sound]
    rfl
  rw [List.mapM_cons, List.mapM_cons, added, taken]
  rfl

end VideoStorage.Media
