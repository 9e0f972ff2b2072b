import Mathlib.Algebra.Group.Int.Defs
import Mathlib.Algebra.Group.Nat.Defs
import VideoStorage.Library.Str

/-!
# Stream specifiers

A stream map or the label of a filter says by a short text which streams of an input it
means: of a type, of a program or a group, with an ID, the n-th of these. The text is read
from left to right in one loop, in which some components end the specifier.

The specifiers that are read from texts are the well-formed ones, and each of these has a
text of its own from which it is read back (`parse_iff`).
-/

set_option autoImplicit false

namespace VideoStorage.Media

open RustStd Str

inductive AVMediaType where
  | unknown
  | video
  | audio
  | data
  | subtitle
  | attachment
  | nb
  deriving DecidableEq, Repr

/-- Which list of streams a specifier chooses from. -/
inductive StreamListType where
  | all
  | program
  | groupId
  | groupIdx
  | streamId
  deriving DecidableEq, Repr

structure StreamSpecifier where
  mediaType : Option AVMediaType := none
  /-- `V`: video, but no attached pictures. -/
  noApic : Bool := false
  idx : Option Int := none
  listType : StreamListType := .all
  listId : Int := 0
  metaKey : Option Str := none
  metaVal : Option Str := none
  usableOnly : Bool := false
  disposition : Option Str := none
  deriving DecidableEq, Repr

namespace StreamSpecifier

/-! ## Reading -/

def isHexDigit (c : Char) : Bool :=
  c.isDigit || ('a' ≤ c && c ≤ 'f') || ('A' ≤ c && c ≤ 'F')

def hexDigitValue (c : Char) : Nat :=
  if c.isDigit then c.toNat - '0'.toNat
  else if 'a' ≤ c then c.toNat - 'a'.toNat + 10
  else c.toNat - 'A'.toNat + 10

def hexValue (text : Str) : Nat := text.foldl (fun value c => 16 * value + hexDigitValue c) 0

/-- `text.parse::<i32>()`, for a text without a minus sign. -/
def parseI32 (text : Str) : Option Int := (parseUnsigned (2 ^ 31 - 1) text).map Int.ofNat

/-- `text.parse::<i64>()`, for a text without a minus sign. -/
def parseI64 (text : Str) : Option Int := (parseUnsigned (2 ^ 63 - 1) text).map Int.ofNat

/-- `i64::from_str_radix(text, 16)`, for a text without a sign. -/
def parseHexI64 (text : Str) : Option Int :=
  if !text.isEmpty && text.all isHexDigit && decide (hexValue text < 2 ^ 63) then
    some (hexValue text)
  else none

def parseIdNumber (numStr context : Str) : Except Str Int :=
  if numStr = [] then .error ("Expected ".toList ++ context)
  else if numStr.take 2 = "0x".toList ∨ numStr.take 2 = "0X".toList then
    match parseHexI64 (numStr.drop 2) with
    | some number => .ok number
    | none => .error ("Invalid hex ".toList ++ context ++ ": ".toList ++ numStr)
  else
    match parseI64 numStr with
    | some number => .ok number
    | none => .error ("Invalid ".toList ++ context ++ ": ".toList ++ numStr)

/-- `chars.by_ref().take_while(..)`: the first character that is not taken is consumed too. -/
def takeWhileRef (p : Char → Bool) (chars : Str) : Str × Str :=
  (chars.takeWhile p, (chars.dropWhile p).tail)

/-- How a round of the loop ends: it goes on with the characters that are left, or breaks. -/
inductive Round where
  | next (ss : StreamSpecifier) (chars : Str)
  | stop (ss : StreamSpecifier) (chars : Str)

def idChar (c : Char) : Bool := c.isDigit || c == 'x' || c == 'X' || isHexDigit c

def dispositionChar (c : Char) : Bool := c.isAlphanum || c == '_' || c == '+'

/-- A letter for a type, unless a word goes on with it. -/
def typeRound (ss typed : StreamSpecifier) (ch : Char) (rest : Str) : Except Str Round :=
  if rest.head?.all (fun c => !c.isAlphanum) then
    if ss.mediaType.isSome then .error "Stream type specified multiple times".toList
    else .ok (.next typed rest)
  else .ok (.stop ss (ch :: rest))

/-- The characters after `disp:`. -/
def dispositionRound (ss : StreamSpecifier) (chars : Str) : Except Str Round :=
  if ss.disposition.isSome then .error "Multiple disposition specifiers".toList
  else
    let (disp, chars) := takeWhileRef dispositionChar chars
    if disp = [] then .error "Expected disposition value".toList
    else .ok (.next { ss with disposition := some disp } chars)

def multipleDesignators : Str := "Cannot combine multiple program/group designators".toList

/-- What stands between `g:` and the number: nothing, `#` or `i:`. -/
def groupDesignator : Str → StreamListType × Str
  | '#' :: ':' :: chars => (.groupId, chars)
  | '#' :: chars => (.groupId, chars)
  | 'i' :: ':' :: chars => (.groupId, chars)
  | chars => (.groupIdx, chars)

/-- The characters after `g:`. -/
def groupRound (ss : StreamSpecifier) (chars : Str) : Except Str Round :=
  if ss.listType ≠ .all then .error multipleDesignators
  else
    let (listType, chars) := groupDesignator chars
    let (numStr, chars) := takeWhileRef idChar chars
    match parseIdNumber numStr "stream group idx/ID".toList with
    | .error message => .error message
    | .ok listId => .ok (.next { ss with listType, listId } chars)

/-- The characters after `p:`. -/
def programRound (ss : StreamSpecifier) (chars : Str) : Except Str Round :=
  if ss.listType ≠ .all then .error multipleDesignators
  else
    let (numStr, chars) := takeWhileRef Char.isDigit chars
    match parseIdNumber numStr "program ID".toList with
    | .error message => .error message
    | .ok listId => .ok (.next { ss with listType := .program, listId } chars)

/-- The characters after `#` or `i:`. -/
def streamIdRound (ss : StreamSpecifier) (chars : Str) : Except Str Round :=
  if ss.listType ≠ .all then .error multipleDesignators
  else
    let (numStr, chars) := takeWhileRef idChar chars
    match parseIdNumber numStr "stream ID".toList with
    | .error message => .error message
    | .ok listId => .ok (.stop { ss with listType := .streamId, listId } chars)

/-- The characters after `m:`. -/
def metadataRound (ss : StreamSpecifier) (chars : Str) : Except Str Round :=
  let (key, chars) := takeWhileRef (· != ':') chars
  if key = [] then .error "Expected metadata key".toList
  else
    let (val, chars) := takeWhileRef (· != ':') chars
    .ok (.stop { ss with
      metaKey := some key
      metaVal := if val = [] then ss.metaVal else some val } chars)

def indexRound (ss : StreamSpecifier) (chars : Str) : Except Str Round :=
  let (numStr, chars) := takeWhileRef Char.isDigit chars
  match parseI32 numStr with
  | none => .error ("Invalid index: ".toList ++ numStr)
  | some idx => .ok (.stop { ss with idx := some idx } chars)

/-- A round of the loop of `parse`, at a character. -/
def round (ss : StreamSpecifier) (ch : Char) (rest : Str) : Except Str Round :=
  if ch.isDigit then ss.indexRound (ch :: rest)
  else if ch = 'v' then ss.typeRound { ss with mediaType := some .video } ch rest
  else if ch = 'a' then ss.typeRound { ss with mediaType := some .audio } ch rest
  else if ch = 's' then ss.typeRound { ss with mediaType := some .subtitle } ch rest
  else if ch = 't' then ss.typeRound { ss with mediaType := some .attachment } ch rest
  else if ch = 'V' then ss.typeRound { ss with mediaType := some .video, noApic := true } ch rest
  else if ch = 'd' then
    if rest.take 4 = "isp:".toList then ss.dispositionRound (rest.drop 4)
    else ss.typeRound { ss with mediaType := some .data } ch rest
  else if ch = 'g' then
    if rest.head? = some ':' then ss.groupRound rest.tail else .ok (.stop ss (ch :: rest))
  else if ch = 'p' then
    if rest.head? = some ':' then ss.programRound rest.tail else .ok (.stop ss (ch :: rest))
  else if ch = '#' then ss.streamIdRound rest
  else if ch = 'i' then
    if rest.head? = some ':' then ss.streamIdRound rest.tail else .ok (.stop ss (ch :: rest))
  else if ch = 'm' then
    if rest.head? = some ':' then ss.metadataRound rest.tail else .ok (.stop ss (ch :: rest))
  else if ch = 'u' then
    if rest.head?.all (· == ':') then .ok (.stop { ss with usableOnly := true } rest) else .ok (.stop ss (ch :: rest))
  else if ch = ':' then .ok (.next ss rest)
  else .ok (.stop ss (ch :: rest))

/-! ### What a round can do -/

/-- The types that a letter means. -/
def typeLetters : List AVMediaType := [.video, .audio, .subtitle, .attachment, .data]

inductive Outcome (ss : StreamSpecifier) (room : Nat) : Round → Prop where
  | unread (chars : Str) : Outcome ss room (.stop ss chars)
  | separator {chars : Str} : chars.length ≤ room → Outcome ss room (.next ss chars)
  | typed {mediaType : AVMediaType} {chars : Str} : ss.mediaType = none →
      mediaType ∈ typeLetters → chars.length ≤ room →
      Outcome ss room (.next { ss with mediaType := some mediaType } chars)
  | noApic {chars : Str} : ss.mediaType = none → chars.length ≤ room →
      Outcome ss room (.next { ss with mediaType := some .video, noApic := true } chars)
  | disposition {disp chars : Str} : disp ≠ [] → disp.all dispositionChar = true →
      chars.length ≤ room → Outcome ss room (.next { ss with disposition := some disp } chars)
  | listed {listType : StreamListType} {listId : Int} {chars : Str} : ss.listType = .all →
      listType ≠ .all → listType ≠ .streamId → 0 ≤ listId ∧ listId < 2 ^ 63 →
      chars.length ≤ room → Outcome ss room (.next { ss with listType, listId } chars)
  | streamId {listId : Int} (chars : Str) : ss.listType = .all → 0 ≤ listId ∧ listId < 2 ^ 63 →
      Outcome ss room (.stop { ss with listType := .streamId, listId } chars)
  | index {idx : Int} (chars : Str) : 0 ≤ idx ∧ idx < 2 ^ 31 →
      Outcome ss room (.stop { ss with idx := some idx } chars)
  | metadata {key : Str} {val : Option Str} (chars : Str) : key ≠ [] → ':' ∉ key →
      (val = ss.metaVal ∨ ∃ text, val = some text ∧ text ≠ [] ∧ ':' ∉ text) →
      Outcome ss room (.stop { ss with metaKey := some key, metaVal := val } chars)
  | usable (chars : Str) : Outcome ss room (.stop { ss with usableOnly := true } chars)

theorem parseUnsigned_le {limit value : Nat} {text : Str}
    (read : parseUnsigned limit text = some value) : value ≤ limit := by
  rw [parseUnsigned] at read
  split at read
  · rename_i accepted
    cases read
    exact of_decide_eq_true (Bool.and_eq_true_iff.mp accepted).2
  · cases read

theorem parseI32_range {text : Str} {value : Int} (read : parseI32 text = some value) :
    0 ≤ value ∧ value < 2 ^ 31 := by
  obtain ⟨n, number, rfl⟩ := Option.map_eq_some_iff.mp read
  have bound := parseUnsigned_le number
  exact ⟨Int.natCast_nonneg n, by simp only [Int.ofNat_eq_natCast]; omega⟩

theorem parseIdNumber_range {numStr context : Str} {value : Int}
    (read : parseIdNumber numStr context = .ok value) : 0 ≤ value ∧ value < 2 ^ 63 := by
  rw [parseIdNumber] at read
  split at read
  · cases read
  · split at read
    · split at read
      · rename_i number
        cases read
        rw [parseHexI64] at number
        split at number
        · rename_i accepted
          cases number
          have bound := of_decide_eq_true (Bool.and_eq_true_iff.mp accepted).2
          exact ⟨Int.natCast_nonneg _, by omega⟩
        · cases number
      · cases read
    · split at read
      · rename_i number
        cases read
        obtain ⟨n, read, rfl⟩ := Option.map_eq_some_iff.mp number
        have bound := parseUnsigned_le read
        exact ⟨Int.natCast_nonneg n, by simp only [Int.ofNat_eq_natCast]; omega⟩
      · cases read

theorem length_takeWhileRef (p : Char → Bool) (chars : Str) :
    (takeWhileRef p chars).2.length ≤ chars.length := by
  rw [takeWhileRef, List.length_tail]
  have shorter := (List.dropWhile_suffix p (l := chars)).length_le
  omega

section

variable {ss typed : StreamSpecifier} {ch : Char} {chars : Str} {room : Nat} {r : Round}

theorem typeRound_outcome (went : ss.typeRound typed ch chars = .ok r)
    (outcome : ss.mediaType = none → Outcome ss room (.next typed chars)) : Outcome ss room r := by
  rw [typeRound] at went
  split at went
  · split at went
    · cases went
    · rename_i fresh
      cases went
      exact outcome (Option.not_isSome_iff_eq_none.mp fresh)
  · cases went
    exact .unread _

theorem dispositionRound_outcome (went : ss.dispositionRound chars = .ok r)
    (fits : chars.length ≤ room) : Outcome ss room r := by
  simp only [dispositionRound] at went
  split at went
  · cases went
  · split at went
    · cases went
    · rename_i some
      cases went
      exact .disposition some List.all_takeWhile ((length_takeWhileRef ..).trans fits)

theorem groupRound_outcome (went : ss.groupRound chars = .ok r) (fits : chars.length ≤ room) :
    Outcome ss room r := by
  simp only [groupRound] at went
  split at went
  · cases went
  · rename_i fresh
    split at went
    · cases went
    · rename_i listId read
      cases went
      refine .listed (Decidable.not_not.mp fresh) ?_ ?_ (parseIdNumber_range read)
        ((length_takeWhileRef ..).trans (le_trans ?_ fits))
      · rw [groupDesignator.eq_def]
        split <;> simp
      · rw [groupDesignator.eq_def]
        split <;> simp
      · rw [groupDesignator.eq_def]
        split <;> simp only [List.length_cons] <;> omega

theorem programRound_outcome (went : ss.programRound chars = .ok r) (fits : chars.length ≤ room) :
    Outcome ss room r := by
  simp only [programRound] at went
  split at went
  · cases went
  · rename_i fresh
    split at went
    · cases went
    · rename_i read
      cases went
      exact .listed (Decidable.not_not.mp fresh) (by simp) (by simp) (parseIdNumber_range read)
        ((length_takeWhileRef ..).trans fits)

theorem streamIdRound_outcome (went : ss.streamIdRound chars = .ok r) : Outcome ss room r := by
  simp only [streamIdRound] at went
  split at went
  · cases went
  · rename_i fresh
    split at went
    · cases went
    · rename_i read
      cases went
      exact .streamId _ (Decidable.not_not.mp fresh) (parseIdNumber_range read)

theorem metadataRound_outcome (went : ss.metadataRound chars = .ok r) : Outcome ss room r := by
  have noColon : ∀ text : Str, ':' ∉ text.takeWhile (· != ':') := fun text => upTo_notMem ':' text
  simp only [metadataRound] at went
  split at went
  · cases went
  · rename_i key
    cases went
    refine .metadata _ key (noColon chars) ?_
    split
    · exact .inl rfl
    · rename_i val
      exact .inr ⟨_, rfl, val, noColon _⟩

theorem indexRound_outcome (went : ss.indexRound chars = .ok r) : Outcome ss room r := by
  simp only [indexRound] at went
  split at went
  · cases went
  · rename_i read
    cases went
    exact .index _ (parseI32_range read)

/-- A round adds one component to the specifier, or it leaves the specifier as it is. -/
theorem round_outcome (went : ss.round ch chars = .ok r) : Outcome ss chars.length r := by
  have tail_le : chars.tail.length ≤ chars.length := by
    rw [List.length_tail]
    omega
  have unread : Except.ok (.stop ss (ch :: chars)) = (.ok r : Except Str Round) →
      Outcome ss chars.length r := by
    intro went
    cases went
    exact .unread _
  rw [round] at went
  obtain ⟨-, went⟩ | ⟨-, went⟩ := ite_eq_iff.mp went
  · exact indexRound_outcome went
  obtain ⟨-, went⟩ | ⟨-, went⟩ := ite_eq_iff.mp went
  · exact typeRound_outcome went fun fresh => .typed fresh (by decide) le_rfl
  obtain ⟨-, went⟩ | ⟨-, went⟩ := ite_eq_iff.mp went
  · exact typeRound_outcome went fun fresh => .typed fresh (by decide) le_rfl
  obtain ⟨-, went⟩ | ⟨-, went⟩ := ite_eq_iff.mp went
  · exact typeRound_outcome went fun fresh => .typed fresh (by decide) le_rfl
  obtain ⟨-, went⟩ | ⟨-, went⟩ := ite_eq_iff.mp went
  · exact typeRound_outcome went fun fresh => .typed fresh (by decide) le_rfl
  obtain ⟨-, went⟩ | ⟨-, went⟩ := ite_eq_iff.mp went
  · exact typeRound_outcome went fun fresh => .noApic fresh le_rfl
  obtain ⟨-, went⟩ | ⟨-, went⟩ := ite_eq_iff.mp went
  · obtain ⟨-, went⟩ | ⟨-, went⟩ := ite_eq_iff.mp went
    · exact dispositionRound_outcome went (by rw [List.length_drop]; omega)
    · exact typeRound_outcome went fun fresh => .typed fresh (by decide) le_rfl
  obtain ⟨-, went⟩ | ⟨-, went⟩ := ite_eq_iff.mp went
  · obtain ⟨-, went⟩ | ⟨-, went⟩ := ite_eq_iff.mp went
    · exact groupRound_outcome went tail_le
    · exact unread went
  obtain ⟨-, went⟩ | ⟨-, went⟩ := ite_eq_iff.mp went
  · obtain ⟨-, went⟩ | ⟨-, went⟩ := ite_eq_iff.mp went
    · exact programRound_outcome went tail_le
    · exact unread went
  obtain ⟨-, went⟩ | ⟨-, went⟩ := ite_eq_iff.mp went
  · exact streamIdRound_outcome went
  obtain ⟨-, went⟩ | ⟨-, went⟩ := ite_eq_iff.mp went
  · obtain ⟨-, went⟩ | ⟨-, went⟩ := ite_eq_iff.mp went
    · exact streamIdRound_outcome went
    · exact unread went
  obtain ⟨-, went⟩ | ⟨-, went⟩ := ite_eq_iff.mp went
  · obtain ⟨-, went⟩ | ⟨-, went⟩ := ite_eq_iff.mp went
    · exact metadataRound_outcome went
    · exact unread went
  obtain ⟨-, went⟩ | ⟨-, went⟩ := ite_eq_iff.mp went
  · obtain ⟨-, went⟩ | ⟨-, went⟩ := ite_eq_iff.mp went
    · cases went
      exact .usable _
    · exact unread went
  obtain ⟨-, went⟩ | ⟨-, went⟩ := ite_eq_iff.mp went
  · cases went
    exact .separator le_rfl
  · exact unread went

theorem round_shorter {ss' : StreamSpecifier} {left : Str}
    (went : ss.round ch chars = .ok (.next ss' left)) : left.length ≤ chars.length := by
  cases round_outcome went <;> assumption

end

/-- The loop of `parse`: the specifier, and the characters at which it stopped. -/
def parseLoop (ss : StreamSpecifier) : Str → Except Str (StreamSpecifier × Str)
  | [] => .ok (ss, [])
  | ch :: rest =>
      match _ : ss.round ch rest with
      | .error message => .error message
      | .ok (.stop ss chars) => .ok (ss, chars)
      | .ok (.next ss chars) => parseLoop ss chars
termination_by chars => chars.length
decreasing_by exact Nat.lt_succ_of_le (round_shorter ‹_›)

def parse (spec : Str) : Except Str StreamSpecifier :=
  if spec = [] then .error "Stream specifier cannot be empty".toList
  else
    match parseLoop {} spec with
    | .error message => .error message
    | .ok (ss, chars) =>
        if chars ≠ [] then
          .error ("Invalid stream specifier: unexpected characters after parsing '".toList ++ spec ++
            "'".toList)
        else if ss.mediaType = none ∧ ss.idx = none ∧ ss.listType = .all ∧ ss.listId = 0 ∧
            ss.metaKey = none ∧ ss.usableOnly = false ∧ ss.disposition = none then
          .error ("Invalid stream specifier: no valid components parsed from '".toList ++ spec ++
            "'".toList)
        else .ok ss

theorem parseLoop_cons (ss : StreamSpecifier) (ch : Char) (rest : Str) :
    parseLoop ss (ch :: rest) =
      match ss.round ch rest with
      | .error message => .error message
      | .ok (.stop ss chars) => .ok (ss, chars)
      | .ok (.next ss chars) => parseLoop ss chars := by
  rw [parseLoop]
  split <;> rename_i went <;> rw [went]

theorem parseLoop_next {ss ss' : StreamSpecifier} {ch : Char} {rest left : Str}
    (went : ss.round ch rest = .ok (.next ss' left)) :
    parseLoop ss (ch :: rest) = parseLoop ss' left := by
  rw [parseLoop_cons, went]

theorem parseLoop_stop {ss ss' : StreamSpecifier} {ch : Char} {rest left : Str}
    (went : ss.round ch rest = .ok (.stop ss' left)) :
    parseLoop ss (ch :: rest) = .ok (ss', left) := by
  rw [parseLoop_cons, went]

/-! ## What is read is well formed -/

/-- How many components a specifier has that end it. -/
def endings (ss : StreamSpecifier) : Nat :=
  ss.idx.isSome.toNat + (ss.listType == .streamId).toNat + ss.metaKey.isSome.toNat +
    ss.usableOnly.toNat

/-- What every component of a specifier keeps. -/
structure Sound (ss : StreamSpecifier) : Prop where
  mediaType : ∀ mediaType ∈ ss.mediaType, mediaType ∈ typeLetters
  noApic : ss.noApic = true → ss.mediaType = some .video
  idx : ∀ idx ∈ ss.idx, 0 ≤ idx ∧ idx < 2 ^ 31
  all : ss.listType = .all → ss.listId = 0
  listId : 0 ≤ ss.listId ∧ ss.listId < 2 ^ 63
  metaKey : ∀ key ∈ ss.metaKey, key ≠ [] ∧ ':' ∉ key
  metaVal : ∀ val ∈ ss.metaVal, (val ≠ [] ∧ ':' ∉ val) ∧ ss.metaKey.isSome = true
  disposition : ∀ disp ∈ ss.disposition, disp ≠ [] ∧ disp.all dispositionChar = true

/-- A specifier that says something, and ends at most once. -/
structure WellFormed (ss : StreamSpecifier) : Prop extends Sound ss where
  endings : ss.endings ≤ 1
  some : ss ≠ {}

/-- A round keeps a specifier sound, and goes on only before it ends. -/
theorem Outcome.sound {ss : StreamSpecifier} {room : Nat} {r : Round} (outcome : Outcome ss room r)
    (sound : ss.Sound) (unended : ss.endings = 0) :
    match r with
    | .next ss' _ => ss'.Sound ∧ ss'.endings = 0
    | .stop ss' _ => ss'.Sound ∧ ss'.endings ≤ 1 := by
  have parts := unended
  simp only [endings, Nat.add_eq_zero_iff] at parts
  obtain ⟨⟨⟨idx, list⟩, key⟩, usable⟩ := parts
  cases outcome with
  | unread chars => exact ⟨sound, by omega⟩
  | separator fits => exact ⟨sound, unended⟩
  | typed fresh letter fits =>
      refine ⟨{ sound with mediaType := ?_, noApic := ?_ }, unended⟩
      · rintro _ ⟨⟩
        exact letter
      · intro noApic
        exact absurd ((sound.noApic noApic).symm.trans fresh) (Option.some_ne_none _)
  | noApic fresh fits =>
      refine ⟨{ sound with mediaType := ?_, noApic := ?_ }, unended⟩
      · rintro _ ⟨⟩
        decide
      · intro _
        rfl
  | disposition some allowed fits =>
      refine ⟨{ sound with disposition := ?_ }, unended⟩
      rintro _ ⟨⟩
      exact ⟨some, allowed⟩
  | listed fresh other ends range fits =>
      refine ⟨{ sound with all := fun all => absurd all other, listId := range }, ?_⟩
      simp only [endings, idx, key, usable, beq_eq_false_iff_ne.mpr ends, Bool.toNat_false]
  | streamId chars fresh range =>
      refine ⟨{ sound with all := fun all => (nomatch all), listId := range }, ?_⟩
      simp only [endings, idx, key, usable]
      decide
  | index chars range =>
      refine ⟨{ sound with idx := ?_ }, ?_⟩
      · rintro _ ⟨⟩
        exact range
      · simp only [endings, list, key, usable]
        exact le_rfl
  | metadata chars some noColon value =>
      refine ⟨{ sound with metaKey := ?_, metaVal := ?_ }, ?_⟩
      · rintro _ ⟨⟩
        exact ⟨some, noColon⟩
      · intro val member
        refine ⟨?_, rfl⟩
        obtain rfl | ⟨text, rfl, nonempty, absent⟩ := value
        · exact (sound.metaVal val member).1
        · cases member
          exact ⟨nonempty, absent⟩
      · simp only [endings, idx, list, usable]
        exact le_rfl
  | usable chars =>
      refine ⟨{ sound with }, ?_⟩
      simp only [endings, idx, list, key]
      decide

theorem parseLoop_sound {chars : Str} {ss ss' : StreamSpecifier} {left : Str} (sound : ss.Sound)
    (unended : ss.endings = 0) (read : parseLoop ss chars = .ok (ss', left)) :
    ss'.Sound ∧ ss'.endings ≤ 1 := by
  induction ss, chars using parseLoop.induct with
  | case1 ss =>
      rw [parseLoop] at read
      cases read
      exact ⟨sound, by omega⟩
  | case2 ss ch rest message went =>
      rw [parseLoop_cons, went] at read
      cases read
  | case3 ss ch rest ss' chars went =>
      rw [parseLoop_cons, went] at read
      cases read
      exact (round_outcome went).sound sound unended
  | case4 ss ch rest ss' chars went ih =>
      rw [parseLoop_cons, went] at read
      have kept := (round_outcome went).sound sound unended
      exact ih kept.1 kept.2 read

theorem sound_default : Sound {} where
  mediaType := by simp
  noApic := by simp
  idx := by simp
  all := fun _ => rfl
  listId := by decide
  metaKey := by simp
  metaVal := by simp
  disposition := by simp

theorem wellFormed_of_parse {spec : Str} {ss : StreamSpecifier} (read : parse spec = .ok ss) :
    ss.WellFormed := by
  rw [parse] at read
  split at read
  · cases read
  · split at read
    · cases read
    · rename_i looped
      split at read
      · cases read
      · split at read
        · cases read
        · rename_i something
          cases read
          obtain ⟨sound, endings⟩ := parseLoop_sound sound_default rfl looped
          refine { sound with endings, some := ?_ }
          rintro rfl
          exact something (by simp)

/-! ## Every well-formed specifier is read from its text -/

def listText (ss : StreamSpecifier) : Option Str :=
  match ss.listType with
  | .program => some ("p:".toList ++ decimal ss.listId.toNat)
  | .groupId => some ("g:#".toList ++ decimal ss.listId.toNat)
  | .groupIdx => some ("g:".toList ++ decimal ss.listId.toNat)
  | .all | .streamId => none

def typeText (ss : StreamSpecifier) : Option Str :=
  match ss.mediaType with
  | some .video => some (if ss.noApic then "V".toList else "v".toList)
  | some .audio => some "a".toList
  | some .subtitle => some "s".toList
  | some .attachment => some "t".toList
  | some .data => some "d".toList
  | _ => none

def dispositionText (ss : StreamSpecifier) : Option Str :=
  ss.disposition.map fun disp => "disp:".toList ++ disp

/-- The component that ends a specifier. -/
def endingText (ss : StreamSpecifier) : Option Str :=
  match ss.idx, ss.listType, ss.metaKey, ss.usableOnly with
  | some idx, _, _, _ => some (decimal idx.toNat)
  | none, .streamId, _, _ => some ('#' :: decimal ss.listId.toNat)
  | none, _, some key, _ => some ("m:".toList ++ key ++ (ss.metaVal.elim [] fun val => ':' :: val))
  | none, _, none, true => some "u".toList
  | none, _, none, false => none

/-- The text of a specifier: its components, with colons between them. -/
def print (ss : StreamSpecifier) : Str :=
  [':'].intercalate ([ss.listText, ss.typeText, ss.dispositionText, ss.endingText].filterMap id)

/-- The loop takes a component up to the colon after it, and the colon. -/
def Reads (ss : StreamSpecifier) (component : Str) (ss' : StreamSpecifier) : Prop :=
  ∀ tail : Str, (∀ c ∈ tail.head?, c = ':') →
    parseLoop ss (component ++ tail) = parseLoop ss' tail.tail

theorem takeWhileRef_append {p : Char → Bool} {taken tail : Str} (all : taken.all p = true)
    (stop : ∀ c ∈ tail.head?, p c = false) : takeWhileRef p (taken ++ tail) = (taken, tail.tail) := by
  have holds := List.all_eq_true.mp all
  rw [takeWhileRef, List.takeWhile_append_of_pos holds, List.dropWhile_append_of_pos holds]
  cases tail with
  | nil => rw [List.takeWhile_nil, List.dropWhile_nil, List.append_nil]
  | cons c rest =>
      rw [List.takeWhile_cons, List.dropWhile_cons, stop c rfl, if_neg Bool.false_ne_true,
        if_neg Bool.false_ne_true, List.append_nil]

theorem idChar_decimal (n : Nat) : (decimal n).all idChar = true := by
  have digits := List.all_eq_true.mp (isDecimal_iff.mp (isDecimal_decimal n)).2
  refine List.all_eq_true.mpr fun c member => ?_
  rw [idChar, digits c member, Bool.true_or, Bool.true_or, Bool.true_or]

theorem parseIdNumber_decimal {n : Nat} (range : n < 2 ^ 63) (context : Str) :
    parseIdNumber (decimal n) context = .ok (n : Int) := by
  have number := isDecimal_decimal n
  obtain ⟨nonempty, digits⟩ := isDecimal_iff.mp number
  have notHex : ∀ x : Char, x.isDigit = false → (decimal n).take 2 ≠ ['0', x] := by
    intro x other hex
    refine notMem_of_allDigits digits other (List.mem_of_mem_take (i := 2) ?_)
    rw [hex]
    simp
  have read : parseI64 (decimal n) = some (n : Int) := by
    rw [parseI64, parseUnsigned_of_isDecimal number, decimalValue_decimal, if_pos (by omega)]
    rfl
  rw [parseIdNumber, if_neg nonempty, if_neg, read]
  rintro (hex | hex)
  · exact notHex 'x' (by decide) hex
  · exact notHex 'X' (by decide) hex

theorem parseLoop_tail (ss : StreamSpecifier) {tail : Str} (colon : ∀ c ∈ tail.head?, c = ':') :
    parseLoop ss tail = parseLoop ss tail.tail := by
  cases tail with
  | nil => rfl
  | cons c rest =>
      rw [colon c rfl]
      exact parseLoop_next rfl

theorem reads_type {ss typed : StreamSpecifier} {ch : Char} (fresh : ss.mediaType = none)
    (letter : ∀ rest, (∀ c ∈ rest.head?, c = ':') → ss.round ch rest = ss.typeRound typed ch rest) :
    ss.Reads [ch] typed := by
  intro tail colon
  have alone : tail.head?.all (fun c => !c.isAlphanum) = true := by
    rw [Option.all_eq_true]
    intro c member
    rw [colon c member]
    rfl
  have went : ss.round ch tail = .ok (.next typed tail) := by
    rw [letter tail colon, typeRound, if_pos alone, fresh]
    rfl
  exact (parseLoop_next went).trans (parseLoop_tail typed colon)

theorem reads_typeText {ss : StreamSpecifier} {mediaType : AVMediaType} {noApic : Bool} {text : Str}
    (fresh : ss.mediaType = none) (apic : ss.noApic = false)
    (written : typeText { ss with mediaType := some mediaType, noApic } = some text)
    (only : noApic = true → mediaType = .video) :
    ss.Reads text { ss with mediaType := some mediaType, noApic } := by
  have plain : noApic = false → ({ ss with mediaType := some mediaType } : StreamSpecifier) =
      { ss with mediaType := some mediaType, noApic } := by
    rintro rfl
    rw [← apic]
  have notVideo : mediaType ≠ .video → noApic = false := fun other =>
    Bool.eq_false_iff.mpr fun set => other (only set)
  cases mediaType with
  | unknown => cases written
  | nb => cases written
  | video =>
      cases noApic with
      | true =>
          cases written
          have read : ss.Reads ['V'] { ss with mediaType := some .video, noApic := true } :=
            reads_type fresh fun rest colon => rfl
          exact read
      | false =>
          cases written
          have read : ss.Reads ['v'] { ss with mediaType := some .video } :=
            reads_type fresh fun rest colon => rfl
          rwa [plain rfl] at read
  | audio =>
      cases written
      have read : ss.Reads ['a'] { ss with mediaType := some .audio } :=
        reads_type fresh fun rest colon => rfl
      rwa [plain (notVideo (by decide))] at read
  | subtitle =>
      cases written
      have read : ss.Reads ['s'] { ss with mediaType := some .subtitle } :=
        reads_type fresh fun rest colon => rfl
      rwa [plain (notVideo (by decide))] at read
  | attachment =>
      cases written
      have read : ss.Reads ['t'] { ss with mediaType := some .attachment } :=
        reads_type fresh fun rest colon => rfl
      rwa [plain (notVideo (by decide))] at read
  | data =>
      cases written
      have read : ss.Reads ['d'] { ss with mediaType := some .data } := by
        refine reads_type fresh fun rest colon => ?_
        have notDisp : rest.take 4 ≠ "isp:".toList := by
          cases rest with
          | nil => decide
          | cons c rest =>
              rw [colon c rfl]
              exact fun same => absurd (List.cons.inj same).1 (by decide)
        exact if_neg notDisp
      rwa [plain (notVideo (by decide))] at read

theorem reads_disposition {ss : StreamSpecifier} {disp : Str} (fresh : ss.disposition = none)
    (nonempty : disp ≠ []) (allowed : disp.all dispositionChar = true) :
    ss.Reads ("disp:".toList ++ disp) { ss with disposition := some disp } := by
  intro tail colon
  have stop : ∀ c ∈ tail.head?, dispositionChar c = false := by
    intro c member
    rw [colon c member]
    rfl
  have taken : takeWhileRef dispositionChar (disp ++ tail) = (disp, tail.tail) :=
    takeWhileRef_append allowed stop
  refine @parseLoop_next ss _ 'd' ("isp:".toList ++ disp ++ tail) _ ?_
  have went : ss.round 'd' ("isp:".toList ++ disp ++ tail) = ss.dispositionRound (disp ++ tail) :=
    rfl
  rw [went, dispositionRound, fresh, if_neg (by simp)]
  simp only [taken]
  rw [if_neg nonempty]

theorem exists_decimal (n : Nat) : ∃ c digits, c.isDigit = true ∧ decimal n = c :: digits := by
  obtain ⟨nonempty, digits⟩ := isDecimal_iff.mp (isDecimal_decimal n)
  cases text : decimal n with
  | nil => exact absurd text nonempty
  | cons c rest =>
      rw [text] at digits
      exact ⟨c, rest, List.all_eq_true.mp digits c (List.mem_cons_self ..), rfl⟩

theorem groupDesignator_decimal (n : Nat) (tail : Str) :
    groupDesignator (decimal n ++ tail) = (.groupIdx, decimal n ++ tail) ∧
      groupDesignator ('#' :: (decimal n ++ tail)) = (.groupId, decimal n ++ tail) := by
  obtain ⟨c, digits, digit, text⟩ := exists_decimal n
  have notDigit : ∀ x : Char, x.isDigit = false → c ≠ x := by
    rintro x other rfl
    exact Bool.false_ne_true (other.symm.trans digit)
  have hash := notDigit '#' (by decide)
  have i := notDigit 'i' (by decide)
  have colon := notDigit ':' (by decide)
  rw [text, List.cons_append]
  constructor
  · rw [groupDesignator.eq_def]
    split <;> simp_all
  · rw [groupDesignator.eq_def]
    split <;> simp_all

theorem reads_listText {ss : StreamSpecifier} {listType : StreamListType} {listId : Int} {text : Str}
    (fresh : ss.listType = .all) (range : 0 ≤ listId ∧ listId < 2 ^ 63)
    (written : listText { ss with listType, listId } = some text) :
    ss.Reads text { ss with listType, listId } := by
  obtain ⟨n, rfl⟩ := Int.eq_ofNat_of_zero_le range.1
  have bound : n < 2 ^ 63 := by omega
  intro tail colon
  have notId : ∀ c ∈ tail.head?, idChar c = false := by
    intro c member
    rw [colon c member]
    rfl
  have notDigit : ∀ c ∈ tail.head?, c.isDigit = false := by
    intro c member
    rw [colon c member]
    rfl
  have taken : takeWhileRef idChar (decimal n ++ tail) = (decimal n, tail.tail) :=
    takeWhileRef_append (idChar_decimal n) notId
  have digits : takeWhileRef Char.isDigit (decimal n ++ tail) = (decimal n, tail.tail) :=
    takeWhileRef_append (isDecimal_iff.mp (isDecimal_decimal n)).2 notDigit
  obtain ⟨byIdx, byId⟩ := groupDesignator_decimal n tail
  cases listType with
  | all => cases written
  | streamId => cases written
  | program =>
      cases written
      refine @parseLoop_next ss _ 'p' (':' :: (decimal n ++ tail)) _ ?_
      have went : ss.round 'p' (':' :: (decimal n ++ tail)) = ss.programRound (decimal n ++ tail) :=
        rfl
      rw [went, programRound, fresh, if_neg (by simp)]
      simp only [digits, parseIdNumber_decimal bound]
  | groupId =>
      cases written
      refine @parseLoop_next ss _ 'g' (':' :: '#' :: (decimal n ++ tail)) _ ?_
      have went : ss.round 'g' (':' :: '#' :: (decimal n ++ tail)) =
          ss.groupRound ('#' :: (decimal n ++ tail)) := rfl
      rw [went, groupRound, fresh, if_neg (by simp)]
      simp only [byId, taken, parseIdNumber_decimal bound]
  | groupIdx =>
      cases written
      refine @parseLoop_next ss _ 'g' (':' :: (decimal n ++ tail)) _ ?_
      have went : ss.round 'g' (':' :: (decimal n ++ tail)) = ss.groupRound (decimal n ++ tail) :=
        rfl
      rw [went, groupRound, fresh, if_neg (by simp)]
      simp only [byIdx, taken, parseIdNumber_decimal bound]

/-- The text of some components. -/
def joined (components : List (Option Str)) : Str := [':'].intercalate (components.filterMap id)

theorem joined_cons (text : Str) (more : List (Option Str)) :
    ∃ tail, joined (some text :: more) = text ++ tail ∧ (∀ c ∈ tail.head?, c = ':') ∧
      tail.tail = joined more := by
  have first : (some text :: more).filterMap id = text :: more.filterMap id := rfl
  rw [joined, joined, first]
  cases more.filterMap id with
  | nil => exact ⟨[], by simp [List.intercalate], by simp, rfl⟩
  | cons next rest =>
      refine ⟨':' :: [':'].intercalate (next :: rest), ?_, ?_, rfl⟩
      · simp [List.intercalate, List.intersperse]
      · rintro _ ⟨⟩
        rfl

/-- A component that is there is read, and one that is not changes nothing. -/
theorem parseLoop_joined {ss ss' : StreamSpecifier} {component : Option Str}
    (more : List (Option Str)) (present : ∀ text, component = some text → ss.Reads text ss')
    (absent : component = none → ss = ss') :
    parseLoop ss (joined (component :: more)) = parseLoop ss' (joined more) := by
  cases component with
  | none =>
      rw [absent rfl]
      rfl
  | some text =>
      obtain ⟨tail, join, colon, left⟩ := joined_cons text more
      rw [join, present text rfl tail colon, left]

/-- The specifier before the component that ends it. -/
def unended (ss : StreamSpecifier) : StreamSpecifier :=
  { ss with
    idx := none
    listType := if ss.listType = .streamId then .all else ss.listType
    listId := if ss.listType = .streamId then 0 else ss.listId
    metaKey := none
    metaVal := none
    usableOnly := false }

theorem takeWhileRef_all {p : Char → Bool} {text : Str} (all : text.all p = true) :
    takeWhileRef p text = (text, []) := by
  have taken := @takeWhileRef_append p text [] all (by simp)
  rwa [List.append_nil, List.tail_nil] at taken

theorem joined_some (text : Str) : joined [some text] = text := List.append_nil text

theorem parseLoop_index {ss : StreamSpecifier} {n : Nat} (range : n < 2 ^ 31) :
    parseLoop ss (decimal n) = .ok ({ ss with idx := some (n : Int) }, []) := by
  obtain ⟨c, digits, digit, text⟩ := exists_decimal n
  have number := isDecimal_decimal n
  have read : parseI32 (decimal n) = some (n : Int) := by
    rw [parseI32, parseUnsigned_of_isDecimal number, decimalValue_decimal, if_pos (by omega)]
    rfl
  have round : ss.round c digits = ss.indexRound (decimal n) := by
    rw [text]
    exact if_pos digit
  have went : ss.round c digits = .ok (.stop { ss with idx := some (n : Int) } []) := by
    rw [round, indexRound]
    simp only [takeWhileRef_all (isDecimal_iff.mp number).2, read]
  rw [text]
  exact parseLoop_stop went

theorem parseLoop_streamId {ss : StreamSpecifier} {n : Nat} (fresh : ss.listType = .all)
    (range : n < 2 ^ 63) :
    parseLoop ss ('#' :: decimal n) =
      .ok ({ ss with listType := .streamId, listId := (n : Int) }, []) := by
  have round : ss.round '#' (decimal n) = ss.streamIdRound (decimal n) := rfl
  refine parseLoop_stop ?_
  rw [round, streamIdRound, fresh, if_neg (by simp)]
  simp only [takeWhileRef_all (idChar_decimal n), parseIdNumber_decimal range]

theorem all_ne_colon {text : Str} (absent : ':' ∉ text) : text.all (· != ':') = true := by
  refine List.all_eq_true.mpr fun c member => bne_iff_ne.mpr ?_
  rintro rfl
  exact absent member

theorem parseLoop_metadata {ss : StreamSpecifier} {key : Str} {val : Option Str} (named : key ≠ [])
    (noColon : ':' ∉ key) (value : ∀ text ∈ val, text ≠ [] ∧ ':' ∉ text)
    (fresh : ss.metaVal = none) :
    parseLoop ss ("m:".toList ++ key ++ val.elim [] fun text => ':' :: text) =
      .ok ({ ss with metaKey := some key, metaVal := val }, []) := by
  have round : ∀ rest, ss.round 'm' (':' :: rest) = ss.metadataRound rest := fun rest => rfl
  cases val with
  | none =>
      refine @parseLoop_stop ss _ 'm' (':' :: (key ++ [])) _ ?_
      rw [round, List.append_nil, metadataRound]
      simp only [takeWhileRef_all (all_ne_colon noColon)]
      rw [if_neg named, takeWhileRef_all (by rfl), if_pos rfl, fresh]
  | some text =>
      obtain ⟨nonempty, absent⟩ := value text rfl
      refine @parseLoop_stop ss _ 'm' (':' :: (key ++ ':' :: text)) _ ?_
      have taken : takeWhileRef (· != ':') (key ++ ':' :: text) = (key, text) :=
        takeWhileRef_append (all_ne_colon noColon) (by rintro _ ⟨⟩; rfl)
      rw [round, metadataRound]
      simp only [taken, takeWhileRef_all (all_ne_colon absent)]
      rw [if_neg named, if_neg nonempty]

theorem one_ending : ∀ idx list key usable : Bool,
    idx.toNat + list.toNat + key.toNat + usable.toNat ≤ 1 →
      (idx = true → list = false ∧ key = false ∧ usable = false) ∧
      (list = true → key = false ∧ usable = false) ∧ (key = true → usable = false) := by
  decide

theorem parseLoop_ending {ss : StreamSpecifier} (wellFormed : ss.WellFormed) :
    parseLoop ss.unended (joined [ss.endingText]) = .ok (ss, []) := by
  obtain ⟨byIdx, byList, byKey⟩ := one_ending _ _ _ _ wellFormed.endings
  have values := wellFormed.metaVal
  have range := wellFormed.listId
  obtain ⟨mediaType, noApic, idx, listType, listId, metaKey, metaVal, usableOnly, disposition⟩ := ss
  dsimp only at byIdx byList byKey values range
  have noVal : metaKey = none → metaVal = none := by
    rintro rfl
    exact Option.eq_none_iff_forall_ne_some.mpr fun val member =>
      Bool.false_ne_true (values val member).2
  cases idx with
  | some i =>
      obtain ⟨lower, upper⟩ := wellFormed.idx i rfl
      obtain ⟨m, rfl⟩ := Int.eq_ofNat_of_zero_le lower
      obtain ⟨list, key, rfl⟩ := byIdx rfl
      obtain rfl := Option.not_isSome_iff_eq_none.mp (Bool.not_eq_true _ ▸ key)
      rw [noVal rfl]
      have text : joined [some (decimal m)] = decimal m := joined_some _
      refine (congrArg _ text).trans ((parseLoop_index (by omega)).trans ?_)
      simp [unended, beq_eq_false_iff_ne.mp list]
  | none =>
      by_cases ends : listType = .streamId
      · obtain ⟨m, rfl⟩ := Int.eq_ofNat_of_zero_le range.1
        subst ends
        obtain ⟨key, rfl⟩ := byList rfl
        obtain rfl := Option.not_isSome_iff_eq_none.mp (Bool.not_eq_true _ ▸ key)
        rw [noVal rfl]
        have text : joined [some ('#' :: decimal m)] = '#' :: decimal m := joined_some _
        exact (congrArg _ text).trans (parseLoop_streamId rfl (by omega))
      · cases metaKey with
        | some key =>
            obtain rfl := byKey rfl
            obtain ⟨named, noColon⟩ := wellFormed.metaKey key rfl
            have ending : endingText ⟨mediaType, noApic, none, listType, listId, some key, metaVal,
                false, disposition⟩ =
                  some ("m:".toList ++ key ++ metaVal.elim [] fun text => ':' :: text) := by
              cases listType <;> first | rfl | exact absurd rfl ends
            rw [ending, joined_some,
              parseLoop_metadata named noColon (fun text member => (values text member).1) rfl]
            simp [unended, ends]
        | none =>
            rw [noVal rfl]
            cases usableOnly with
            | true =>
                have ending : endingText ⟨mediaType, noApic, none, listType, listId, none, none, true,
                    disposition⟩ = some ['u'] := by
                  cases listType <;> first | rfl | exact absurd rfl ends
                rw [ending, joined_some]
                refine (parseLoop_stop rfl).trans ?_
                simp [unended, ends]
            | false =>
                have ending : endingText ⟨mediaType, noApic, none, listType, listId, none, none, false,
                    disposition⟩ = none := by
                  cases listType <;> first | rfl | exact absurd rfl ends
                have text : joined [none] = [] := rfl
                rw [ending, text, parseLoop]
                simp [unended, ends]

theorem parseLoop_print {ss : StreamSpecifier} (wellFormed : ss.WellFormed) :
    parseLoop {} ss.print = .ok (ss, []) := by
  let typed : StreamSpecifier := { ss.unended with disposition := none }
  let listed : StreamSpecifier := { typed with mediaType := none, noApic := false }
  have list : parseLoop {} ss.print =
      parseLoop listed (joined [ss.typeText, ss.dispositionText, ss.endingText]) := by
    refine parseLoop_joined _ (fun text written => ?_) fun absent => ?_
    · have notEnding : ss.listType ≠ .streamId := by
        intro ends
        rw [listText, ends] at written
        cases written
      have same : listed = { listType := ss.listType, listId := ss.listId } := by
        simp [listed, typed, unended, notEnding]
      rw [same]
      exact reads_listText rfl wellFormed.listId written
    · have noList : ss.listType = .all ∨ ss.listType = .streamId := by
        rw [listText] at absent
        split at absent <;> simp_all
      obtain all | ends := noList
      · simp [listed, typed, unended, all, wellFormed.all all]
      · simp [listed, typed, unended, ends]
  have type : parseLoop listed (joined [ss.typeText, ss.dispositionText, ss.endingText]) =
      parseLoop typed (joined [ss.dispositionText, ss.endingText]) := by
    cases mediaType : ss.mediaType with
    | none =>
        have noApic : ss.noApic = false := by
          refine Bool.eq_false_iff.mpr fun set => ?_
          exact absurd ((wellFormed.noApic set).symm.trans mediaType) (Option.some_ne_none _)
        refine parseLoop_joined _ (fun text written => ?_) fun absent => ?_
        · rw [typeText, mediaType] at written
          cases written
        · simp [listed, typed, unended, mediaType, noApic]
    | some kind =>
        refine parseLoop_joined _ (fun text written => ?_) fun absent => ?_
        · have same : typed = { listed with mediaType := some kind, noApic := ss.noApic } := by
            simp [listed, typed, unended, mediaType]
          rw [same]
          refine reads_typeText rfl rfl ?_ fun set => ?_
          · rw [typeText, ← written, typeText, mediaType]
          · exact Option.some.inj (mediaType.symm.trans (wellFormed.noApic set))
        · have letter := wellFormed.mediaType kind mediaType
          rw [typeText, mediaType] at absent
          cases kind <;> simp_all [typeLetters]
  have disposition : parseLoop typed (joined [ss.dispositionText, ss.endingText]) =
      parseLoop ss.unended (joined [ss.endingText]) := by
    cases disposition : ss.disposition with
    | none =>
        refine parseLoop_joined _ (fun text written => ?_) fun absent => ?_
        · rw [dispositionText, disposition] at written
          cases written
        · simp [typed, unended, disposition]
    | some disp =>
        refine parseLoop_joined _ (fun text written => ?_) fun absent => ?_
        · obtain ⟨nonempty, allowed⟩ := wellFormed.disposition disp disposition
          rw [dispositionText, disposition] at written
          cases written
          have same : ss.unended = { typed with disposition := some disp } := by
            simp [typed, unended, disposition]
          rw [same]
          exact reads_disposition rfl nonempty allowed
        · rw [dispositionText, disposition] at absent
          cases absent
  rw [list, type, disposition, parseLoop_ending wellFormed]

theorem parse_print {ss : StreamSpecifier} (wellFormed : ss.WellFormed) :
    parse ss.print = .ok ss := by
  have read := parseLoop_print wellFormed
  have nonempty : ss.print ≠ [] := by
    intro empty
    rw [empty, parseLoop] at read
    exact wellFormed.some (Prod.mk.inj (Except.ok.inj read)).1.symm
  rw [parse, if_neg nonempty, read]
  simp only [ne_eq, not_true_eq_false, if_false]
  refine if_neg ?_
  rintro ⟨mediaType, idx, listType, listId, metaKey, usableOnly, disposition⟩
  have noApic : ss.noApic = false := by
    refine Bool.eq_false_iff.mpr fun set => ?_
    exact absurd ((wellFormed.noApic set).symm.trans mediaType) (Option.some_ne_none _)
  have metaVal : ss.metaVal = none := by
    refine Option.eq_none_iff_forall_ne_some.mpr fun val member => ?_
    have keyed := (wellFormed.metaVal val member).2
    rw [metaKey] at keyed
    cases keyed
  refine wellFormed.some ?_
  cases ss
  simp_all

/-- The specifiers that are read are the well-formed ones, and each is read from its own
text: whatever text a specifier was read from, it can be written so that it is read again. -/
theorem parse_iff (ss : StreamSpecifier) :
    ((∃ spec, parse spec = .ok ss) ↔ ss.WellFormed) ∧ (parse ss.print = .ok ss ↔ ss.WellFormed) := by
  refine ⟨⟨?_, fun wellFormed => ⟨ss.print, parse_print wellFormed⟩⟩, wellFormed_of_parse,
    parse_print⟩
  rintro ⟨spec, read⟩
  exact wellFormed_of_parse read

theorem wellFormed_type {mediaType : AVMediaType} (letter : mediaType ∈ typeLetters)
    {idx : Option Int} (range : ∀ i ∈ idx, 0 ≤ i ∧ i < 2 ^ 31) :
    WellFormed { mediaType := some mediaType, idx } where
  mediaType := by
    rintro _ ⟨⟩
    exact letter
  noApic := fun set => absurd set Bool.false_ne_true
  idx := range
  all := sound_default.all
  listId := sound_default.listId
  metaKey := sound_default.metaKey
  metaVal := sound_default.metaVal
  disposition := sound_default.disposition
  endings := by
    cases idx with
    | none => exact Nat.zero_le 1
    | some => exact Nat.le_refl 1
  some := fun same => absurd (congrArg StreamSpecifier.mediaType same) (Option.some_ne_none _)

end StreamSpecifier
end VideoStorage.Media
