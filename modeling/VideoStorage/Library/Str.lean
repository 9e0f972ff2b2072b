import Mathlib.Data.List.Basic
import Mathlib.Data.List.TakeWhile

/-!
# Strings and their splitters

A string is the sequence of its characters. The operations follow the standard
library of the modelled language: splitting at a character, at its first
occurrence or at its last, removing a suffix once or as often as it occurs,
and reading an unsigned number.

Each splitter comes with the equation that puts the pieces back together, so
that a proof about a parser works with the concatenation of the pieces and not
with positions.
-/

set_option autoImplicit false

namespace RustStd

/-- A string, as the sequence of its characters. -/
abbrev Str := List Char

namespace Str

/-- In two cuts of one string, a front without the second separator and a first
separator other than it leave the first separator in the second front. -/
theorem mem_front_of_append_eq {front back front' back' : Str} {c separator : Char}
    (equal : front ++ c :: back = front' ++ separator :: back') (absent : separator ∉ front)
    (other : c ≠ separator) : c ∈ front' := by
  rcases List.append_eq_append_iff.mp equal with ⟨between, rfl, rest⟩ | ⟨between, rfl, rest⟩
  · cases between with
    | nil => exact absurd (List.cons.inj rest).1 other
    | cons d more => simp [(List.cons.inj rest).1]
  · cases between with
    | nil => exact absurd (List.cons.inj rest).1.symm other
    | cons d more => simp [(List.cons.inj rest).1] at absent

/-! ## Splitting at a character -/

/-- All the pieces between the occurrences of a character. -/
def split (separator : Char) (text : Str) : List Str := text.splitOn separator

/-- The piece before the first occurrence of a character and the piece after
it. -/
def splitOnce (separator : Char) : Str → Option (Str × Str)
  | [] => none
  | c :: rest =>
      if c = separator then some ([], rest)
      else (splitOnce separator rest).map fun pieces => (c :: pieces.1, pieces.2)

/-- The piece before the last occurrence of a character and the piece after
it. -/
def rsplitOnce (separator : Char) (text : Str) : Option (Str × Str) :=
  (splitOnce separator text.reverse).map fun pieces => (pieces.2.reverse, pieces.1.reverse)

/-- The part of a string before the first occurrence of a character: all of it
when the character does not occur. -/
def upTo (separator : Char) (text : Str) : Str := text.takeWhile fun c => c != separator

theorem split_of_notMem {separator : Char} {text : Str} (absent : separator ∉ text) :
    split separator text = [text] :=
  List.splitOn_eq_singleton absent

theorem split_append {separator : Char} {front : Str} (absent : separator ∉ front)
    (back : Str) :
    split separator (front ++ separator :: back) = front :: split separator back :=
  List.splitOn_append_cons_self_of_not_mem absent back

theorem splitOnce_eq_none {separator : Char} {text : Str} :
    splitOnce separator text = none ↔ separator ∉ text := by
  induction text with
  | nil => simp [splitOnce]
  | cons c rest ih =>
      by_cases same : c = separator
      · simp [splitOnce, same]
      · simp [splitOnce, same, ih, Ne.symm same]

/-- Cutting at the first occurrence: the front piece is free of the separator. -/
theorem splitOnce_eq_some {separator : Char} {text front back : Str} :
    splitOnce separator text = some (front, back) ↔
      text = front ++ separator :: back ∧ separator ∉ front := by
  induction text generalizing front with
  | nil => simp [splitOnce]
  | cons c rest ih =>
      by_cases same : c = separator
      · subst same
        cases front with
        | nil => simp [splitOnce, eq_comm]
        | cons d front =>
            simp only [splitOnce, if_true, List.cons_append, List.cons.injEq, List.mem_cons,
              not_or]
            constructor
            · intro equal
              simp at equal
            · rintro ⟨⟨rfl, -⟩, notHead, -⟩
              exact absurd rfl notHead
      · cases front with
        | nil => simp [splitOnce, same]
        | cons d front =>
            simp only [splitOnce, if_neg same, Option.map_eq_some_iff, Prod.mk.injEq,
              List.cons.injEq, List.cons_append, List.mem_cons, not_or]
            constructor
            · rintro ⟨⟨first, second⟩, found, ⟨rfl, rfl⟩, rfl⟩
              obtain ⟨equal, absent⟩ := ih.mp found
              exact ⟨⟨rfl, equal⟩, Ne.symm same, absent⟩
            · rintro ⟨⟨rfl, equal⟩, -, absent⟩
              exact ⟨(front, back), ih.mpr ⟨equal, absent⟩, ⟨rfl, rfl⟩, rfl⟩

theorem splitOnce_append {separator : Char} {front : Str} (absent : separator ∉ front)
    (back : Str) : splitOnce separator (front ++ separator :: back) = some (front, back) :=
  splitOnce_eq_some.mpr ⟨rfl, absent⟩

theorem splitOnce_of_notMem {separator : Char} {text : Str} (absent : separator ∉ text) :
    splitOnce separator text = none :=
  splitOnce_eq_none.mpr absent

/-- Cutting at the last occurrence: the back piece is free of the separator. -/
theorem rsplitOnce_eq_some {separator : Char} {text front back : Str} :
    rsplitOnce separator text = some (front, back) ↔
      text = front ++ separator :: back ∧ separator ∉ back := by
  simp only [rsplitOnce, Option.map_eq_some_iff, Prod.mk.injEq]
  constructor
  · rintro ⟨⟨first, second⟩, found, rfl, rfl⟩
    obtain ⟨equal, absent⟩ := splitOnce_eq_some.mp found
    refine ⟨?_, by simpa using absent⟩
    simpa using congrArg List.reverse equal
  · rintro ⟨rfl, absent⟩
    exact ⟨(back.reverse, front.reverse),
      splitOnce_eq_some.mpr ⟨by simp, by simpa using absent⟩, by simp, by simp⟩

theorem upTo_notMem (separator : Char) (text : Str) : separator ∉ upTo separator text := by
  intro member
  have kept := List.mem_takeWhile_imp member
  simp at kept

theorem upTo_of_notMem {separator : Char} {text : Str} (absent : separator ∉ text) :
    upTo separator text = text := by
  refine List.takeWhile_eq_self_iff.mpr fun c member => ?_
  simpa using fun same : c = separator => absent (same ▸ member)

theorem upTo_append {separator : Char} {front : Str} (absent : separator ∉ front)
    (back : Str) : upTo separator (front ++ separator :: back) = front := by
  have free : ∀ c ∈ front, (c != separator) = true := fun c member => by
    simpa using fun same : c = separator => absent (same ▸ member)
  simp [upTo, List.takeWhile_append_of_pos free]

/-- A string goes on after its first piece only with the separator. -/
theorem eq_upTo_or (separator : Char) (text : Str) :
    upTo separator text = text ∨ ∃ more, text = upTo separator text ++ separator :: more := by
  cases found : splitOnce separator text with
  | none => exact .inl (upTo_of_notMem (splitOnce_eq_none.mp found))
  | some pieces =>
      obtain ⟨rfl, absent⟩ := splitOnce_eq_some.mp found
      exact .inr ⟨pieces.2, by rw [upTo_append absent]⟩

/-- The first piece of a split is what stands before the first separator. -/
theorem split_headD (separator : Char) (text : Str) :
    (split separator text).headD [] = upTo separator text := by
  cases found : splitOnce separator text with
  | none =>
      have absent := splitOnce_eq_none.mp found
      rw [split_of_notMem absent, upTo_of_notMem absent]
      rfl
  | some pieces =>
      obtain ⟨rfl, absent⟩ := splitOnce_eq_some.mp found
      rw [split_append absent, upTo_append absent]
      rfl

/-- Splitting leaves a string whole exactly when the separator does not
occur. -/
theorem split_length_one {separator : Char} {text : Str} :
    (split separator text).length = 1 ↔ separator ∉ text := by
  constructor
  · intro single
    cases found : splitOnce separator text with
    | none => exact splitOnce_eq_none.mp found
    | some pieces =>
        obtain ⟨rfl, absent⟩ := splitOnce_eq_some.mp found
        rw [split_append absent, List.length_cons] at single
        have empty : (split separator pieces.2).length = 0 := by omega
        exact absurd (List.length_eq_zero_iff.mp empty) (List.splitOn_ne_nil _ _)
  · intro absent
    rw [split_of_notMem absent]
    rfl

/-- There is one piece more than there are separators. -/
theorem length_split (separator : Char) (text : Str) :
    (split separator text).length = text.count separator + 1 := by
  induction text with
  | nil => rfl
  | cons c rest ih =>
      obtain ⟨head, tail, pieces⟩ := List.exists_cons_of_ne_nil
        (List.splitOn_ne_nil separator rest)
      rw [split, pieces] at ih
      rw [split, List.splitOn_cons_eq_if_modifyHead, pieces, List.count_cons]
      split
      · rw [List.length_cons, ih]
      · rw [List.modifyHead_cons, Nat.add_zero, ← ih, List.length_cons, List.length_cons]

/-- A string with one piece is that piece. -/
theorem split_eq_singleton {separator : Char} {text piece : Str} :
    split separator text = [piece] ↔ text = piece ∧ separator ∉ piece := by
  constructor
  · intro single
    have absent : separator ∉ text := split_length_one.mp (by rw [single]; rfl)
    rw [split_of_notMem absent, List.cons_eq_cons] at single
    exact ⟨single.1, single.1 ▸ absent⟩
  · rintro ⟨rfl, absent⟩
    exact split_of_notMem absent

/-- The first of several pieces stands before the first separator. -/
theorem split_eq_cons_cons {separator : Char} {text first second : Str} {more : List Str} :
    split separator text = first :: second :: more ↔
      ∃ back, text = first ++ separator :: back ∧ separator ∉ first ∧
        split separator back = second :: more := by
  constructor
  · intro pieces
    cases found : splitOnce separator text with
    | none =>
        rw [split_of_notMem (splitOnce_eq_none.mp found)] at pieces
        cases pieces
    | some cut =>
        obtain ⟨front, back⟩ := cut
        obtain ⟨rfl, absent⟩ := splitOnce_eq_some.mp found
        rw [split_append absent, List.cons_eq_cons] at pieces
        obtain ⟨rfl, rest⟩ := pieces
        exact ⟨back, rfl, absent, rest⟩
  · rintro ⟨back, rfl, absent, rest⟩
    rw [split_append absent, rest]

/-- A piece of a split stands somewhere in the string. -/
theorem infix_of_mem_split {separator : Char} {text piece : Str}
    (member : piece ∈ split separator text) : piece <:+: text := by
  induction text generalizing piece with
  | nil => simp_all [split]
  | cons c rest ih =>
      obtain ⟨head, tail, pieces⟩ := List.exists_cons_of_ne_nil
        (List.splitOn_ne_nil separator rest)
      have ofRest : ∀ other ∈ head :: tail, other <:+: c :: rest := fun other inside =>
        (ih (by rw [split, pieces]; exact inside)).trans (List.suffix_cons c rest).isInfix
      rw [split, List.splitOn_cons_eq_if_modifyHead, pieces] at member
      split at member
      · rcases List.mem_cons.mp member with rfl | inside
        · exact List.nil_infix
        · exact ofRest piece inside
      · rcases List.mem_cons.mp member with rfl | inside
        · have first : head <+: rest := by
            have whole := @List.intercalate_splitOn _ rest _ _ separator
            rw [pieces] at whole
            cases tail with
            | nil => exact ⟨[], by simpa using whole⟩
            | cons next tail => exact ⟨_, by simpa [List.intercalate] using whole⟩
          exact ((List.prefix_cons_inj c).mpr first).isInfix
        · exact ofRest piece (List.mem_cons_of_mem _ inside)

/-- No piece of a split holds the separator. -/
theorem notMem_of_mem_split {separator : Char} {text piece : Str}
    (member : piece ∈ split separator text) : separator ∉ piece := by
  induction text generalizing piece with
  | nil => simp_all [split]
  | cons c rest ih =>
      obtain ⟨head, tail, pieces⟩ := List.exists_cons_of_ne_nil
        (List.splitOn_ne_nil separator rest)
      have ofRest : ∀ other ∈ head :: tail, separator ∉ other := fun other inside =>
        ih (by rw [split, pieces]; exact inside)
      rw [split, List.splitOn_cons_eq_if_modifyHead, pieces] at member
      split at member
      · rcases List.mem_cons.mp member with rfl | inside
        · exact List.not_mem_nil
        · exact ofRest piece inside
      · rename_i other
        rcases List.mem_cons.mp member with rfl | inside
        · rw [List.mem_cons, not_or]
          exact ⟨fun same => other (by simp [same]), ofRest head List.mem_cons_self⟩
        · exact ofRest piece (List.mem_cons_of_mem _ inside)

/-- A character other than the separator stands in some piece. -/
theorem exists_mem_split {separator c : Char} {text : Str} (member : c ∈ text)
    (other : c ≠ separator) : ∃ piece ∈ split separator text, c ∈ piece := by
  induction text with
  | nil => cases member
  | cons d rest ih =>
      obtain ⟨head, tail, pieces⟩ := List.exists_cons_of_ne_nil
        (List.splitOn_ne_nil separator rest)
      rw [split, pieces] at ih
      rw [split, List.splitOn_cons_eq_if_modifyHead, pieces]
      rcases List.mem_cons.mp member with rfl | inside
      · simp [other]
      · obtain ⟨piece, found, here⟩ := ih inside
        split
        · exact ⟨piece, List.mem_cons_of_mem _ found, here⟩
        · rcases List.mem_cons.mp found with rfl | later
          · exact ⟨_, List.mem_cons_self .., List.mem_cons_of_mem _ here⟩
          · exact ⟨piece, List.mem_cons_of_mem _ later, here⟩

/-! ## Suffixes -/

/-- Whether a string ends with a suffix. -/
def endsWith (text suffix : Str) : Bool := suffix.isSuffixOf text

/-- The string without the suffix, when it ends with it. -/
def stripSuffix (text suffix : Str) : Option Str := text.dropSuffix? suffix

/-- The string with the suffix removed as often as it occurs at the end. The
counter bounds the number of removals by the length. -/
def trimEndMatches (text suffix : Str) : Str :=
  go text.length text
where
  go : Nat → Str → Str
    | 0, text => text
    | fuel + 1, text =>
        match stripSuffix text suffix with
        | none => text
        | some shorter => go fuel shorter

theorem stripSuffix_eq_some {text suffix front : Str} :
    stripSuffix text suffix = some front ↔ text = front ++ suffix := by
  simp only [stripSuffix, List.dropSuffix?_eq_some_iff, beq_iff_eq]
  constructor
  · rintro ⟨_, equal, rfl⟩
    exact equal
  · intro equal
    exact ⟨suffix, equal, rfl⟩

@[simp] theorem stripSuffix_append (front suffix : Str) :
    stripSuffix (front ++ suffix) suffix = some front :=
  stripSuffix_eq_some.mpr rfl

theorem stripSuffix_eq_none {text suffix : Str} :
    stripSuffix text suffix = none ↔ endsWith text suffix = false := by
  rw [← Bool.not_eq_true, endsWith, List.isSuffixOf_iff_suffix, Option.eq_none_iff_forall_ne_some]
  constructor
  · rintro never ⟨front, equal⟩
    exact never front (stripSuffix_eq_some.mpr equal.symm)
  · intro never front found
    exact never ⟨front, (stripSuffix_eq_some.mp found).symm⟩

theorem endsWith_iff {text suffix : Str} :
    endsWith text suffix = true ↔ ∃ front, text = front ++ suffix := by
  rw [endsWith, List.isSuffixOf_iff_suffix]
  exact exists_congr fun front => eq_comm

/-- A string does not end with a suffix that holds a character it lacks. -/
theorem endsWith_of_notMem {text suffix : Str} {c : Char} (member : c ∈ suffix)
    (absent : c ∉ text) : endsWith text suffix = false := by
  rw [← Bool.not_eq_true, endsWith_iff]
  rintro ⟨front, rfl⟩
  exact absent (List.mem_append_right _ member)

/-- A string that ends with another character than the suffix does not end with
it. -/
theorem endsWith_of_last_ne {text suffix : Str} (last other : Char)
    (ends : text.getLast? = some last) (ends' : suffix.getLast? = some other)
    (differ : last ≠ other) : endsWith text suffix = false := by
  rw [← Bool.not_eq_true, endsWith_iff]
  rintro ⟨before, rfl⟩
  rw [List.getLast?_append, ends', Option.some_or, Option.some.injEq] at ends
  exact differ ends.symm

/-- A suffix that occurs once at the end is removed once. -/
theorem trimEndMatches_append {front suffix : Str} (nonempty : suffix ≠ [])
    (stop : endsWith front suffix = false) :
    trimEndMatches (front ++ suffix) suffix = front := by
  obtain ⟨n, size⟩ : ∃ n, (front ++ suffix).length = n + 1 := by
    refine Nat.exists_eq_succ_of_ne_zero ?_
    simp [nonempty]
  rw [trimEndMatches, size, trimEndMatches.go, stripSuffix_append]
  cases n with
  | zero => rfl
  | succ n => simp only [trimEndMatches.go, stripSuffix_eq_none.mpr stop]

/-! ## Decimal numbers -/

/-- Every character is an ASCII digit: also the empty string. -/
def allDigits (text : Str) : Bool := text.all Char.isDigit

/-- The value of a string of digits. -/
def decimalValue (text : Str) : Nat :=
  text.foldl (fun value c => 10 * value + (c.toNat - '0'.toNat)) 0

/-- A decimal number: at least one digit and nothing else. -/
def isDecimal (text : Str) : Bool := !text.isEmpty && allDigits text

/-- A string without one leading plus sign. -/
def dropPlus : Str → Str
  | [] => []
  | c :: rest => if c = '+' then rest else c :: rest

/-- Reading an unsigned number that is at most `limit`: one leading plus sign
is allowed, then one or more digits. -/
def parseUnsigned (limit : Nat) (text : Str) : Option Nat :=
  let digits := dropPlus text
  if isDecimal digits && decide (decimalValue digits ≤ limit) then some (decimalValue digits)
  else none

theorem isDecimal_iff {text : Str} :
    isDecimal text = true ↔ text ≠ [] ∧ allDigits text = true := by
  simp [isDecimal]

theorem notMem_of_allDigits {text : Str} {c : Char} (digits : allDigits text = true)
    (other : c.isDigit = false) : c ∉ text := by
  intro member
  have isDigit := List.all_eq_true.mp digits c member
  rw [other] at isDigit
  exact Bool.false_ne_true isDigit

theorem dropPlus_of_notMem {text : Str} (absent : '+' ∉ text) : dropPlus text = text := by
  cases text with
  | nil => rfl
  | cons c rest => exact if_neg fun same : c = '+' => absent (same ▸ List.mem_cons_self ..)

theorem mem_dropPlus {text : Str} {c : Char} (member : c ∈ text) (notPlus : c ≠ '+') :
    c ∈ dropPlus text := by
  cases text with
  | nil => exact member
  | cons d rest =>
      rw [dropPlus]
      split
      · rename_i same
        exact (List.mem_cons.mp member).resolve_left fun equal => notPlus (equal.trans same)
      · exact member

/-- A decimal number is read as its value, when it is in range. -/
theorem parseUnsigned_of_isDecimal {limit : Nat} {text : Str} (decimal : isDecimal text = true) :
    parseUnsigned limit text =
      if decimalValue text ≤ limit then some (decimalValue text) else none := by
  have noSign := notMem_of_allDigits (c := '+') (isDecimal_iff.mp decimal).2 (by decide)
  simp only [parseUnsigned, dropPlus_of_notMem noSign, decimal, Bool.true_and, decide_eq_true_eq]

/-- What is read holds no character but digits and one plus sign. -/
theorem parseUnsigned_eq_none_of_mem {limit : Nat} {text : Str} {c : Char} (member : c ∈ text)
    (notDigit : c.isDigit = false) (notPlus : c ≠ '+') : parseUnsigned limit text = none := by
  have notDecimal : isDecimal (dropPlus text) = false := by
    rw [← Bool.not_eq_true, isDecimal_iff]
    rintro ⟨-, digitsOnly⟩
    exact notMem_of_allDigits digitsOnly notDigit (mem_dropPlus member notPlus)
  simp only [parseUnsigned, notDecimal, Bool.false_and, Bool.false_eq_true, if_false]

/-- A string that is no number, also without a sign, is not read. -/
theorem parseUnsigned_of_not_isDecimal {limit : Nat} {text : Str}
    (notDecimal : isDecimal text = false) (noSign : text.head? ≠ some '+') :
    parseUnsigned limit text = none := by
  have same : dropPlus text = text := by
    cases text with
    | nil => rfl
    | cons c rest => exact if_neg fun plus => noSign (congrArg some plus)
  simp only [parseUnsigned, same, notDecimal, Bool.false_and, Bool.false_eq_true, if_false]

/-! ### Printing -/

/-- `format!("{n}")`. -/
def decimal (n : Nat) : Str := Nat.toDigits 10 n

/-- `%0{width}d`: zeros are put in front up to the width. -/
def paddedDecimal (width n : Nat) : Str := (decimal n).leftpad width '0'

theorem isDecimal_decimal (n : Nat) : isDecimal (decimal n) = true := by
  refine isDecimal_iff.mpr ⟨Nat.toDigits_ne_nil, List.all_eq_true.mpr fun c member => ?_⟩
  exact Nat.isDigit_of_mem_toDigits (by decide) (by decide) member

@[simp] theorem decimalValue_decimal (n : Nat) : decimalValue (decimal n) = n :=
  Nat.ofDigitChars_ten_toDigits

/-- The digits end where something else begins. -/
theorem takeWhile_isDigit_decimal (n : Nat) {tail : Str}
    (stop : ∀ c ∈ tail.head?, c.isDigit = false) :
    (decimal n ++ tail).takeWhile Char.isDigit = decimal n := by
  have digits := List.all_eq_true.mp (isDecimal_iff.mp (isDecimal_decimal n)).2
  rw [List.takeWhile_append_of_pos digits]
  cases tail with
  | nil => rw [List.takeWhile_nil, List.append_nil]
  | cons c rest =>
      rw [List.takeWhile_cons, stop c rfl, if_neg Bool.false_ne_true, List.append_nil]

/-- A number is told from what follows it. -/
theorem decimal_append_inj {n m : Nat} {tail tail' : Str}
    (stop : ∀ c ∈ tail.head?, c.isDigit = false) (stop' : ∀ c ∈ tail'.head?, c.isDigit = false) :
    decimal n ++ tail = decimal m ++ tail' ↔ n = m ∧ tail = tail' := by
  constructor
  · intro same
    have digits := congrArg (List.takeWhile Char.isDigit) same
    rw [takeWhile_isDigit_decimal n stop, takeWhile_isDigit_decimal m stop'] at digits
    have number := congrArg decimalValue digits
    rw [decimalValue_decimal, decimalValue_decimal] at number
    rw [digits] at same
    exact ⟨number, List.append_cancel_left same⟩
  · rintro ⟨rfl, rfl⟩
    rfl

theorem isDecimal_paddedDecimal (width n : Nat) : isDecimal (paddedDecimal width n) = true := by
  obtain ⟨nonempty, digits⟩ := isDecimal_iff.mp (isDecimal_decimal n)
  refine isDecimal_iff.mpr ⟨by simp [paddedDecimal, List.leftpad, nonempty], ?_⟩
  rw [allDigits, paddedDecimal, List.leftpad, List.all_append, Bool.and_eq_true]
  exact ⟨List.all_replicate.trans (by simp), digits⟩

@[simp] theorem decimalValue_paddedDecimal (width n : Nat) :
    decimalValue (paddedDecimal width n) = n := by
  have zeros : Nat.ofDigitChars 10 (paddedDecimal width n) 0 = n := by
    rw [paddedDecimal, List.leftpad, Nat.ofDigitChars_append, Nat.ofDigitChars_replicate_zero,
      Nat.mul_zero]
    exact Nat.ofDigitChars_ten_toDigits
  exact zeros

end Str

end RustStd
