import VideoStorage.Api.Naming
import VideoStorage.Claim.PayloadV2
import VideoStorage.Library.Mixing

/-!
# The filter key of an asset id

The key of an id is its hash. An id with one more character should have another
key.

The class of up to three bytes mixes in the length, and so do the classes from 17
bytes on. The classes between read overlapping words from the front and from the
back of the input and leave the length out: an id that ends in four, or eight,
times the same character keeps its words when that character is added. Within the
first 15 characters these ids are the only ones that keep their key
(`keyChanges_iff`). From 8 to 9 bytes the words are read by different classes, and
the equation between the two hashes gives all characters from the first one on: no
id of ASCII characters solves it (`oneshot_nine_ne`).
-/

set_option autoImplicit false

namespace VideoStorage.TwoxHash

open RustStd LittleEndian Mixing

variable {ε : Type}

/-! ## The classes of short inputs -/

theorem avalanche_injective : Function.Injective avalanche := by
  have unit : primeMx1 * 0x8da8ee41d6df849 = 1 := by decide
  intro x y same
  have first := xorShiftRight_injective (s := 32) (by decide) (by decide) same
  have second := mul_injective unit first
  exact xorShiftRight_injective (s := 37) (by decide) (by decide) second

/-- `combined`, of 1 to 3 bytes. -/
def combine (last length first middle : UInt8) : UInt32 :=
  last.toUInt32 ||| (length.toUInt32 <<< 8) ||| (first.toUInt32 <<< 16) |||
    (middle.toUInt32 <<< 24)

/-- The first and the last word of 32 bits. -/
def lowHigh (input : Bytes) : UInt64 :=
  (ofBytes (input.take 4) : UInt32).toUInt64 +
    ((ofBytes (input.drop (input.length - 4)) : UInt32).toUInt64 <<< 32)

/-- The first and the last word of 64 bits, mixed. -/
def mixedWords (low high : UInt64) : UInt64 :=
  ((low ^^^ wordAt defaultSecretRaw 16) * prime64One ^^^ high ^^^ wordAt defaultSecretRaw 24) *
    prime64Two

theorem readU32Le_of_length {bytes : Bytes} (length : bytes.length = 4) :
    readU32Le (ε := ε) bytes = .ok (ofBytes bytes) := by
  rw [readU32Le, slice_within (Nat.zero_le _) (Nat.le_of_eq length.symm), bind_ok, List.drop_zero,
    List.take_of_length_le (Nat.le_of_eq length)]
  rfl

theorem readU64Le_of_length {bytes : Bytes} (length : bytes.length = 8) :
    readU64Le (ε := ε) bytes = .ok (ofBytes bytes) := by
  rw [readU64Le, slice_within (Nat.zero_le _) (Nat.le_of_eq length.symm), bind_ok, List.drop_zero,
    List.take_of_length_le (Nat.le_of_eq length)]
  rfl

theorem byteAt_of_getElem? {bytes : Bytes} {offset : Nat} {b : UInt8}
    (found : bytes[offset]? = some b) : byteAt (ε := ε) bytes offset = .ok b := by
  rw [byteAt, found]

/-- The class of 1 to 3 bytes. -/
theorem oneshot_of_le_three {input : Bytes} {last first middle : UInt8}
    (short : input.length ≤ 3) (atLast : input[input.length - 1]? = some last)
    (atFirst : input[0]? = some first) (atMiddle : input[input.length >>> 1]? = some middle) :
    oneshot (ε := ε) input = .ok (avalanche
      ((combine last (UInt8.ofNat input.length) first middle).toUInt64 ^^^ 963444408)) := by
  have nonempty : input.length ≠ 0 := by
    intro none
    rw [List.getElem?_eq_none (Nat.le_of_eq none)] at atFirst
    cases atFirst
  rw [oneshot, implOneshot, if_neg nonempty, if_pos short, impl1To3Bytes,
    byteAt_of_getElem? atLast, bind_ok, byteAt_of_getElem? atFirst, bind_ok,
    byteAt_of_getElem? atMiddle, bind_ok]
  rfl

/-- The last bytes of an input. -/
theorem slice_last {input : Bytes} (n : Nat) :
    slice (ε := ε) input (input.length - n) input.length =
      .ok (input.drop (input.length - n)) := by
  rw [slice_within (Nat.sub_le _ _) (Nat.le_refl _), List.take_of_length_le]
  rw [List.length_drop]

/-- The class of 4 to 8 bytes. -/
theorem oneshot_of_le_eight {input : Bytes} (long : 4 ≤ input.length)
    (short : input.length ≤ 8) :
    oneshot (ε := ε) input =
      .ok (avalanche (lowHigh input ^^^ wordAt defaultSecretRaw 8)) := by
  rw [oneshot, implOneshot, if_neg (by omega), if_neg (by omega), if_pos short, impl4To8Bytes,
    readU32Le_of_length (List.length_take_of_le long), bind_ok, slice_last, bind_ok,
    readU32Le_of_length (by rw [List.length_drop]; omega), bind_ok, UInt64.add_zero]
  rfl

/-- The class of 9 to 16 bytes. -/
theorem oneshot_of_le_sixteen {input : Bytes} (long : 9 ≤ input.length)
    (short : input.length ≤ 16) :
    oneshot (ε := ε) input = .ok (avalanche (mixedWords (ofBytes (input.take 8))
      (ofBytes (input.drop (input.length - 8))))) := by
  rw [oneshot, implOneshot, if_neg (by omega), if_neg (by omega), if_neg (by omega), if_pos short,
    impl9To16Bytes, readU64Le_of_length (List.length_take_of_le (by omega)), bind_ok, slice_last,
    bind_ok, readU64Le_of_length (by rw [List.length_drop]; omega), bind_ok, UInt64.add_zero,
    UInt64.sub_zero]
  rfl

/-! ## The words of an input -/

theorem ofBytes_u64_injective {bytes bytes' : Bytes} (length : bytes.length = 8)
    (length' : bytes'.length = 8) (same : (ofBytes bytes : UInt64) = ofBytes bytes') :
    bytes = bytes' := by
  have read := congrArg toBytes same
  rwa [toBytes_ofBytes _ length, toBytes_ofBytes _ length'] at read

theorem toNat_ofBytes_u64 {bytes : Bytes} (length : bytes.length = 8) :
    (ofBytes bytes : UInt64).toNat = ofLE bytes :=
  UInt64.toNat_ofNat_of_lt' (ofLE_lt length)

/-- The value of the two words. -/
theorem toNat_lowHigh {input : Bytes} (long : 4 ≤ input.length) :
    (lowHigh input).toNat =
      ofLE (input.take 4) + 2 ^ 32 * ofLE (input.drop (input.length - 4)) := by
  have low : ofLE (input.take 4) < 2 ^ 32 := ofLE_lt (List.length_take_of_le long)
  have high : ofLE (input.drop (input.length - 4)) < 2 ^ 32 :=
    ofLE_lt (n := 4) (by rw [List.length_drop]; omega)
  have lowNat : (ofBytes (input.take 4) : UInt32).toUInt64.toNat = ofLE (input.take 4) :=
    (UInt32.toNat_toUInt64 _).trans (UInt32.toNat_ofNat_of_lt' low)
  have highNat : (ofBytes (input.drop (input.length - 4)) : UInt32).toUInt64.toNat =
      ofLE (input.drop (input.length - 4)) :=
    (UInt32.toNat_toUInt64 _).trans (UInt32.toNat_ofNat_of_lt' high)
  rw [lowHigh, UInt64.toNat_add, UInt64.toNat_shiftLeft, lowNat, highNat, Nat.shiftLeft_eq]
  change (_ + _ * 2 ^ 32 % 2 ^ 64) % 2 ^ 64 = _
  omega

/-- The two words determine the first and the last four bytes. -/
theorem lowHigh_eq_iff {input input' : Bytes} (long : 4 ≤ input.length)
    (long' : 4 ≤ input'.length) :
    lowHigh input = lowHigh input' ↔ input.take 4 = input'.take 4 ∧
      input.drop (input.length - 4) = input'.drop (input'.length - 4) := by
  have low := toLE_ofLE (List.length_take_of_le long)
  have low' := toLE_ofLE (List.length_take_of_le long')
  have high : toLE 4 (ofLE (input.drop (input.length - 4))) = _ :=
    toLE_ofLE (by rw [List.length_drop]; omega)
  have high' : toLE 4 (ofLE (input'.drop (input'.length - 4))) = _ :=
    toLE_ofLE (by rw [List.length_drop]; omega)
  have lowLt := ofLE_lt (List.length_take_of_le long)
  have lowLt' := ofLE_lt (List.length_take_of_le long')
  constructor
  · intro same
    have values := congrArg UInt64.toNat same
    rw [toNat_lowHigh long, toNat_lowHigh long'] at values
    have lowSame : ofLE (input.take 4) = ofLE (input'.take 4) := by omega
    have highSame : ofLE (input.drop (input.length - 4)) =
        ofLE (input'.drop (input'.length - 4)) := by omega
    rw [← low, ← low', ← high, ← high', lowSame, highSame]
    exact ⟨rfl, rfl⟩
  · rintro ⟨lowSame, highSame⟩
    rw [lowHigh, lowHigh, lowSame, highSame]

/-! ## One byte more -/

/-- What ends in one byte only stays what it is when the byte is appended and the
first one dropped. -/
theorem eq_tail_append_iff {α : Type} {d : α} {text : List α} (nonempty : text ≠ []) :
    text = text.tail ++ [d] ↔ text = List.replicate text.length d := by
  induction text with
  | nil => exact absurd rfl nonempty
  | cons x more ih =>
      cases more with
      | nil => exact Iff.rfl
      | cons y rest =>
          have step := ih (List.cons_ne_nil _ _)
          rw [List.tail_cons] at step
          rw [List.tail_cons, List.cons_append, List.cons.injEq, step, List.length_cons,
            List.length_cons, List.length_cons, List.replicate_succ (n := rest.length + 1),
            List.cons.injEq]
          refine and_congr_left fun same => ?_
          rw [List.replicate_succ, List.cons.injEq] at same
          rw [same.1]

/-- The last bytes, and the last bytes when one is appended. -/
theorem last_eq_last_iff {input : Bytes} {d : UInt8} {n : Nat} (some : 0 < n)
    (long : n ≤ input.length) :
    input.drop (input.length - n) = (input ++ [d]).drop ((input ++ [d]).length - n) ↔
      input.drop (input.length - n) = List.replicate n d := by
  have length : (input.drop (input.length - n)).length = n := by
    rw [List.length_drop]
    omega
  have nonempty : input.drop (input.length - n) ≠ [] := by
    intro none
    rw [none] at length
    exact absurd length (Nat.ne_of_lt some)
  have shifted : (input ++ [d]).drop ((input ++ [d]).length - n) =
      (input.drop (input.length - n)).tail ++ [d] := by
    have one : (input ++ [d]).length - n = input.length - n + 1 := by
      rw [List.length_append, List.length_singleton]
      omega
    rw [one, List.drop_append_of_le_length (by omega), List.tail_drop]
  have ends := eq_tail_append_iff (d := d) nonempty
  rw [length] at ends
  rw [shifted, ends]

variable {input : Bytes} {d : UInt8}

/-- The lowest bit of the length is bit 8 of the combined bytes. -/
theorem getLsbD_combine (last length first middle : UInt8) :
    (combine last length first middle).toBitVec.getLsbD 8 = length.toBitVec.getLsbD 0 := by
  simp [combine]

theorem combine_ne {last length first middle last' length' first' middle' : UInt8}
    (other : length.toBitVec.getLsbD 0 ≠ length'.toBitVec.getLsbD 0) :
    (combine last length first middle).toUInt64 ^^^ 963444408 ≠
      (combine last' length' first' middle').toUInt64 ^^^ 963444408 := by
  intro same
  have words := UInt32.toUInt64_inj.mp (xor_injective _ same)
  have bits := congrArg (fun word : UInt32 => word.toBitVec.getLsbD 8) words
  simp only [getLsbD_combine] at bits
  exact other bits

/-- Up to 3 bytes the length is in the hash. -/
theorem oneshot_le_three_ne (nonempty : 1 ≤ input.length) (short : input.length ≤ 2) :
    oneshot (ε := ε) input ≠ oneshot (input ++ [d]) := by
  match input, nonempty, short with
  | [x], _, _ =>
      have one : ([x] : Bytes)[[x].length >>> 1]? = some x := by simp
      have two : ([x, d] : Bytes)[[x, d].length >>> 1]? = some d := by simp
      rw [List.singleton_append, oneshot_of_le_three (by simp) rfl rfl one,
        oneshot_of_le_three (by simp) rfl rfl two]
      intro same
      have other : (1 : UInt8).toBitVec.getLsbD 0 ≠ (2 : UInt8).toBitVec.getLsbD 0 := by decide
      exact combine_ne other (avalanche_injective (Except.ok.inj same))
  | [x, y], _, _ =>
      have two : ([x, y] : Bytes)[[x, y].length >>> 1]? = some y := by simp
      have three : ([x, y, d] : Bytes)[[x, y, d].length >>> 1]? = some y := by simp
      rw [List.cons_append, List.singleton_append, oneshot_of_le_three (by simp) rfl rfl two,
        oneshot_of_le_three (by simp) rfl rfl three]
      intro same
      have other : (2 : UInt8).toBitVec.getLsbD 0 ≠ (3 : UInt8).toBitVec.getLsbD 0 := by decide
      exact combine_ne other (avalanche_injective (Except.ok.inj same))

/-- All bytes are ASCII characters. -/
def Ascii (bytes : Bytes) : Prop := ∀ b ∈ bytes, b < 128

instance (bytes : Bytes) : Decidable (Ascii bytes) :=
  List.decidableBAll (· < 128) bytes

/-- Four ASCII bytes have no bit where the class of 4 to 8 bytes has one and the
class of 1 to 3 bytes has none. -/
theorem getLsbD_lowHigh (four : input.length = 4) (ascii : Ascii input) :
    (lowHigh input).toBitVec.getLsbD 39 = false := by
  match input, four with
  | [x, y, z, w], _ =>
      have small : x.toNat < 128 := ascii x List.mem_cons_self
      have value : (lowHigh [x, y, z, w]).toNat = _ := toNat_lowHigh (Nat.le_refl 4)
      have four : ([x, y, z, w].take 4).length = 4 := rfl
      have low := ofLE_lt four
      change _ = ofLE ([x, y, z, w].take 4) +
        2 ^ 32 * (x.toNat + 256 * ofLE [y, z, w]) at value
      change (lowHigh [x, y, z, w]).toNat.testBit 39 = false
      rw [Nat.testBit_eq_decide_div_mod_eq, value]
      refine decide_eq_false ?_
      omega

/-- From 3 to 4 bytes. -/
theorem oneshot_four_ne (three : input.length = 3) (ascii : Ascii (input ++ [d])) :
    oneshot (ε := ε) input ≠ oneshot (input ++ [d]) := by
  match input, three with
  | [x, y, z], _ =>
      have middle : ([x, y, z] : Bytes)[[x, y, z].length >>> 1]? = some y := by simp
      have four : ([x, y, z] ++ [d]).length = 4 := rfl
      rw [oneshot_of_le_three (by simp) rfl rfl middle,
        oneshot_of_le_eight (Nat.le_of_eq four.symm) (by rw [four]; decide)]
      intro same
      have words := congrArg (fun word : UInt64 => word.toBitVec.getLsbD 39)
        (avalanche_injective (Except.ok.inj same))
      have secret : (wordAt defaultSecretRaw 8).toBitVec.getLsbD 39 = true := by decide
      simp only [UInt64.toBitVec_xor, BitVec.getLsbD_xor, getLsbD_lowHigh four ascii, secret]
        at words
      simp at words

/-- From 4 to 8 bytes the hash stays the same exactly when the input ends in four
times the byte that is appended. -/
theorem oneshot_le_eight_eq_iff (long : 4 ≤ input.length) (short : input.length ≤ 7) :
    oneshot (ε := ε) input = oneshot (input ++ [d]) ↔
      input.drop (input.length - 4) = List.replicate 4 d := by
  have longer : (input ++ [d]).length = input.length + 1 := List.length_append
  have front : (input ++ [d]).take 4 = input.take 4 := List.take_append_of_le_length long
  rw [oneshot_of_le_eight long (by omega), oneshot_of_le_eight (by omega) (by omega),
    Except.ok.injEq, avalanche_injective.eq_iff, (xor_injective _).eq_iff,
    lowHigh_eq_iff long (by omega), front, ← last_eq_last_iff (by decide) long]
  exact and_iff_right rfl

theorem mixedWords_injective (low : UInt64) : Function.Injective (mixedWords low) := by
  have unit : prime64Two * 0xba79078168d4baf = 1 := by decide
  intro high high' same
  have first := xor_injective _ (mul_injective unit same)
  exact (UInt64.xor_right_inj _).mp first

/-- From 9 to 16 bytes, the same with eight times the byte. -/
theorem oneshot_le_sixteen_eq_iff (long : 9 ≤ input.length) (short : input.length ≤ 15) :
    oneshot (ε := ε) input = oneshot (input ++ [d]) ↔
      input.drop (input.length - 8) = List.replicate 8 d := by
  have longer : (input ++ [d]).length = input.length + 1 := List.length_append
  have front : (input ++ [d]).take 8 = input.take 8 := List.take_append_of_le_length (by omega)
  have last : (input.drop (input.length - 8)).length = 8 := by
    rw [List.length_drop]
    omega
  have last' : ((input ++ [d]).drop ((input ++ [d]).length - 8)).length = 8 := by
    rw [List.length_drop]
    omega
  rw [oneshot_of_le_sixteen long (by omega), oneshot_of_le_sixteen (by omega) (by omega),
    Except.ok.injEq, avalanche_injective.eq_iff, front, (mixedWords_injective _).eq_iff,
    ← last_eq_last_iff (by decide) (Nat.le_of_succ_le long)]
  constructor
  · exact ofBytes_u64_injective last last'
  · intro same
    rw [same]

/-! ## Eight and nine bytes -/

/-- The bytes after the first one, as the equation between the hash of eight bytes
and that of nine gives them. -/
def laterBytes (word : UInt64) : UInt64 :=
  (word ^^^ wordAt defaultSecretRaw 8) * 0xba79078168d4baf ^^^
    (word ^^^ wordAt defaultSecretRaw 16) * prime64One ^^^ wordAt defaultSecretRaw 24

/-- The first eight bytes, from the first one and the later ones. -/
def firstBytes (first : UInt8) (word : UInt64) : UInt64 :=
  first.toUInt64 + laterBytes word <<< 8

/-- The nine bytes that the equation gives from the first one. -/
def solution (first : UInt8) : Bytes :=
  let word := (firstBytes first)^[8] 0
  toBytes word ++ (toBytes (laterBytes word)).drop 7

/-- No solution is ASCII. -/
theorem solution_not_ascii : ∀ first : Fin 128, ¬ Ascii (solution (UInt8.ofNat first)) := by
  decide +kernel

/-- The equation is read from the low bytes up. -/
theorem firstBytes_moves (first : UInt8) (bits : Nat) (y z : UInt64) (few : bits + 8 ≤ 64)
    (agree : AgreeBelow bits y z) :
    AgreeBelow (bits + 8) (firstBytes first y) (firstBytes first z) := by
  have same : ∀ bits (x : UInt64), AgreeBelow bits x x := fun _ _ => rfl
  have within : bits ≤ 64 := by omega
  refine .add few (same _ _) ?_
  refine AgreeBelow.shiftLeft (k := 8) few (by decide) ?_
  refine .xor (.xor ?_ ?_) (same _ _)
  · exact .mul within (agree.xor (same _ _)) (same _ _)
  · exact .mul within (agree.xor (same _ _)) (same _ _)

/-- Eight bytes are one word in both classes. -/
theorem lowHigh_of_eight (eight : input.length = 8) : lowHigh input = ofBytes input := by
  have parts := ofLE_append (input.take 4) (input.drop 4)
  rw [List.take_append_drop, List.length_take_of_le (by omega)] at parts
  rw [← UInt64.toNat_inj, toNat_lowHigh (by omega), toNat_ofBytes_u64 eight, parts, eight]
  rfl

/-- From 8 to 9 bytes: the equation between the hashes has no ASCII solution. -/
theorem oneshot_nine_ne (eight : input.length = 8) (ascii : Ascii (input ++ [d])) :
    oneshot (ε := ε) input ≠ oneshot (input ++ [d]) := by
  obtain ⟨first, rest, rfl⟩ := List.exists_cons_of_length_eq_add_one eight
  have seven : rest.length = 7 := Nat.succ.inj eight
  have nine : (first :: rest ++ [d]).length = 9 := by
    rw [List.length_append, eight, List.length_singleton]
  have last : (rest ++ [d]).length = 8 := by
    rw [List.length_append, seven, List.length_singleton]
  rw [oneshot_of_le_eight (by omega) (by omega), oneshot_of_le_sixteen (by omega) (by omega),
    lowHigh_of_eight eight, List.take_append_of_le_length (Nat.le_of_eq eight.symm),
    List.take_of_length_le (Nat.le_of_eq eight), nine]
  intro same
  have words := avalanche_injective (Except.ok.inj same)
  change _ = mixedWords _ (ofBytes (rest ++ [d])) at words
  set word : UInt64 := ofBytes (first :: rest) with wordEq
  set high : UInt64 := ofBytes (rest ++ [d]) with highEq
  -- The later bytes are determined by the first eight.
  have later : laterBytes word = high := by
    have unit : prime64Two * 0xba79078168d4baf = 1 := by decide
    rw [laterBytes, words, mixedWords, UInt64.mul_assoc, unit, UInt64.mul_one]
    calc _ = (word ^^^ wordAt defaultSecretRaw 16) * prime64One ^^^
          (word ^^^ wordAt defaultSecretRaw 16) * prime64One ^^^
          (wordAt defaultSecretRaw 24 ^^^ wordAt defaultSecretRaw 24) ^^^ high := by ac_rfl
      _ = high := by rw [UInt64.xor_self, UInt64.xor_self, UInt64.xor_self, UInt64.zero_xor]
  have fixed : firstBytes first word = word := by
    have wordNat : word.toNat = first.toNat + 256 * ofLE rest := toNat_ofBytes_u64 eight
    have highNat : high.toNat = ofLE rest + 256 ^ 7 * d.toNat := by
      rw [toNat_ofBytes_u64 last, ofLE_append, seven]
      rfl
    have byte : first.toNat < 256 := first.toNat_lt
    have bound := ofLE_lt seven
    rw [firstBytes, later, ← UInt64.toNat_inj, UInt64.toNat_add, UInt64.toNat_shiftLeft,
      UInt8.toNat_toUInt64, wordNat, highNat, Nat.shiftLeft_eq]
    change (_ + _ * 2 ^ 8 % 2 ^ 64) % 2 ^ 64 = _
    omega
  have found : (firstBytes first)^[8] 0 = word :=
    eq_iterate_of_fixed (firstBytes_moves first) (by decide) fixed 0
  have solves : solution first = first :: rest ++ [d] := by
    rw [solution, found, later, wordEq, highEq, toBytes_ofBytes _ eight, toBytes_ofBytes _ last,
      List.drop_left' seven]
  have small : first.toNat < 128 := ascii first List.mem_cons_self
  refine solution_not_ascii ⟨first.toNat, small⟩ ?_
  rw [UInt8.ofNat_toNat, solves]
  exact ascii

/-- The input ends in the byte so often that its words stay the same when the byte
is appended. -/
def KeepsWords (input : Bytes) (d : UInt8) : Prop :=
  4 ≤ input.length ∧ input.length ≤ 7 ∧ input.drop (input.length - 4) = List.replicate 4 d ∨
    9 ≤ input.length ∧ input.length ≤ 15 ∧ input.drop (input.length - 8) = List.replicate 8 d

/-- Up to 15 bytes, an ASCII input keeps its hash only when it keeps its words. -/
theorem oneshot_eq_append_iff (nonempty : 1 ≤ input.length) (short : input.length ≤ 15)
    (ascii : Ascii (input ++ [d])) :
    oneshot (ε := ε) input = oneshot (input ++ [d]) ↔ KeepsWords input d := by
  rcases Nat.lt_or_ge input.length 4 with few | four
  · refine iff_of_false ?_ (by rw [KeepsWords]; omega)
    rcases Nat.lt_or_ge input.length 3 with fewer | three
    · exact oneshot_le_three_ne nonempty (Nat.le_of_lt_succ fewer)
    · exact oneshot_four_ne (by omega) ascii
  · rcases Nat.lt_or_ge input.length 8 with less | eight
    · rw [oneshot_le_eight_eq_iff four (Nat.le_of_lt_succ less)]
      constructor
      · intro same
        exact .inl ⟨four, Nat.le_of_lt_succ less, same⟩
      · rintro (⟨_, _, same⟩ | ⟨nine, _⟩)
        · exact same
        · omega
    · rcases Nat.lt_or_ge input.length 9 with less | nine
      · refine iff_of_false (oneshot_nine_ne (by omega) ascii) ?_
        rw [KeepsWords]
        omega
      · rw [oneshot_le_sixteen_eq_iff nine short]
        constructor
        · intro same
          exact .inr ⟨nine, short, same⟩
        · rintro (⟨_, _, _⟩ | ⟨_, _, same⟩)
          · omega
          · exact same

end VideoStorage.TwoxHash

namespace VideoStorage.Claim

open RustStd TwoxHash Api

/-! ## Extending an id -/

/-- `gen_key` of a string. -/
def genKey {ε : Type} (text : Str) : Checked ε UInt64 := TwoxHash.oneshot (utf8 text)

/-- An id and the id with one more character have keys, and these are different. -/
def KeyChanges (id : Str) (c : Char) : Prop :=
  ∃ key key', genKey (ε := Empty) id = .ok key ∧ genKey (ε := Empty) (id ++ [c]) = .ok key' ∧
    key ≠ key'

/-- An id of 4 to 7 characters ends in four times the character, or an id of 9 to
15 characters in eight times. -/
def RepeatsLast (id : Str) (c : Char) : Prop :=
  4 ≤ id.length ∧ id.length ≤ 7 ∧ id.drop (id.length - 4) = List.replicate 4 c ∨
    9 ≤ id.length ∧ id.length ≤ 15 ∧ id.drop (id.length - 8) = List.replicate 8 c

/-- The byte of an ASCII character. -/
def asciiByte (c : Char) : UInt8 := c.val.toUInt8

theorem toNat_asciiByte {c : Char} (ascii : c.toNat < 128) : (asciiByte c).toNat = c.toNat := by
  rw [asciiByte, UInt32.toNat_toUInt8]
  exact Nat.mod_eq_of_lt (Nat.lt_of_lt_of_le ascii (by decide))

theorem utf8_of_ascii {text : Str} (ascii : ∀ c ∈ text, c.toNat < 128) :
    utf8 text = text.map asciiByte := by
  induction text with
  | nil => rfl
  | cons c rest ih =>
      have one : String.utf8EncodeChar c = [asciiByte c] := by
        have small : c.toNat < 128 := ascii c List.mem_cons_self
        apply String.utf8EncodeChar_eq_singleton
        rw [Char.utf8Size_eq_one_iff, UInt32.le_iff_toNat_le]
        exact Nat.le_of_lt_succ small
      have rest' := ih fun d inside => ascii d (List.mem_cons_of_mem _ inside)
      rw [utf8, List.flatMap_cons, one, List.map_cons]
      exact congrArg _ rest'

theorem asciiByte_inj {c d : Char} (ascii : c.toNat < 128) (ascii' : d.toNat < 128)
    (same : asciiByte c = asciiByte d) : c = d := by
  have values := congrArg UInt8.toNat same
  rw [toNat_asciiByte ascii, toNat_asciiByte ascii'] at values
  exact Char.toNat_inj.mp values

/-- The last characters are the last bytes. -/
theorem map_asciiByte_eq_replicate {text : Str} {c : Char} {n : Nat}
    (ascii : ∀ d ∈ text, d.toNat < 128) (asciiChar : c.toNat < 128) :
    text.map asciiByte = List.replicate n (asciiByte c) ↔ text = List.replicate n c := by
  rw [List.eq_replicate_iff, List.eq_replicate_iff, List.length_map, List.forall_mem_map]
  refine and_congr_right fun _ => forall₂_congr fun d inside => ?_
  exact ⟨asciiByte_inj (ascii d inside) asciiChar, congrArg asciiByte⟩

theorem keepsWords_iff {id : Str} {c : Char} (ascii : ∀ d ∈ id, d.toNat < 128)
    (asciiChar : c.toNat < 128) :
    KeepsWords (id.map asciiByte) (asciiByte c) ↔ RepeatsLast id c := by
  have last : ∀ n, ∀ d ∈ id.drop (id.length - n), d.toNat < 128 := fun n d inside =>
    ascii d (List.mem_of_mem_drop inside)
  rw [KeepsWords, RepeatsLast, List.length_map, ← List.map_drop, ← List.map_drop,
    map_asciiByte_eq_replicate (last 4) asciiChar, map_asciiByte_eq_replicate (last 8) asciiChar]

/-- **One more character**: an ASCII id of up to 15 characters gets another key
exactly when it does not end in four, or eight, times that character. -/
theorem keyChanges_iff {id : Str} {c : Char} (nonempty : 1 ≤ id.length) (short : id.length ≤ 15)
    (ascii : ∀ d ∈ id, d.toNat < 128) (asciiChar : c.toNat < 128) :
    KeyChanges id c ↔ ¬ RepeatsLast id c := by
  have asciiAll : ∀ d ∈ id ++ [c], d.toNat < 128 := by
    intro d inside
    rcases List.mem_append.mp inside with before | here
    · exact ascii d before
    · exact List.mem_singleton.mp here ▸ asciiChar
  have bytes : Ascii (id.map asciiByte ++ [asciiByte c]) := by
    intro b inside
    rw [← List.map_singleton, ← List.map_append] at inside
    obtain ⟨d, within, rfl⟩ := List.mem_map.mp inside
    rw [UInt8.lt_iff_toNat_lt, toNat_asciiByte (asciiAll d within)]
    exact asciiAll d within
  have same := oneshot_eq_append_iff (ε := Empty) (by rwa [List.length_map])
    (by rwa [List.length_map]) bytes
  rw [keepsWords_iff ascii asciiChar] at same
  have extended : utf8 (id ++ [c]) = id.map asciiByte ++ [asciiByte c] := by
    rw [utf8_of_ascii asciiAll, List.map_append, List.map_singleton]
  obtain ⟨key, hash⟩ : Returns (genKey (ε := Empty) id) :=
    oneshot_returns (by rw [utf8_of_ascii ascii, List.length_map]; omega)
  obtain ⟨key', hash'⟩ : Returns (genKey (ε := Empty) (id ++ [c])) :=
    oneshot_returns (by rw [extended, List.length_append, List.length_map,
      List.length_singleton]; omega)
  rw [← same, ← extended, ← utf8_of_ascii ascii]
  constructor
  · rintro ⟨first, second, isFirst, isSecond, other⟩ equal
    exact other (Except.ok.inj (isFirst.symm.trans (equal.trans isSecond)))
  · intro other
    refine ⟨key, key', hash, hash', fun equal => other ?_⟩
    exact hash.trans (equal ▸ hash'.symm)

theorem keyChanges_iff_episode :
    KeyChanges "episode".toList '2' ↔ ¬ RepeatsLast "episode".toList '2' :=
  keyChanges_iff (by decide) (by decide) (by simp) (by decide)

/-- A token for `aaaa` opens `aaaaa`. -/
theorem repeated_character_keeps_key :
    isValidJobId "aaaa".toList = true ∧ isValidJobId "aaaaa".toList = true ∧
      ¬ KeyChanges "aaaa".toList 'a' ∧
      ∀ payload : ClaimPayloadV2,
        payload.verifyAssetId "aaaaa".toList = payload.verifyAssetId "aaaa".toList := by
  have same : ∀ ε : Type, genKey (ε := ε) "aaaaa".toList = genKey "aaaa".toList := by
    intro ε
    have ends : oneshot (ε := ε) [97, 97, 97, 97] = oneshot ([97, 97, 97, 97] ++ [97]) ↔ _ :=
      oneshot_le_eight_eq_iff (by decide) (by decide)
    exact (ends.mpr rfl).symm
  refine ⟨by decide, by decide, ?_, fun payload => ?_⟩
  · rintro ⟨first, second, isFirst, isSecond, other⟩
    exact other (Except.ok.inj (isFirst.symm.trans ((same _).symm.trans isSecond)))
  · exact congrArg (· >>= payload.assetsFilter.containsU64) (same ClaimError)

end VideoStorage.Claim
