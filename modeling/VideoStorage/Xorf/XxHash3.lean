import VideoStorage.Library.Bytes

/-!
# XxHash3

The one-shot hash of a byte string, by classes of its length. Up to 240 bytes
the classes read overlapping words of the input; beyond that the input is mixed
in stripes of 64 bytes and the rest is hashed as an input of 17 to 128 bytes,
whatever its length. A rest shorter than 16 bytes has no chunk to read, and
hashing it panics. Inputs of at most 240 bytes always have a hash
(`oneshot_returns`), and longer ones when the rest is empty or has a chunk
(`oneshot_returns_iff`).
-/

set_option autoImplicit false

namespace VideoStorage.TwoxHash

open RustStd LittleEndian

/-! ## Constants -/

/-- `PRIME64_1`. -/
def prime64One : UInt64 := 0x9E3779B185EBCA87

/-- `PRIME64_2`. -/
def prime64Two : UInt64 := 0xC2B2AE3D27D4EB4F

/-- `PRIME_MX1`. -/
def primeMx1 : UInt64 := 0x165667919E3779F9

/-- `DEFAULT_SECRET_LENGTH`. -/
def defaultSecretLength : Nat := 192

/-- `DEFAULT_SECRET_RAW`. -/
def defaultSecretRaw : Bytes :=
  [0xb8, 0xfe, 0x6c, 0x39, 0x23, 0xa4, 0x4b, 0xbe, 0x7c, 0x01, 0x81, 0x2c, 0xf7, 0x21, 0xad, 0x1c,
   0xde, 0xd4, 0x6d, 0xe9, 0x83, 0x90, 0x97, 0xdb, 0x72, 0x40, 0xa4, 0xa4, 0xb7, 0xb3, 0x67, 0x1f,
   0xcb, 0x79, 0xe6, 0x4e, 0xcc, 0xc0, 0xe5, 0x78, 0x82, 0x5a, 0xd0, 0x7d, 0xcc, 0xff, 0x72, 0x21,
   0xb8, 0x08, 0x46, 0x74, 0xf7, 0x43, 0x24, 0x8e, 0xe0, 0x35, 0x90, 0xe6, 0x81, 0x3a, 0x26, 0x4c,
   0x3c, 0x28, 0x52, 0xbb, 0x91, 0xc3, 0x00, 0xcb, 0x88, 0xd0, 0x65, 0x8b, 0x1b, 0x53, 0x2e, 0xa3,
   0x71, 0x64, 0x48, 0x97, 0xa2, 0x0d, 0xf9, 0x4e, 0x38, 0x19, 0xef, 0x46, 0xa9, 0xde, 0xac, 0xd8,
   0xa8, 0xfa, 0x76, 0x3f, 0xe3, 0x9c, 0x34, 0x3f, 0xf9, 0xdc, 0xbb, 0xc7, 0xc7, 0x0b, 0x4f, 0x1d,
   0x8a, 0x51, 0xe0, 0x4b, 0xcd, 0xb4, 0x59, 0x31, 0xc8, 0x9f, 0x7e, 0xc9, 0xd9, 0x78, 0x73, 0x64,
   0xea, 0xc5, 0xac, 0x83, 0x34, 0xd3, 0xeb, 0xc3, 0xc5, 0x81, 0xa0, 0xff, 0xfa, 0x13, 0x63, 0xeb,
   0x17, 0x0d, 0xdd, 0x51, 0xb7, 0xf0, 0xda, 0x49, 0xd3, 0x16, 0x55, 0x26, 0x29, 0xd4, 0x68, 0x9e,
   0x2b, 0x16, 0xbe, 0x58, 0x7d, 0x47, 0xa1, 0xfc, 0x8f, 0xf8, 0xb8, 0xd1, 0x7a, 0xd0, 0x31, 0xce,
   0x45, 0xcb, 0x3a, 0x8f, 0x95, 0x16, 0x04, 0x28, 0xaf, 0xd7, 0xfb, 0xca, 0xbb, 0x4b, 0x40, 0x7e]

/-! ## Pieces of the input and of the secret -/

/-- The 64-bit word at an offset of the secret or of a chunk. -/
def wordAt (bytes : Bytes) (offset : Nat) : UInt64 := ofBytes ((bytes.drop offset).take 8)

/-- The first chunk of 16 bytes of the secret from an offset on. -/
def secretChunk (secret : Bytes) (offset : Nat) : Bytes := (secret.drop offset).take 16

/-- `count` consecutive chunks of `n` bytes. -/
def chunks (n : Nat) : Nat → Bytes → List Bytes
  | 0, _ => []
  | count + 1, bytes => bytes.take n :: chunks n count (bytes.drop n)

/-- `as_chunks`: the chunks from the front and the rest. -/
def asChunks (n : Nat) (bytes : Bytes) : List Bytes × Bytes :=
  let len := bytes.length / n
  (chunks n len bytes, bytes.drop (len * n))

/-- `as_rchunks`: the rest and the chunks up to the end. -/
def asRchunks (n : Nat) (bytes : Bytes) : Bytes × List Bytes :=
  let len := bytes.length / n
  (bytes.take (bytes.length - len * n), chunks n len (bytes.drop (bytes.length - len * n)))

section

variable {ε : Type}

/-- `read_u32_le`. -/
def readU32Le (bytes : Bytes) : Checked ε UInt32 := do
  let first ← slice bytes 0 4
  pure (ofBytes first)

/-- `read_u64_le`. -/
def readU64Le (bytes : Bytes) : Checked ε UInt64 := do
  let first ← slice bytes 0 8
  pure (ofBytes first)

/-- The chunk at a position. -/
def chunkAt (pieces : List Bytes) (position : Nat) : Checked ε Bytes :=
  match pieces[position]? with
  | some chunk => .ok chunk
  | none => .error .panic

/-- The chunk at `q - back`, where `q` is the number of chunks. -/
def chunkFromEnd (pieces : List Bytes) (back : Nat) : Checked ε Bytes :=
  if back ≤ pieces.length then chunkAt pieces (pieces.length - back) else .error .panic

/-! ## Mixing -/

/-- `avalanche`. -/
def avalanche (x : UInt64) : UInt64 :=
  let x := x ^^^ (x >>> 37)
  let x := x * primeMx1
  x ^^^ (x >>> 32)

/-- `mix_step`. -/
def mixStep (data secret : Bytes) (seed : UInt64) : UInt64 :=
  let a := wordAt data 0 ^^^ (wordAt secret 0 + seed)
  let b := wordAt data 8 ^^^ (wordAt secret 8 - seed)
  let product := a.toNat * b.toNat
  UInt64.ofNat product ^^^ UInt64.ofNat (product >>> 64)

/-! ## The length classes -/

/-- `impl_0_bytes`. -/
def impl0Bytes (seed : UInt64) : UInt64 :=
  avalanche (seed ^^^ wordAt defaultSecretRaw 56 ^^^ wordAt defaultSecretRaw 64)

/-- `impl_1_to_3_bytes`. -/
def impl1To3Bytes (secret : Bytes) (seed : UInt64) (input : Bytes) : Checked ε UInt64 := do
  let inputLength := UInt8.ofNat input.length
  let last ← byteAt input (input.length - 1)
  let first ← byteAt input 0
  let middle ← byteAt input (input.length >>> 1)
  let combined : UInt32 := last.toUInt32 ||| (inputLength.toUInt32 <<< 8) |||
    (first.toUInt32 <<< 16) ||| (middle.toUInt32 <<< 24)
  let secretWord ← readU32Le (secret.take 4)
  pure (avalanche (combined.toUInt64 ^^^ (secretWord.toUInt64 + seed)))

/-- `impl_4_to_8_bytes`. -/
def impl4To8Bytes (secret : Bytes) (seed : UInt64) (input : Bytes) : Checked ε UInt64 := do
  let inputLo ← readU32Le (input.take 4)
  let inputHi ← readU32Le (← slice input (input.length - 4) input.length)
  let input64 := inputLo.toUInt64 + (inputHi.toUInt64 <<< 32)
  pure (avalanche (input64 ^^^ (wordAt secret 8 + seed)))

/-- `impl_9_to_16_bytes`. -/
def impl9To16Bytes (secret : Bytes) (seed : UInt64) (input : Bytes) : Checked ε UInt64 := do
  let inputLo ← readU64Le (input.take 8)
  let inputHi ← readU64Le (← slice input (input.length - 8) input.length)
  let acc := (inputLo ^^^ (wordAt secret 16 + seed)) * prime64One
  let acc := (acc ^^^ inputHi ^^^ (wordAt secret 24 - seed)) * prime64Two
  pure (avalanche acc)

/-- Mix the chunk `index` from the front and the chunk `index + 1` from the back
with the secret at `32 * index`. -/
def mixPair (secret : Bytes) (seed : UInt64) (fwd bwd : List Bytes) (index : Nat) (acc : UInt64) :
    Checked ε UInt64 := do
  let front ← chunkAt fwd index
  let acc := acc + mixStep front (secretChunk secret (32 * index)) seed
  let back ← chunkFromEnd bwd (index + 1)
  pure (acc + mixStep back (secretChunk secret (32 * index + 16)) seed)

/-- `impl_17_to_128_bytes`: the pairs of chunks the length asks for, from the
innermost to the outermost. -/
def impl17To128Bytes (secret : Bytes) (seed : UInt64) (input : Bytes) : Checked ε UInt64 := do
  let acc := UInt64.ofNat input.length * prime64One
  let fwd := (asChunks 16 input).1
  let bwd := (asRchunks 16 input).2
  let acc ← if input.length > 96 then mixPair secret seed fwd bwd 3 acc else pure acc
  let acc ← if input.length > 64 then mixPair secret seed fwd bwd 2 acc else pure acc
  let acc ← if input.length > 32 then mixPair secret seed fwd bwd 1 acc else pure acc
  let acc ← mixPair secret seed fwd bwd 0 acc
  pure (avalanche acc)

/-- The stripes of 32 bytes, numbered from `i` on, as far as the secret
reaches. -/
def mixStripes (secret : Bytes) (seed : UInt64) : Nat → List Bytes → UInt64 → UInt64
  | _, [], acc => acc
  | i, stripe :: more, acc =>
      let secretStart := i * 16
      let acc :=
        if secretStart + 32 ≤ defaultSecretLength then
          acc + mixStep (stripe.take 16) (secretChunk secret secretStart) seed +
            mixStep (stripe.drop 16) (secretChunk secret (secretStart + 16)) seed
        else acc
      mixStripes secret seed (i + 1) more acc

/-- `impl_129_to_240_bytes`. -/
def impl129To240Bytes (secret : Bytes) (seed : UInt64) (input : Bytes) : UInt64 :=
  let acc := UInt64.ofNat input.length * prime64One
  let (stripes, tail) := asChunks 32 input
  let acc := mixStripes secret seed 0 stripes acc
  let acc := (asChunks 16 tail).1.foldl
    (fun acc chunk => acc + mixStep chunk (secretChunk secret 128) seed) acc
  avalanche acc

/-- The four chunks of a stripe of 64 bytes. -/
def mixLongStripe (secret : Bytes) (seed : UInt64) (acc : UInt64) (stripe : Bytes) : UInt64 :=
  [0, 1, 2, 3].foldl
    (fun acc i => acc + mixStep ((stripe.drop (i * 16)).take 16) (secretChunk secret (i * 16)) seed)
    acc

/-- `impl_241_plus_bytes`. -/
def impl241PlusBytes (secret : Bytes) (seed : UInt64) (input : Bytes) : Checked ε UInt64 := do
  let acc := UInt64.ofNat input.length * prime64One
  let (stripes, last) := asChunks 64 input
  let acc := stripes.foldl (mixLongStripe secret seed) acc
  let acc ←
    if last = [] then pure acc
    else do
      let rest ← impl17To128Bytes secret seed last
      pure (acc + rest)
  pure (avalanche acc)

/-- `impl_oneshot`. -/
def implOneshot (secret : Bytes) (seed : UInt64) (input : Bytes) : Checked ε UInt64 :=
  if input.length = 0 then pure (impl0Bytes seed)
  else if input.length ≤ 3 then impl1To3Bytes secret seed input
  else if input.length ≤ 8 then impl4To8Bytes secret seed input
  else if input.length ≤ 16 then impl9To16Bytes secret seed input
  else if input.length ≤ 128 then impl17To128Bytes secret seed input
  else if input.length ≤ 240 then pure (impl129To240Bytes secret seed input)
  else impl241PlusBytes secret seed input

/-- `XxHash3_64::oneshot`. -/
def oneshot (input : Bytes) : Checked ε UInt64 := implOneshot defaultSecretRaw 0 input

/-! ## Inputs that can be hashed

Every class up to 240 bytes reads inside its input. -/

theorem length_chunks (n count : Nat) (bytes : Bytes) : (chunks n count bytes).length = count := by
  induction count generalizing bytes with
  | zero => rfl
  | succ count ih => rw [chunks, List.length_cons, ih]

theorem readU32Le_returns {bytes : Bytes} (long : 4 ≤ bytes.length) :
    Returns (readU32Le (ε := ε) bytes) := by
  rw [readU32Le, slice_within (Nat.zero_le _) long, bind_ok]
  exact .pure _

theorem readU64Le_returns {bytes : Bytes} (long : 8 ≤ bytes.length) :
    Returns (readU64Le (ε := ε) bytes) := by
  rw [readU64Le, slice_within (Nat.zero_le _) long, bind_ok]
  exact .pure _

theorem chunkAt_returns {pieces : List Bytes} {position : Nat} (within : position < pieces.length) :
    Returns (chunkAt (ε := ε) pieces position) :=
  ⟨pieces[position], by rw [chunkAt, List.getElem?_eq_getElem within]⟩

theorem chunkFromEnd_returns {pieces : List Bytes} {back : Nat} (some : 0 < back)
    (within : back ≤ pieces.length) : Returns (chunkFromEnd (ε := ε) pieces back) := by
  rw [chunkFromEnd, if_pos within]
  exact chunkAt_returns (by omega)

theorem mixPair_returns (secret : Bytes) (seed : UInt64) {fwd bwd : List Bytes} {index : Nat}
    (front : index < fwd.length) (back : index < bwd.length) (acc : UInt64) :
    Returns (mixPair (ε := ε) secret seed fwd bwd index acc) := by
  refine (chunkAt_returns front).andThen fun _ _ => ?_
  exact (chunkFromEnd_returns (Nat.succ_pos _) back).andThen fun _ _ => .pure _

theorem impl1To3Bytes_returns (secret : Bytes) (seed : UInt64) {input : Bytes}
    (secretLong : 4 ≤ secret.length) (long : 0 < input.length) :
    Returns (impl1To3Bytes (ε := ε) secret seed input) := by
  have half : input.length >>> 1 < input.length := by
    rw [Nat.shiftRight_eq_div_pow]
    exact Nat.div_lt_self long (by decide)
  refine (byteAt_returns (Nat.sub_lt long Nat.one_pos)).andThen fun last _ => ?_
  refine (byteAt_returns long).andThen fun first _ => ?_
  refine (byteAt_returns half).andThen fun middle _ => ?_
  refine (readU32Le_returns ?_).andThen fun secretWord _ => .pure _
  exact Nat.le_of_eq (List.length_take_of_le secretLong).symm

theorem impl4To8Bytes_returns (secret : Bytes) (seed : UInt64) {input : Bytes}
    (long : 4 ≤ input.length) : Returns (impl4To8Bytes (ε := ε) secret seed input) := by
  refine (readU32Le_returns ?_).andThen fun inputLo _ => ?_
  · exact Nat.le_of_eq (List.length_take_of_le long).symm
  · rw [slice_within (Nat.sub_le _ _) (Nat.le_refl _), bind_ok]
    refine (readU32Le_returns ?_).andThen fun inputHi _ => .pure _
    rw [List.length_take, List.length_drop]
    omega

theorem impl9To16Bytes_returns (secret : Bytes) (seed : UInt64) {input : Bytes}
    (long : 8 ≤ input.length) : Returns (impl9To16Bytes (ε := ε) secret seed input) := by
  refine (readU64Le_returns ?_).andThen fun inputLo _ => ?_
  · exact Nat.le_of_eq (List.length_take_of_le long).symm
  · rw [slice_within (Nat.sub_le _ _) (Nat.le_refl _), bind_ok]
    refine (readU64Le_returns ?_).andThen fun inputHi _ => .pure _
    rw [List.length_take, List.length_drop]
    omega

/-- The pairs of an input that has a chunk. -/
theorem impl17To128Bytes_returns (secret : Bytes) (seed : UInt64) {input : Bytes}
    (long : 16 ≤ input.length) : Returns (impl17To128Bytes (ε := ε) secret seed input) := by
  have mix (index : Nat) (enough : 16 * (index + 1) ≤ input.length) (acc : UInt64) :
      Returns (mixPair (ε := ε) secret seed (asChunks 16 input).1 (asRchunks 16 input).2 index
        acc) := by
    have less : index < input.length / 16 := by omega
    apply mixPair_returns
    · rwa [asChunks, length_chunks]
    · rwa [asRchunks, length_chunks]
  have mixWhen (bound index : Nat) (enough : 16 * (index + 1) ≤ bound)
      {next : UInt64 → Checked ε UInt64} (returns : ∀ acc, Returns (next acc)) (acc : UInt64) :
      Returns (if input.length > bound then
        mixPair secret seed (asChunks 16 input).1 (asRchunks 16 input).2 index acc >>= next
        else pure acc >>= next) := by
    split
    · exact (mix index (by omega) acc).andThen fun acc _ => returns acc
    · exact returns acc
  refine mixWhen 96 3 (by decide) (mixWhen 64 2 (by decide) (mixWhen 32 1 (by decide) ?_)) _
  exact fun acc => (mix 0 long acc).andThen fun acc _ => .pure _

/-- **Every input of at most 240 bytes has a hash.** -/
theorem oneshot_returns {input : Bytes} (short : input.length ≤ 240) :
    Returns (oneshot (ε := ε) input) := by
  have secretLong : 4 ≤ defaultSecretRaw.length := Nat.le_add_left 4 188
  rw [oneshot, implOneshot]
  split
  · exact .pure _
  · rename_i nonempty
    split
    · exact impl1To3Bytes_returns _ _ secretLong (Nat.pos_of_ne_zero nonempty)
    · split
      · exact impl4To8Bytes_returns _ _ (by omega)
      · split
        · exact impl9To16Bytes_returns _ _ (by omega)
        · split
          · exact impl17To128Bytes_returns _ _ (by omega)
          · exact .pure _

/-! ## Longer inputs -/

/-- The input has no rest behind its stripes that is too short for a chunk. -/
def Hashable (input : Bytes) : Prop :=
  input.length ≤ 240 ∨ input.length % 64 = 0 ∨ 16 ≤ input.length % 64

instance (input : Bytes) : Decidable (Hashable input) :=
  inferInstanceAs (Decidable (_ ∨ _ ∨ _))

/-- An input without a chunk. -/
theorem impl17To128Bytes_panics (secret : Bytes) (seed : UInt64) {input : Bytes}
    (short : input.length < 16) :
    impl17To128Bytes (ε := ε) secret seed input = .error .panic := by
  have none : (asChunks 16 input).1 = [] := by
    rw [asChunks, Nat.div_eq_of_lt short]
    rfl
  have not96 : ¬ input.length > 96 := by omega
  have not64 : ¬ input.length > 64 := by omega
  have not32 : ¬ input.length > 32 := by omega
  rw [impl17To128Bytes, none]
  simp only [if_neg not96, if_neg not64, if_neg not32]
  rfl

/-- The rest of a long input behind its stripes. -/
theorem length_rest (input : Bytes) : (asChunks 64 input).2.length = input.length % 64 := by
  rw [asChunks, List.length_drop, Nat.mod_eq_sub_div_mul]

theorem impl241PlusBytes_returns_iff (secret : Bytes) (seed : UInt64) (input : Bytes) :
    Returns (impl241PlusBytes (ε := ε) secret seed input) ↔
      input.length % 64 = 0 ∨ 16 ≤ input.length % 64 := by
  rw [← length_rest, impl241PlusBytes]
  generalize asChunks 64 input = parts
  obtain ⟨stripes, last⟩ := parts
  dsimp only
  by_cases noRest : last = []
  · rw [if_pos noRest]
    exact iff_of_true (.pure _) (.inl (List.length_eq_zero_iff.mpr noRest))
  · rw [if_neg noRest, or_iff_right (mt List.length_eq_zero_iff.mp noRest)]
    constructor
    · intro returns
      by_contra short
      rw [impl17To128Bytes_panics secret seed (Nat.not_le.mp short)] at returns
      obtain ⟨value, ok⟩ := returns
      cases ok
    · intro long
      exact (impl17To128Bytes_returns secret seed long).andThen fun _ _ => .pure _

/-- **An input has a hash** exactly when it has at most 240 bytes, or its rest
behind the stripes of 64 bytes is empty or has a chunk. -/
theorem oneshot_returns_iff (input : Bytes) :
    Returns (oneshot (ε := ε) input) ↔ Hashable input := by
  by_cases short : input.length ≤ 240
  · exact iff_of_true (oneshot_returns short) (.inl short)
  · rw [oneshot, implOneshot, if_neg (by omega), if_neg (by omega), if_neg (by omega),
      if_neg (by omega), if_neg (by omega), if_neg short, impl241PlusBytes_returns_iff, Hashable,
      or_iff_right short]

end

end VideoStorage.TwoxHash
