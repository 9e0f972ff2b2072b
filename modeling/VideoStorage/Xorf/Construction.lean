import VideoStorage.Xorf.BinaryFuse16

/-!
# Building a filter

`BinaryFuse16::try_from_iterator`. An attempt places the hashes of the keys
roughly by segment, counts at every position of the array the hashes that fall on
it, and takes off, one after the other, hashes that are alone at one of their
positions. An attempt that takes off all of them gives the filter; another
attempt starts with the next seed.

A debug build panics where the 32-bit sizes or the 8-bit counters overflow, and
on keys that are not distinct. The floating-point formulas for the sizes are a
parameter (`Sizing`), as is the random initial content.

Whatever these are, every position of every key lies inside the array of a filter
that was built (`tryFromIterator_wellSized`), so looking a key up returns
(`containsU64_returns`).
-/

set_option autoImplicit false

namespace VideoStorage.Xorf

open RustStd

/-- Why a construction gives no filter. -/
inductive BuildStop where
  /-- The error it returns. -/
  | failed (text : String)
  /-- A loop that never ends. -/
  | endless
  deriving DecidableEq, Repr

abbrev Build := Checked BuildStop

/-! ## Machine integers -/

/-- Multiplication, checked in a debug build. -/
def mulU32 (debug : Bool) (a b : UInt32) : Build UInt32 :=
  if debug = true ∧ UInt32.size ≤ a.toNat * b.toNat then .error .panic else .ok (a * b)

/-- Addition, checked in a debug build. -/
def addU8 (debug : Bool) (a b : UInt8) : Build UInt8 :=
  if debug = true ∧ UInt8.size ≤ a.toNat + b.toNat then .error .panic else .ok (a + b)

/-- Subtraction, checked in a debug build. -/
def subU8 (debug : Bool) (a b : UInt8) : Build UInt8 :=
  if debug = true ∧ a < b then .error .panic else .ok (a - b)

/-- `u32::div_ceil`. -/
def divCeil (a b : UInt32) : UInt32 := if 0 < a % b then a / b + 1 else a / b

/-- `splitmix64`: the next state and the value. -/
def splitmix64 (seed : UInt64) : UInt64 × UInt64 :=
  let seed := seed + 0x9e3779b97f4a7c15
  let z := (seed ^^^ (seed >>> 30)) * 0xbf58476d1ce4e5b9
  let z := (z ^^^ (z >>> 27)) * 0x94d049bb133111eb
  (seed, z ^^^ (z >>> 31))

/-- `mod3`. -/
def mod3 (x : UInt8) : UInt8 := if x > 2 then x - 3 else x

/-! ## The sizes -/

/-- What the floating-point formulas give for a number of keys: the exponent of
`segment_length`, and the product of the number and `size_factor`, rounded. -/
structure Sizing where
  exponent : UInt32
  capacity : UInt32

structure Geometry where
  segmentLength : UInt32
  segmentLengthMask : UInt32
  segmentCount : UInt32
  segmentCountLength : UInt32
  /-- `fp_array_len`. -/
  arrayLen : UInt32

namespace Geometry

/-- The sizes for a number of keys. -/
def compute (debug : Bool) (sizing : Sizing) (size : Nat) : Build Geometry := do
  let arity : UInt32 := 3
  let segmentLength := min (1 <<< sizing.exponent) 262144
  let segmentLengthMask := segmentLength - 1
  let capacity := if size > 1 then sizing.capacity else 0
  let initSegmentCount := divCeil capacity segmentLength
  let arrayLen ← mulU32 debug initSegmentCount segmentLength
  let proposed := divCeil arrayLen segmentLength
  let segmentCount := if proposed < arity then 1 else proposed - (arity - 1)
  let arrayLen ← mulU32 debug (segmentCount + arity - 1) segmentLength
  let segmentCountLength ← mulU32 debug segmentCount segmentLength
  pure { segmentLength, segmentLengthMask, segmentCount, segmentCountLength, arrayLen }

/-- The three positions of a hash. -/
def positions (geometry : Geometry) (hash : UInt64) : Nat × Nat × Nat :=
  let (index1, index2, index3) := hashOfHash hash geometry.segmentLength
    geometry.segmentLengthMask geometry.segmentCountLength
  (index1.toNat, index2.toNat, index3.toNat)

/-- `h012`, the three positions of a hash as a ring. The last place is never
written. -/
def h012 (geometry : Geometry) (hash : UInt64) : List Nat :=
  let (index1, index2, index3) := geometry.positions hash
  [index1, index2, index3, index1, index2, 0]

end Geometry

/-- `block_bits`, from a first value on. -/
def blockBits (segmentCount : UInt32) : Nat → Nat → Nat
  | 0, bits => bits
  | more + 1, bits =>
      if 1 <<< bits < segmentCount.toNat then blockBits segmentCount more (bits + 1) else bits

/-! ## Placing the hashes -/

/-- `start_pos` at the start of an attempt. -/
def startPositions (blockBits size : Nat) : List Nat :=
  (List.range (1 <<< blockBits)).map fun i => (i * size) >>> blockBits

/-- The probing loop: the first segment from an index on whose next slot is free.
A whole round without one is repeated for ever. -/
def probe (reverseOrder : List UInt64) (startPos : List Nat) (mask : Nat) :
    Nat → Nat → Build Nat
  | 0, _ => fail .endless
  | round + 1, segmentIndex => do
      let position ← item startPos segmentIndex
      let occupant ← item reverseOrder position
      if occupant = 0 then pure segmentIndex
      else probe reverseOrder startPos mask round ((segmentIndex + 1) &&& mask)

/-- Place the hashes of the keys in `reverse_order`. -/
def placeHashes (seed : UInt64) (blockBits : Nat) :
    List UInt64 → List Nat → List UInt64 → Build (List UInt64)
  | [], _, reverseOrder => pure reverseOrder
  | key :: keys, startPos, reverseOrder => do
      let hash := mix key seed
      let segmentIndex ← probe reverseOrder startPos ((1 <<< blockBits) - 1) (1 <<< blockBits)
        (hash.toNat >>> (64 - blockBits))
      let position ← item startPos segmentIndex
      let reverseOrder ← setItem reverseOrder position hash
      let startPos ← setItem startPos segmentIndex (position + 1)
      placeHashes seed blockBits keys startPos reverseOrder

/-! ## Counting the hashes -/

/-- `t2count` and `t2hash`: the number of hashes at a position, shifted by two,
with the exclusive or of their places, and the exclusive or of the hashes. -/
structure Counts where
  t2count : List UInt8
  t2hash : List UInt64

namespace Counts

/-- Change the counter at a position and cancel or enter a hash there. -/
def update (counts : Counts) (change : UInt8 → Build UInt8) (hash : UInt64) (place : UInt8)
    (index : Nat) : Build Counts := do
  let count ← item counts.t2count index
  let changed ← change count
  let t2count ← setItem counts.t2count index (changed ^^^ place)
  let old ← item counts.t2hash index
  let t2hash ← setItem counts.t2hash index (old ^^^ hash)
  pure { t2count, t2hash }

/-- A hash enters at one of its positions. -/
def enter (debug : Bool) (counts : Counts) (hash : UInt64) (place : UInt8) (index : Nat) :
    Build Counts :=
  counts.update (addU8 debug · 4) hash place index

/-- A hash leaves one of its positions. -/
def leave (debug : Bool) (counts : Counts) (hash : UInt64) (place : UInt8) (index : Nat) :
    Build Counts :=
  counts.update (subU8 debug · 4) hash place index

/-- The hash that was entered last was there before. -/
def duplicate (counts : Counts) : Nat × Nat × Nat → Build Bool
  | (index1, index2, index3) => do
      let hash1 ← item counts.t2hash index1
      let hash2 ← item counts.t2hash index2
      let hash3 ← item counts.t2hash index3
      let count1 ← item counts.t2count index1
      let count2 ← item counts.t2count index2
      let count3 ← item counts.t2count index3
      pure (hash1 &&& hash2 &&& hash3 == 0 &&
        (hash1 == 0 && count1 == 8 || hash2 == 0 && count2 == 8 || hash3 == 0 && count3 == 8))

/-- One of the counters is below four. -/
def tooSmall (counts : Counts) : Nat × Nat × Nat → Build Bool
  | (index1, index2, index3) => do
      let count1 ← item counts.t2count index1
      let count2 ← item counts.t2count index2
      let count3 ← item counts.t2count index3
      pure (count1 < 4 || count2 < 4 || count3 < 4)

end Counts

/-- The variables of the counting loop. -/
structure Counting where
  counts : Counts
  duplicates : Nat
  error : Bool

/-- The body of the counting loop. -/
def countHash (debug : Bool) (geometry : Geometry) (hash : UInt64) (counting : Counting) :
    Build Counting := do
  let (index1, index2, index3) := geometry.positions hash
  let counts ← counting.counts.enter debug hash 0 index1
  let counts ← counts.enter debug hash 1 index2
  let counts ← counts.enter debug hash 2 index3
  if ← counts.duplicate (index1, index2, index3) then
    let counts ← counts.leave debug hash 0 index1
    let counts ← counts.leave debug hash 1 index2
    let counts ← counts.leave debug hash 2 index3
    let error ← counts.tooSmall (index1, index2, index3)
    pure { counts, duplicates := counting.duplicates + 1, error }
  else
    let error ← counts.tooSmall (index1, index2, index3)
    pure { counts, duplicates := counting.duplicates, error }

/-- The counting loop. -/
def countHashes (debug : Bool) (geometry : Geometry) : List UInt64 → Counting → Build Counting
  | [], counting => pure counting
  | hash :: hashes, counting => do
      let counted ← countHash debug geometry hash counting
      countHashes debug geometry hashes counted

/-! ## Taking hashes off -/

/-- Queue the positions with one hash, from a position on. -/
def enqueue : Nat → List UInt8 → List UInt32 → Nat → Build (List UInt32 × Nat)
  | _, [], alone, qsize => pure (alone, qsize)
  | i, count :: counts, alone, qsize => do
      let alone ← setItem alone qsize (UInt32.ofNat i)
      enqueue (i + 1) counts alone (if count >>> 2 = 1 then qsize + 1 else qsize)

/-- The variables of the peeling loop. -/
structure Peeling where
  counts : Counts
  alone : List UInt32
  qsize : Nat
  reverseH : List UInt8
  reverseOrder : List UInt64
  stackSize : Nat

/-- A hash that was taken off leaves another of its positions, which is queued
when one hash remains there. -/
def leaveOther (debug : Bool) (hash : UInt64) (place : UInt8) (index : Nat) (peeling : Peeling) :
    Build Peeling := do
  let alone ← setItem peeling.alone peeling.qsize (UInt32.ofNat index)
  let count ← item peeling.counts.t2count index
  let counts ← peeling.counts.leave debug hash place index
  pure { peeling with
    alone, counts, qsize := if count >>> 2 = 2 then peeling.qsize + 1 else peeling.qsize }

/-- The body of the peeling loop. -/
def peelNext (debug : Bool) (geometry : Geometry) (peeling : Peeling) : Build Peeling := do
  let qsize := peeling.qsize - 1
  let index ← item peeling.alone qsize
  let count ← item peeling.counts.t2count index.toNat
  if count >>> 2 = 1 then
    let hash ← item peeling.counts.t2hash index.toNat
    let found := count &&& 3
    let reverseH ← setItem peeling.reverseH peeling.stackSize found
    let reverseOrder ← setItem peeling.reverseOrder peeling.stackSize hash
    let otherIndex1 ← item (geometry.h012 hash) (found.toNat + 1)
    let otherIndex2 ← item (geometry.h012 hash) (found.toNat + 2)
    let taken := { peeling with
      qsize, reverseH, reverseOrder, stackSize := peeling.stackSize + 1 }
    let left ← leaveOther debug hash (mod3 (found + 1)) otherIndex1 taken
    leaveOther debug hash (mod3 (found + 2)) otherIndex2 left
  else pure { peeling with qsize }

/-- The peeling loop. -/
def peel (debug : Bool) (geometry : Geometry) : Nat → Peeling → Build Peeling
  | 0, peeling => if peeling.qsize = 0 then pure peeling else fail .endless
  | steps + 1, peeling =>
      if peeling.qsize = 0 then pure peeling
      else do
        let next ← peelNext debug geometry peeling
        peel debug geometry steps next

/-! ## Attempts -/

/-- What is kept from one attempt to the next. -/
structure Search where
  rng : UInt64
  seed : UInt64
  counts : Counts
  alone : List UInt32
  reverseH : List UInt8
  reverseOrder : List UInt64

namespace Search

/-- The start for a number of keys and of positions. -/
def start (size capacity : Nat) : Search where
  rng := (splitmix64 1).1
  seed := (splitmix64 1).2
  counts := ⟨List.replicate capacity 0, List.replicate capacity 0⟩
  alone := List.replicate capacity 0
  reverseH := List.replicate size 0
  reverseOrder := List.replicate size 0 ++ [1]

/-- The arrays of a failed attempt are cleared, and the next seed is taken. -/
def reset (search : Search) (size capacity : Nat) : Search where
  rng := (splitmix64 search.rng).1
  seed := (splitmix64 search.rng).2
  counts := ⟨List.replicate capacity 0, List.replicate capacity 0⟩
  alone := search.alone
  reverseH := search.reverseH
  reverseOrder := List.replicate size 0 ++ search.reverseOrder.drop size

end Search

/-- One attempt: the number of hashes that were taken off, when it was the last
attempt. -/
def attempt (debug : Bool) (geometry : Geometry) (keys : List UInt64) (search : Search) :
    Build (Search × Option Nat) := do
  let size := keys.length
  let capacity := geometry.arrayLen.toNat
  let blockBits := blockBits geometry.segmentCount 31 1
  let reverseOrder ← placeHashes search.seed blockBits keys (startPositions blockBits size)
    search.reverseOrder
  let counted ← countHashes debug geometry (reverseOrder.take size) ⟨search.counts, 0, false⟩
  if counted.error then
    -- `continue`: nothing is cleared, and the seed stays
    pure ({ search with reverseOrder, counts := counted.counts }, none)
  else
    let (alone, qsize) ← enqueue 0 counted.counts.t2count search.alone 0
    -- every step takes an entry off the queue, and only one that takes off a hash adds two
    let peeled ← peel debug geometry (capacity + 2 * size)
      ⟨counted.counts, alone, qsize, search.reverseH, reverseOrder, 0⟩
    let after := { search with
      counts := peeled.counts
      alone := peeled.alone
      reverseH := peeled.reverseH
      reverseOrder := peeled.reverseOrder }
    if peeled.stackSize + counted.duplicates = size then pure (after, some peeled.stackSize)
    else pure (after.reset size capacity, none)

/-- `MAX_ITER` -/
def maxIter : Nat := 1000

/-- At most so many attempts. -/
def attempts (debug : Bool) (geometry : Geometry) (keys : List UInt64) :
    Nat → Search → Build (Search × Nat)
  | 0, _ => fail (.failed "Failed to construct binary fuse filter.")
  | more + 1, search => do
      let (search, done) ← attempt debug geometry keys search
      match done with
      | some ultimateSize => pure (search, ultimateSize)
      | none => attempts debug geometry keys more search

/-! ## The fingerprints -/

/-- Set the fingerprints of the hashes that were taken off, the last one first. -/
def assignFingerprints (geometry : Geometry) (search : Search) :
    Nat → List UInt16 → Build (List UInt16)
  | 0, fingerprints => pure fingerprints
  | i + 1, fingerprints => do
      let hash ← item search.reverseOrder i
      let xor2 := (hash ^^^ (hash >>> 32)).toUInt16
      let found ← item search.reverseH i
      let index ← item (geometry.h012 hash) found.toNat
      let next ← item (geometry.h012 hash) (found.toNat + 1)
      let last ← item (geometry.h012 hash) (found.toNat + 2)
      let f1 ← item fingerprints next
      let f2 ← item fingerprints last
      let fingerprints ← setItem fingerprints index (xor2 ^^^ f1 ^^^ f2)
      assignFingerprints geometry search i fingerprints

/-! ## The sizes of what is built -/

theorem mulU32_ok {debug : Bool} {a b c : UInt32} (ok : mulU32 debug a b = .ok c) : a * b = c := by
  unfold mulU32 at ok
  split at ok
  · cases ok
  · exact Except.ok.inj ok

/-- A quotient without a rest. -/
theorem divCeil_toNat {a b : UInt32} {quotient : Nat} (positive : 0 < b.toNat)
    (product : a.toNat = quotient * b.toNat) : (divCeil a b).toNat = quotient := by
  have noRest : ¬ 0 < a % b := by
    rw [UInt32.lt_iff_toNat_lt, UInt32.toNat_mod, product, Nat.mul_mod_left]
    exact Nat.lt_irrefl 0
  rw [divCeil, if_neg noRest, UInt32.toNat_div, product, Nat.mul_div_cancel _ positive]

/-- The segment length is a power of two, at most 2^18. -/
theorem segmentLength_toNat (exponent : UInt32) :
    ∃ bits ≤ 18, (min (1 <<< exponent) 262144 : UInt32).toNat = 1 <<< bits := by
  have less : exponent.toNat % 32 < 32 := Nat.mod_lt _ (by decide)
  generalize k : exponent.toNat % 32 = bits at less
  have power : (1 <<< exponent : UInt32).toNat = 1 <<< bits := by
    have fits : 1 <<< bits < 4294967296 := by
      rw [Nat.one_shiftLeft]
      exact Nat.pow_lt_pow_right Nat.one_lt_two less
    rw [UInt32.toNat_shiftLeft, k]
    exact Nat.mod_eq_of_lt fits
  rw [UInt32.toNat_min, power]
  rcases Nat.le_total bits 18 with few | many
  · refine ⟨bits, few, Nat.min_eq_left ?_⟩
    rw [Nat.one_shiftLeft]
    exact Nat.pow_le_pow_right Nat.two_pos few
  · refine ⟨18, Nat.le_refl _, Nat.min_eq_right ?_⟩
    rw [Nat.one_shiftLeft]
    exact Nat.pow_le_pow_right Nat.two_pos many

/-- An array that is cut into segments, at least three, whose length is a power of
two. -/
structure Segmented (segmentLength segmentLengthMask segmentCountLength : UInt32)
    (arrayLen bits segmentCount : Nat) : Prop where
  segmentLength : segmentLength.toNat = 1 <<< bits
  mask : segmentLengthMask.toNat = (1 <<< bits) - 1
  positive : 0 < segmentCount
  segmentCountLength : segmentCountLength.toNat = segmentCount * (1 <<< bits)
  length : arrayLen = (segmentCount + 2) * (1 <<< bits)
  small : arrayLen < UInt32.size

/-- The number of segments, once the first array length is known. -/
theorem segmentCount_toNat {arrayLen segmentLength : UInt32} {bits : Nat} (few : bits ≤ 18)
    (length : segmentLength.toNat = 1 <<< bits) {init : UInt32}
    (product : init * segmentLength = arrayLen) :
    let proposed := divCeil arrayLen segmentLength
    let segmentCount := if proposed < 3 then 1 else proposed - (3 - 1)
    0 < segmentCount.toNat ∧ (segmentCount.toNat + 2) * segmentLength.toNat < UInt32.size ∧
      (segmentCount + 3 - 1).toNat = segmentCount.toNat + 2 := by
  intro proposed segmentCount
  have power : 0 < 1 <<< bits := Nat.shiftLeft_pos_iff.mpr Nat.one_pos
  -- The segment length divides 2^32, so a product that wraps is still a multiple of it.
  obtain ⟨quotient, multiple⟩ : ∃ quotient, arrayLen.toNat = quotient * segmentLength.toNat := by
    refine ⟨init.toNat % 2 ^ (32 - bits), ?_⟩
    rw [← product, UInt32.toNat_mul, length, Nat.one_shiftLeft, ← Nat.mul_mod_mul_right,
      ← Nat.pow_add, Nat.sub_add_cancel (Nat.le_trans few (by decide))]
  have isQuotient : proposed.toNat = quotient := divCeil_toNat (length ▸ power) multiple
  by_cases less : proposed < 3
  · have one : segmentCount = 1 := if_pos less
    have bound : 1 <<< bits ≤ 1 <<< 18 := by
      rw [Nat.one_shiftLeft, Nat.one_shiftLeft]
      exact Nat.pow_le_pow_right (by decide) few
    rw [one, length]
    refine ⟨by decide, ?_, by decide⟩
    exact Nat.lt_of_le_of_lt (Nat.mul_le_mul_left 3 bound) (by decide)
  · have count : segmentCount = proposed - 2 := if_neg less
    have least : (2 : UInt32) ≤ proposed := by
      rw [UInt32.lt_iff_toNat_lt] at less
      rw [UInt32.le_iff_toNat_le]
      exact Nat.le_of_lt (Nat.le_of_not_lt less)
    have three : 3 ≤ proposed.toNat := Nat.le_of_not_lt (UInt32.lt_iff_toNat_lt.not.mp less)
    have whole : segmentCount + 3 - 1 = proposed := by
      rw [count, show (3 : UInt32) = 2 + 1 from rfl, ← UInt32.add_assoc, UInt32.sub_add_cancel,
        UInt32.add_sub_cancel]
    have back : segmentCount.toNat + 2 = proposed.toNat := by
      rw [count, UInt32.toNat_sub_of_le _ _ least]
      exact Nat.sub_add_cancel (Nat.le_of_lt three)
    refine ⟨by omega, ?_, by rw [whole, back]⟩
    rw [back, isQuotient, ← multiple]
    exact arrayLen.toNat_lt

theorem Geometry.compute_ok {debug : Bool} {sizing : Sizing} {size : Nat} {geometry : Geometry}
    (ok : Geometry.compute debug sizing size = .ok geometry) :
    ∃ bits segmentCount, Segmented geometry.segmentLength geometry.segmentLengthMask
      geometry.segmentCountLength geometry.arrayLen.toNat bits segmentCount := by
  obtain ⟨first, product, ok⟩ := bind_eq_ok ok
  obtain ⟨arrayLen, whole, ok⟩ := bind_eq_ok ok
  obtain ⟨countLength, part, here⟩ := bind_eq_ok ok
  cases here
  obtain ⟨bits, few, length⟩ := segmentLength_toNat sizing.exponent
  obtain ⟨positive, fits, count⟩ := segmentCount_toNat few length (mulU32_ok product)
  have power : 0 < 1 <<< bits := Nat.shiftLeft_pos_iff.mpr Nat.one_pos
  have arrayLength := congrArg UInt32.toNat (mulU32_ok whole)
  rw [UInt32.toNat_mul, count, Nat.mod_eq_of_lt fits] at arrayLength
  have countsLength := congrArg UInt32.toNat (mulU32_ok part)
  rw [UInt32.toNat_mul, Nat.mod_eq_of_lt
    (Nat.lt_of_le_of_lt (Nat.mul_le_mul_right _ (Nat.le_add_right _ 2)) fits)] at countsLength
  refine ⟨bits, _, length, ?_, positive, ?_, ?_, arrayLen.toNat_lt⟩
  · rw [UInt32.toNat_sub_of_le, length]
    · rfl
    · rw [UInt32.le_iff_toNat_le, length]
      exact power
  · rw [← countsLength, length]
  · rw [← arrayLength, length]

/-- Flipping low bits of a number stays within its block. -/
theorem xor_lt_of_lt {a low blocks bits : Nat} (inside : a < blocks * (1 <<< bits))
    (small : low < 1 <<< bits) : a ^^^ low < blocks * (1 <<< bits) := by
  rw [Nat.one_shiftLeft] at inside small ⊢
  have positive : 0 < 2 ^ bits := Nat.two_pow_pos bits
  rw [← Nat.div_lt_iff_lt_mul positive] at inside ⊢
  rw [Nat.xor_div_two_pow, Nat.div_eq_of_lt small, Nat.xor_zero]
  exact inside

namespace Segmented

variable {segmentLength segmentLengthMask segmentCountLength : UInt32}
  {arrayLen bits segmentCount : Nat}

/-- The masked bits are fewer than a segment. -/
theorem masked_lt (segmented : Segmented segmentLength segmentLengthMask segmentCountLength
    arrayLen bits segmentCount) (x : UInt32) :
    (x &&& segmentLengthMask).toNat < 1 <<< bits := by
  have power : 0 < 1 <<< bits := Nat.shiftLeft_pos_iff.mpr Nat.one_pos
  rw [UInt32.toNat_and, segmented.mask]
  exact Nat.lt_of_le_of_lt Nat.and_le_right (Nat.sub_lt power Nat.one_pos)

/-- The first position lies before the last two segments. -/
theorem first_lt (segmented : Segmented segmentLength segmentLengthMask segmentCountLength
    arrayLen bits segmentCount) (hash : UInt64) :
    (hash.toNat * segmentCountLength.toNat) >>> 64 < segmentCount * (1 <<< bits) := by
  have nonempty : 0 < 1 <<< bits := Nat.shiftLeft_pos_iff.mpr Nat.one_pos
  rw [← segmented.segmentCountLength, Nat.shiftRight_eq_div_pow]
  apply Nat.div_lt_of_lt_mul
  apply Nat.mul_lt_mul_of_pos_right hash.toNat_lt
  rw [segmented.segmentCountLength]
  exact Nat.mul_pos segmented.positive nonempty

/-- The positions before their low bits are flipped: the additions do not
overflow. -/
theorem starts_toNat (segmented : Segmented segmentLength segmentLengthMask segmentCountLength
    arrayLen bits segmentCount) {hi : Nat} (before : hi < segmentCount * (1 <<< bits)) :
    (UInt64.ofNat hi).toUInt32.toNat = hi ∧
      ((UInt64.ofNat hi).toUInt32 + segmentLength).toNat = hi + 1 <<< bits ∧
      ((UInt64.ofNat hi).toUInt32 + segmentLength + segmentLength).toNat =
        hi + 1 <<< bits + 1 <<< bits := by
  have length := segmented.segmentLength
  have whole := segmented.length
  have small := segmented.small
  generalize 1 <<< bits = segment at before length whole ⊢
  have size : UInt32.size = 4294967296 := rfl
  rw [Nat.add_mul] at whole
  have h0 : (UInt64.ofNat hi).toUInt32.toNat = hi := by
    rw [UInt64.toNat_toUInt32, UInt64.toNat_ofNat_of_lt' (by rw [UInt64.size]; omega)]
    exact Nat.mod_eq_of_lt (by omega)
  have h1 : ((UInt64.ofNat hi).toUInt32 + segmentLength).toNat = hi + segment := by
    rw [UInt32.toNat_add, h0, length]
    exact Nat.mod_eq_of_lt (by omega)
  refine ⟨h0, h1, ?_⟩
  rw [UInt32.toNat_add, h1, length]
  exact Nat.mod_eq_of_lt (by omega)

/-- **The positions of a hash**, one in each of three consecutive segments. -/
theorem positions_lt (segmented : Segmented segmentLength segmentLengthMask segmentCountLength
    arrayLen bits segmentCount) (hash : UInt64) :
    (hashOfHash hash segmentLength segmentLengthMask segmentCountLength).1.toNat < arrayLen ∧
      (hashOfHash hash segmentLength segmentLengthMask segmentCountLength).2.1.toNat < arrayLen ∧
      (hashOfHash hash segmentLength segmentLengthMask segmentCountLength).2.2.toNat <
        arrayLen := by
  have before := segmented.first_lt hash
  obtain ⟨h0, h1, h2⟩ := segmented.starts_toNat before
  have masked := segmented.masked_lt
  have second : (segmentCount + 1) * (1 <<< bits) ≤ arrayLen := by
    rw [segmented.length]
    exact Nat.mul_le_mul_right _ (Nat.le_succ _)
  refine ⟨?_, ?_, ?_⟩
  · change (UInt64.ofNat _).toUInt32.toNat < _
    rw [h0, segmented.length]
    exact Nat.lt_of_lt_of_le before (Nat.mul_le_mul_right _ (Nat.le_add_right _ 2))
  · change ((UInt64.ofNat _).toUInt32 + segmentLength ^^^ _).toNat < _
    rw [UInt32.toNat_xor, h1]
    refine Nat.lt_of_lt_of_le (xor_lt_of_lt ?_ (masked _)) second
    rw [Nat.succ_mul]
    exact Nat.add_lt_add_right before _
  · change ((UInt64.ofNat _).toUInt32 + segmentLength + segmentLength ^^^ _).toNat < _
    rw [UInt32.toNat_xor, h2, segmented.length]
    refine xor_lt_of_lt ?_ (masked _)
    rw [Nat.succ_mul, Nat.succ_mul]
    exact Nat.add_lt_add_right (Nat.add_lt_add_right before _) _

end Segmented

namespace BinaryFuse16

/-- `BinaryFuse16::try_from_iterator`. -/
def tryFromIterator (debug : Bool) (sizing : Sizing) (random : Nat → UInt16)
    (keys : List UInt64) : Build BinaryFuse16 :=
  if keys.length = 0 then pure empty
  else if debug = true ∧ ¬ keys.Nodup then .error .panic
  else do
    let geometry ← Geometry.compute debug sizing keys.length
    let fingerprints := (List.range geometry.arrayLen.toNat).map random
    let (search, ultimateSize) ← attempts debug geometry keys maxIter
      (.start keys.length geometry.arrayLen.toNat)
    let fingerprints ← assignFingerprints geometry search ultimateSize fingerprints
    pure ⟨⟨search.seed, geometry.segmentLength, geometry.segmentLengthMask,
      geometry.segmentCountLength⟩, fingerprints⟩

/-- The fingerprints of a filter are an array cut into segments. -/
def WellSized (filter : BinaryFuse16) : Prop :=
  ∃ bits segmentCount, Segmented filter.descriptor.segmentLength
    filter.descriptor.segmentLengthMask filter.descriptor.segmentCountLength
    filter.fingerprints.length bits segmentCount

theorem length_of_assignFingerprints {geometry : Geometry} {search : Search} {size : Nat}
    {fingerprints assigned : List UInt16}
    (ok : assignFingerprints geometry search size fingerprints = .ok assigned) :
    assigned.length = fingerprints.length := by
  induction size generalizing fingerprints with
  | zero =>
      cases ok
      rfl
  | succ i ih =>
      obtain ⟨hash, -, ok⟩ := bind_eq_ok ok
      obtain ⟨found, -, ok⟩ := bind_eq_ok ok
      obtain ⟨index, -, ok⟩ := bind_eq_ok ok
      obtain ⟨next, -, ok⟩ := bind_eq_ok ok
      obtain ⟨last, -, ok⟩ := bind_eq_ok ok
      obtain ⟨f1, -, ok⟩ := bind_eq_ok ok
      obtain ⟨f2, -, ok⟩ := bind_eq_ok ok
      obtain ⟨changed, set, ok⟩ := bind_eq_ok ok
      exact (ih ok).trans (length_of_setItem set)

/-- **What is built has an array cut into segments**, for any sizes that the
formulas may give. -/
theorem tryFromIterator_wellSized {debug : Bool} {sizing : Sizing} {random : Nat → UInt16}
    {keys : List UInt64} {filter : BinaryFuse16} (nonempty : keys ≠ [])
    (built : tryFromIterator debug sizing random keys = .ok filter) : filter.WellSized := by
  unfold tryFromIterator at built
  rw [if_neg (mt List.length_eq_zero_iff.mp nonempty)] at built
  split at built
  · cases built
  · obtain ⟨geometry, computed, ok⟩ := bind_eq_ok built
    obtain ⟨⟨search, ultimateSize⟩, -, ok⟩ := bind_eq_ok ok
    obtain ⟨fingerprints, assigned, here⟩ := bind_eq_ok ok
    cases here
    obtain ⟨bits, segmentCount, segmented⟩ := Geometry.compute_ok computed
    refine ⟨bits, segmentCount, ?_⟩
    dsimp only
    rw [length_of_assignFingerprints assigned, List.length_map, List.length_range]
    exact segmented

theorem fingerprintAt_returns {ε : Type} {filter : BinaryFuse16} {position : UInt32}
    (within : position.toNat < filter.fingerprints.length) :
    Returns (filter.fingerprintAt (ε := ε) position) :=
  ⟨filter.fingerprints[position.toNat], by
    rw [fingerprintAt, List.getElem?_eq_getElem within]⟩

/-- **Looking a key up returns.** -/
theorem containsU64_returns {ε : Type} {filter : BinaryFuse16} (sized : filter.WellSized)
    (key : UInt64) : Returns (filter.containsU64 (ε := ε) key) := by
  obtain ⟨bits, segmentCount, segmented⟩ := sized
  obtain ⟨first, second, third⟩ :=
    segmented.positions_lt (mix key filter.descriptor.seed)
  refine (fingerprintAt_returns first).andThen fun f0 _ => ?_
  refine (fingerprintAt_returns second).andThen fun f1 _ => ?_
  exact (fingerprintAt_returns third).andThen fun f2 _ => .pure _

example : ∃ filter, tryFromIterator true ⟨3, 12⟩ (fun _ => 0) [1, 2, 3] = .ok filter ∧
    filter.fingerprints.length = 24 ∧ filter.containsU64 (ε := String) 2 = .ok true :=
  ⟨_, rfl, rfl, rfl⟩

end BinaryFuse16

end VideoStorage.Xorf
