import VideoStorage.Library.Bytes

/-!
# The asset filter

A `BinaryFuse16` filter is a descriptor and an array of 16-bit fingerprints. A
key is in the filter when the three fingerprints at the positions derived from
its hash cancel its own. The look-ups are checked: a position outside the array
panics.

On the wire the fingerprints stand behind a 16-bit count. The encoder takes the
count modulo 2^16, so a filter is read back when it has fewer than 65536
fingerprints (`deserialize_serialize`), and nothing longer is ever read
(`fingerprints_lt_of_deserialize`).
-/

set_option autoImplicit false

namespace VideoStorage.Xorf

open RustStd LittleEndian

/-! ## Hashing -/

/-- `mix64`. -/
def mix64 (k : UInt64) : UInt64 :=
  let k := k ^^^ (k >>> 33)
  let k := k * 0xff51afd7ed558ccd
  let k := k ^^^ (k >>> 33)
  let k := k * 0xc4ceb9fe1a85ec53
  k ^^^ (k >>> 33)

/-- `mix`. -/
def mix (key seed : UInt64) : UInt64 := mix64 (key + seed)

/-- `hash_of_hash`: the three positions of a hash. -/
def hashOfHash (hash : UInt64) (segmentLength segmentLengthMask segmentCountLength : UInt32) :
    UInt32 × UInt32 × UInt32 :=
  let hi := UInt64.ofNat ((hash.toNat * segmentCountLength.toNat) >>> 64)
  let h0 := hi.toUInt32
  let h1 := h0 + segmentLength
  let h2 := h1 + segmentLength
  (h0, h1 ^^^ ((hash >>> 18).toUInt32 &&& segmentLengthMask),
    h2 ^^^ (hash.toUInt32 &&& segmentLengthMask))

/-! ## The filter -/

structure Descriptor where
  seed : UInt64
  segmentLength : UInt32
  segmentLengthMask : UInt32
  segmentCountLength : UInt32
  deriving DecidableEq, Repr

/-- `Descriptor::LEN`. -/
def Descriptor.LEN : Nat := 20

structure BinaryFuse16 where
  descriptor : Descriptor
  fingerprints : List UInt16
  deriving DecidableEq, Repr

namespace BinaryFuse16

variable {ε : Type}

/-- `self.fingerprints[position]`. -/
def fingerprintAt (filter : BinaryFuse16) (position : UInt32) : Checked ε UInt16 :=
  match filter.fingerprints[position.toNat]? with
  | some fingerprint => .ok fingerprint
  | none => .error .panic

/-- `contains_u64`. -/
def containsU64 (filter : BinaryFuse16) (key : UInt64) : Checked ε Bool := do
  let hash := mix key filter.descriptor.seed
  let f := (hash ^^^ (hash >>> 32)).toUInt16
  let (h0, h1, h2) := hashOfHash hash filter.descriptor.segmentLength
    filter.descriptor.segmentLengthMask filter.descriptor.segmentCountLength
  let f0 ← filter.fingerprintAt h0
  let f1 ← filter.fingerprintAt h1
  let f2 ← filter.fingerprintAt h2
  pure (f ^^^ (f0 ^^^ f1 ^^^ f2) == 0)

/-- The value `try_from_iterator` gives for no keys. -/
def empty : BinaryFuse16 := ⟨⟨0, 0, 0, 0⟩, []⟩

/-! ## The wire format -/

/-- The bytes of the descriptor. -/
def descriptorBytes (descriptor : Descriptor) : Bytes :=
  toBytes descriptor.seed ++ toBytes descriptor.segmentLength ++
    toBytes descriptor.segmentLengthMask ++ toBytes descriptor.segmentCountLength

/-- `BinaryFuse16::serialize`. The count is the length cast to 16 bits. -/
def serialize (filter : BinaryFuse16) : Bytes :=
  toBytes (UInt16.ofNat filter.fingerprints.length) ++ descriptorBytes filter.descriptor ++
    leBytes filter.fingerprints

/-- `BinaryFuse16::deserialize`. -/
def deserialize (bytes : Bytes) : Checked String BinaryFuse16 := do
  failIf (bytes.length < 22) "Input too short for BinaryFuse16"
  let len ← peekU16 bytes 0
  let expectedSize := 2 + Descriptor.LEN + len.toNat * 2
  failIf (bytes.length ≠ expectedSize) "Invalid BinaryFuse16 data length"
  let seed ← readLE bytes 2 "Failed to read seed"
  let segmentLength ← readLE bytes 10 "Failed to read segment_length"
  let segmentLengthMask ← readLE bytes 14 "Failed to read segment_length_mask"
  let segmentCountLength ← readLE bytes 18 "Failed to read segment_count_length"
  let fingerprints ← readLEs bytes "Failed to read fingerprint" len.toNat 22
  pure ⟨⟨seed, segmentLength, segmentLengthMask, segmentCountLength⟩, fingerprints⟩

theorem length_serialize (filter : BinaryFuse16) :
    filter.serialize.length = 22 + filter.fingerprints.length * 2 := by
  simp only [serialize, descriptorBytes, List.length_append, length_toBytes, length_leBytes]
  rfl

/-- The bytes of a filter start with its count. -/
theorem serialize_eq_count_append (filter : BinaryFuse16) :
    filter.serialize = toBytes (UInt16.ofNat filter.fingerprints.length) ++
      (descriptorBytes filter.descriptor ++ leBytes filter.fingerprints) :=
  List.append_assoc ..

/-- The count of a filter that fits. -/
theorem count_toNat {filter : BinaryFuse16} (small : filter.fingerprints.length < 65536) :
    (UInt16.ofNat filter.fingerprints.length).toNat = filter.fingerprints.length :=
  UInt16.toNat_ofNat_of_lt' small

/-- A filter with fewer than 65536 fingerprints is read back. -/
theorem deserialize_serialize {filter : BinaryFuse16}
    (small : filter.fingerprints.length < 65536) :
    deserialize filter.serialize = .ok filter := by
  have size := length_serialize filter
  have count := count_toNat small
  generalize bytesEq : filter.serialize = bytes at size
  have atLen := Cursor.start bytes
  nth_rewrite 2 [← bytesEq] at atLen
  simp only [serialize, descriptorBytes, List.append_assoc] at atLen
  have atSeed : Cursor bytes 2 _ := atLen.advanceLE
  have atSegmentLength : Cursor bytes 10 _ := atSeed.advanceLE
  have atMask : Cursor bytes 14 _ := atSegmentLength.advanceLE
  have atCountLength : Cursor bytes 18 _ := atMask.advanceLE
  have atFingerprints : Cursor bytes 22 _ := atCountLength.advanceLE
  rw [← List.append_nil (leBytes _)] at atFingerprints
  rw [deserialize, failIf_of_not (by omega), bind_ok, atLen.peekU16, bind_ok]
  dsimp only
  rw [failIf_of_not (by rw [count, Descriptor.LEN]; omega), bind_ok, atSeed.readLE, bind_ok,
    atSegmentLength.readLE, bind_ok, atMask.readLE, bind_ok, atCountLength.readLE, bind_ok, count,
    atFingerprints.readLEs, bind_ok]
  rfl

/-- Nothing longer is read. -/
theorem fingerprints_lt_of_deserialize {bytes : Bytes} {filter : BinaryFuse16}
    (ok : deserialize bytes = .ok filter) : filter.fingerprints.length < 65536 := by
  obtain ⟨-, -, ok⟩ := bind_eq_ok ok
  obtain ⟨len, -, ok⟩ := bind_eq_ok ok
  obtain ⟨-, -, ok⟩ := bind_eq_ok ok
  obtain ⟨seed, -, ok⟩ := bind_eq_ok ok
  obtain ⟨segmentLength, -, ok⟩ := bind_eq_ok ok
  obtain ⟨segmentLengthMask, -, ok⟩ := bind_eq_ok ok
  obtain ⟨segmentCountLength, -, ok⟩ := bind_eq_ok ok
  obtain ⟨fingerprints, read, here⟩ := bind_eq_ok ok
  cases here
  rw [length_of_readLEs read]
  exact UInt16.toNat_lt _

end BinaryFuse16

end VideoStorage.Xorf
