import VideoStorage.Claim.Payload

/-!
# The token header

A token starts with 36 bytes in the clear: magic bytes, version, key id,
algorithm, a reserved byte, the nonce and the creation time. The header that is
authenticated is not the received one but the encoding of the parsed one, so
parsing must lose nothing: a header that parses is the encoding of what was
parsed (`toBytes_of_fromBytes`), the reserved byte and the sixteen bytes of the
time included.
-/

set_option autoImplicit false

namespace VideoStorage.Claim

open RustStd LittleEndian

/-- `MAGIC`. -/
def magicBytes : FixedBytes 4 := ⟨[0x56, 0x53, 0x43, 0x31], rfl⟩

/-- `ALG_AES_256_GCM`. -/
def algAes256Gcm : UInt8 := 1

/-- `HEADER_SIZE`. -/
def headerSize : Nat := 36

/-- `TAG_SIZE`. -/
def tagSize : Nat := 16

structure ClaimHeader where
  magic : FixedBytes 4
  version : UInt8
  kid : UInt8
  alg : UInt8
  rsv : UInt8
  nonce : FixedBytes 12
  /-- Creation time in nanoseconds. -/
  createAt : BitVec 128
  deriving DecidableEq

/-- The key a token's bucket is stored under. -/
abbrev BucketKey := FixedBytes 28

namespace ClaimHeader

/-- `ClaimHeader::new`, with the nonce and the clock reading it makes. -/
def new (kid alg version : UInt8) (nonce : FixedBytes 12) (createAt : BitVec 128) : ClaimHeader :=
  { magic := magicBytes, version, kid, alg, rsv := 0, nonce, createAt }

/-- `ClaimHeader::bucket_key`. -/
def bucketKey (header : ClaimHeader) : BucketKey :=
  ⟨header.nonce.val ++ toBytes header.createAt, by
    rw [List.length_append, header.nonce.property, length_toBytes]
    rfl⟩

/-- `ClaimHeader::to_bytes`. -/
def toBytes (header : ClaimHeader) : Bytes :=
  header.magic.val ++ [header.version, header.kid, header.alg, header.rsv] ++ header.nonce.val ++
    LittleEndian.toBytes header.createAt

/-- `ClaimHeader::from_bytes`. -/
def fromBytes (bytes : Bytes) : Checked ClaimError ClaimHeader := do
  failIf (bytes.length < headerSize) (.invalidHeader "Invalid header size")
  let magic ← readArray bytes 0 4 (.invalidHeader "Failed to read magic bytes")
  failIf (magic ≠ magicBytes) (.invalidHeader "Invalid magic bytes")
  let version ← byteAt bytes 4
  failIf (version ≠ 1 ∧ version ≠ 2)
    (.invalidHeader ("Unsupported version: " ++ toString version))
  let kid ← byteAt bytes 5
  let alg ← byteAt bytes 6
  let rsv ← byteAt bytes 7
  let nonce ← readArray bytes 8 12 (.invalidHeader "Failed to read nonce")
  let createAt ← readLE bytes 20 (.invalidHeader "Failed to read create_at")
  pure { magic, version, kid, alg, rsv, nonce, createAt }

theorem length_toBytes (header : ClaimHeader) : header.toBytes.length = headerSize := by
  simp only [toBytes, List.length_append, header.magic.property, header.nonce.property,
    LittleEndian.length_toBytes]
  rfl

/-- The encoding determines the header. -/
theorem toBytes_injective {header other : ClaimHeader}
    (equal : header.toBytes = other.toBytes) : header = other := by
  have times : (LittleEndian.toBytes header.createAt).length =
      (LittleEndian.toBytes other.createAt).length := by
    rw [LittleEndian.length_toBytes, LittleEndian.length_toBytes]
  obtain ⟨equal, createAt⟩ := List.append_inj' equal times
  obtain ⟨equal, nonce⟩ := List.append_inj' equal
    (header.nonce.property.trans other.nonce.property.symm)
  obtain ⟨magic, bytes⟩ := List.append_inj' equal rfl
  have createAt' := congrArg (ofBytes (α := BitVec 128)) createAt
  rw [ofBytes_toBytes, ofBytes_toBytes] at createAt'
  cases header
  cases other
  simp_all [Subtype.ext_iff]

/-- The bucket key stands in the header behind its first eight bytes. -/
theorem bucketKey_eq_drop (header : ClaimHeader) :
    header.bucketKey.val = header.toBytes.drop 8 := by
  have front : (header.magic.val ++ [header.version, header.kid, header.alg, header.rsv]).length =
      8 := by
    rw [List.length_append, header.magic.property]
    rfl
  rw [toBytes, List.append_assoc, List.drop_left' front]
  rfl

/-- **Parsing loses nothing.** A header of 36 bytes that parses is the encoding
of what was parsed. -/
theorem toBytes_of_fromBytes {bytes : Bytes} {header : ClaimHeader}
    (size : bytes.length = headerSize) (ok : fromBytes bytes = .ok header) :
    header.toBytes = bytes ∧ (header.version = 1 ∨ header.version = 2) := by
  have atMagic := Cursor.start bytes
  obtain ⟨-, -, ok⟩ := bind_eq_ok ok
  obtain ⟨magic, readMagic, ok⟩ := bind_eq_ok ok
  obtain ⟨-, -, ok⟩ := bind_eq_ok ok
  obtain ⟨version, readVersion, ok⟩ := bind_eq_ok ok
  obtain ⟨_, supported, ok⟩ := bind_eq_ok ok
  obtain ⟨kid, readKid, ok⟩ := bind_eq_ok ok
  obtain ⟨alg, readAlg, ok⟩ := bind_eq_ok ok
  obtain ⟨rsv, readRsv, ok⟩ := bind_eq_ok ok
  obtain ⟨nonce, readNonce, ok⟩ := bind_eq_ok ok
  obtain ⟨createAt, readCreateAt, here⟩ := bind_eq_ok ok
  cases here
  obtain ⟨_, equal, atVersion⟩ := atMagic.of_readArray readMagic
  obtain ⟨_, rfl, atKid⟩ := atVersion.of_byteAt readVersion
  obtain ⟨_, rfl, atAlg⟩ := atKid.of_byteAt readKid
  obtain ⟨_, rfl, atRsv⟩ := atAlg.of_byteAt readAlg
  obtain ⟨_, rfl, atNonce⟩ := atRsv.of_byteAt readRsv
  obtain ⟨_, rfl, atCreateAt⟩ := atNonce.of_readArray readNonce
  obtain ⟨rest, rfl, atEnd⟩ := atCreateAt.of_readLE readCreateAt
  have noRest : rest = [] := List.eq_nil_of_length_eq_zero (by
    have total := atEnd.length
    rw [size] at total
    change 36 = 36 + rest.length at total
    omega)
  constructor
  · rw [equal, noRest, toBytes]
    simp
  · rcases Decidable.not_and_iff_not_or_not.mp (failIf_eq_ok supported) with one | two
    · exact .inl (Decidable.not_not.mp one)
    · exact .inr (Decidable.not_not.mp two)

/-- A header of a supported version is read back. -/
theorem fromBytes_toBytes {header : ClaimHeader} (magic : header.magic = magicBytes)
    (supported : header.version = 1 ∨ header.version = 2) :
    fromBytes header.toBytes = .ok header := by
  have size := length_toBytes header
  generalize whole : header.toBytes = bytes at size
  have atMagic := Cursor.start bytes
  nth_rewrite 2 [← whole] at atMagic
  rw [← List.append_nil header.toBytes] at atMagic
  simp only [toBytes, List.append_assoc, List.cons_append, List.nil_append] at atMagic
  have atVersion : Cursor bytes 4 _ := header.magic.property ▸ atMagic.advance
  have atKid : Cursor bytes 5 _ := @Cursor.advance _ [header.version] _ _ atVersion
  have atAlg : Cursor bytes 6 _ := @Cursor.advance _ [header.kid] _ _ atKid
  have atRsv : Cursor bytes 7 _ := @Cursor.advance _ [header.alg] _ _ atAlg
  have atNonce : Cursor bytes 8 _ := @Cursor.advance _ [header.rsv] _ _ atRsv
  have atCreateAt : Cursor bytes 20 _ := header.nonce.property ▸ atNonce.advance
  have isSupported : ¬ (header.version ≠ 1 ∧ header.version ≠ 2) := by
    rintro ⟨notOne, notTwo⟩
    exact supported.elim notOne notTwo
  rw [fromBytes, failIf_of_not (by rw [size]; decide), bind_ok, atMagic.readArray, bind_ok,
    failIf_of_not (not_not.mpr magic), bind_ok, atVersion.byteAt, bind_ok,
    failIf_of_not isSupported, bind_ok, atKid.byteAt, bind_ok, atAlg.byteAt, bind_ok,
    atRsv.byteAt, bind_ok, atNonce.readArray, bind_ok, atCreateAt.readLE, bind_ok]
  rfl

theorem fromBytes_ne_panic (bytes : Bytes) : fromBytes bytes ≠ .error .panic := by
  refine bind_ne_panic (failIf_ne_panic _ _) fun _ long => ?_
  have within : 36 ≤ bytes.length := Nat.le_of_not_lt (failIf_eq_ok long)
  refine bind_ne_panic (readArray_ne_panic (by omega) _) fun magic _ => ?_
  refine bind_ne_panic (failIf_ne_panic _ _) fun _ _ => ?_
  refine bind_ne_panic (byteAt_ne_panic (by omega)) fun version _ => ?_
  refine bind_ne_panic (failIf_ne_panic _ _) fun _ _ => ?_
  refine bind_ne_panic (byteAt_ne_panic (by omega)) fun kid _ => ?_
  refine bind_ne_panic (byteAt_ne_panic (by omega)) fun alg _ => ?_
  refine bind_ne_panic (byteAt_ne_panic (by omega)) fun rsv _ => ?_
  refine bind_ne_panic (readArray_ne_panic (by omega) _) fun nonce _ => ?_
  exact bind_ne_panic (readLE_ne_panic within _) fun createAt _ => nofun

end ClaimHeader

end VideoStorage.Claim
