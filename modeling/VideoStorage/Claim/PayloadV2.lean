import VideoStorage.Claim.Payload
import VideoStorage.Xorf.BinaryFuse16
import VideoStorage.Xorf.XxHash3

/-!
# The payload for a set of assets

Version 2 holds a filter of asset ids. The filter stands in the middle of the
layout, and every field behind it is found from the 16-bit count it starts
with. The count is the number of fingerprints modulo 2^16.

A payload is read back exactly when its filter has fewer than 65536
fingerprints (`deserialize_serialize_iff`). From 65536 on the encoder still
succeeds: the decoder takes the first fingerprints that do not fit the count for
the limits, and the payload loses its own.
-/

set_option autoImplicit false

namespace VideoStorage.Claim

open RustStd LittleEndian Xorf

structure ClaimPayloadV2 extends Limits where
  expUnix : UInt32
  nbfUnix : UInt32
  assetsFilter : BinaryFuse16
  deriving DecidableEq, Repr

namespace ClaimPayloadV2

/-- `ClaimPayloadV2::serialize_to_bytes`. -/
def serializeToBytes (payload : ClaimPayloadV2) : Except String Bytes :=
  (writeLimits payload.toLimits).map fun limits =>
    toBytes payload.expUnix ++ toBytes payload.nbfUnix ++ payload.assetsFilter.serialize ++ limits

/-- `ClaimPayloadV2::deserialize_from_bytes`. -/
def deserializeFromBytes (bytes : Bytes) : Checked ClaimError ClaimPayloadV2 := do
  failIf (bytes.length < 10) (.invalidPayload "Payload too short")
  let expUnix ← readLE bytes 0 (.invalidPayload "Failed to read exp_unix")
  let nbfUnix ← readLE bytes 4 (.invalidPayload "Failed to read nbf_unix")
  failIf (bytes.length < 8 + 2) (.invalidPayload "Missing filter length")
  let filterLen ← peekU16 bytes 8
  let filterTotalLen := 2 + Descriptor.LEN + filterLen.toNat * 2
  failIf (bytes.length < 8 + filterTotalLen) (.invalidPayload "Invalid filter size")
  let filterBytes ← slice bytes 8 (8 + filterTotalLen)
  let assetsFilter ← mapErr
    (fun text => ClaimError.invalidPayload ("Failed to deserialize filter: " ++ text))
    (BinaryFuse16.deserialize filterBytes)
  failIf (bytes.length < 8 + filterTotalLen + 6)
    (.invalidPayload "Invalid payload size for remaining fields")
  let limits ← readLimits bytes (8 + filterTotalLen)
  pure { toLimits := limits, expUnix, nbfUnix, assetsFilter }

/-- `assets_filter.contains(&asset_id)`: the key of a string is its hash. -/
def verifyAssetId (payload : ClaimPayloadV2) (assetId : List Char) : Checked ClaimError Bool := do
  let key ← TwoxHash.oneshot (utf8 assetId)
  payload.assetsFilter.containsU64 key

instance : Payload ClaimPayloadV2 where
  version _ := 2
  verifyAssetId := verifyAssetId
  nbfUnix := nbfUnix
  expUnix := expUnix
  limits := toLimits
  serialize := serializeToBytes
  deserialize := deserializeFromBytes

/-! ## The round trip -/

/-- What a payload with a filter that fits was written to is read back, whatever
follows. -/
theorem deserialize_append {payload : ClaimPayloadV2} {bytes : Bytes}
    (written : payload.serializeToBytes = .ok bytes)
    (small : payload.assetsFilter.fingerprints.length < 65536) (rest : Bytes) :
    deserializeFromBytes (bytes ++ rest) = .ok payload := by
  obtain ⟨tail, limits, rfl⟩ := map_eq_ok written
  have filterSize := BinaryFuse16.length_serialize payload.assetsFilter
  have tailSize := length_writeLimits limits
  have count := BinaryFuse16.count_toNat small
  generalize layout : toBytes payload.expUnix ++ toBytes payload.nbfUnix ++
    payload.assetsFilter.serialize ++ tail ++ rest = whole
  have atExp := Cursor.start whole
  nth_rewrite 2 [← layout] at atExp
  simp only [List.append_assoc] at atExp
  have atNbf : Cursor whole 4 _ := atExp.advanceLE
  have atFilter : Cursor whole 8 _ := atNbf.advanceLE
  have atCount := atFilter
  rw [BinaryFuse16.serialize_eq_count_append, List.append_assoc] at atCount
  have atTail := atFilter.advance
  rw [filterSize] at atTail
  have total := atTail.length
  rw [List.length_append] at total
  have filterBytes := atFilter.slice (ε := ClaimError)
  rw [filterSize] at filterBytes
  have filterLen : 2 + Descriptor.LEN + payload.assetsFilter.fingerprints.length * 2 =
      22 + payload.assetsFilter.fingerprints.length * 2 := rfl
  rw [deserializeFromBytes, failIf_of_not (by omega), bind_ok, atExp.readLE, bind_ok, atNbf.readLE,
    bind_ok, failIf_of_not (by omega), bind_ok, atCount.peekU16, bind_ok]
  dsimp only
  rw [count, filterLen, failIf_of_not (by omega), bind_ok, filterBytes, bind_ok,
    BinaryFuse16.deserialize_serialize small, mapErr_ok, bind_ok, failIf_of_not (by omega),
    bind_ok, readLimits_writeLimits limits atTail, bind_ok]
  rfl

/-- A payload that is read holds fewer than 65536 fingerprints. -/
theorem fingerprints_lt_of_deserialize {bytes : Bytes} {payload : ClaimPayloadV2}
    (ok : deserializeFromBytes bytes = .ok payload) :
    payload.assetsFilter.fingerprints.length < 65536 := by
  obtain ⟨-, -, ok⟩ := bind_eq_ok ok
  obtain ⟨expUnix, -, ok⟩ := bind_eq_ok ok
  obtain ⟨nbfUnix, -, ok⟩ := bind_eq_ok ok
  obtain ⟨-, -, ok⟩ := bind_eq_ok ok
  obtain ⟨filterLen, -, ok⟩ := bind_eq_ok ok
  obtain ⟨-, -, ok⟩ := bind_eq_ok ok
  obtain ⟨filterBytes, -, ok⟩ := bind_eq_ok ok
  obtain ⟨assetsFilter, read, ok⟩ := bind_eq_ok ok
  obtain ⟨-, -, ok⟩ := bind_eq_ok ok
  obtain ⟨limits, -, here⟩ := bind_eq_ok ok
  cases here
  exact BinaryFuse16.fingerprints_lt_of_deserialize (mapErr_eq_ok read)

/-- **Round trip.** What a payload is written to is read back as the same
payload exactly when its filter has fewer than 65536 fingerprints. -/
theorem deserialize_serialize_iff {payload : ClaimPayloadV2} {bytes : Bytes}
    (written : payload.serializeToBytes = .ok bytes) :
    deserializeFromBytes bytes = .ok payload ↔
      payload.assetsFilter.fingerprints.length < 65536 := by
  constructor
  · exact fingerprints_lt_of_deserialize
  · intro small
    have read := deserialize_append written small []
    rwa [List.append_nil] at read

theorem deserialize_serialize_iff_small :
    ∃ bytes, serializeToBytes ⟨⟨60, 4000, 1, [720]⟩, 9, 7, ⟨⟨1, 4, 3, 4⟩, [5, 6, 7]⟩⟩ = .ok bytes ∧
      (deserializeFromBytes bytes = .ok ⟨⟨60, 4000, 1, [720]⟩, 9, 7, ⟨⟨1, 4, 3, 4⟩, [5, 6, 7]⟩⟩ ↔
        [5, 6, 7].length < 65536) :=
  ⟨_, rfl, deserialize_serialize_iff rfl⟩

/-! ## A count that wraps around -/

/-- The descriptor of a filter with 65536 fingerprints, the size for 53246 to
55006 assets. -/
def wideDescriptor : Descriptor := ⟨10451216379200822465, 2048, 2047, 61440⟩

/-- A payload with a minute of window, 4000 kbps, one connection and one
width. -/
def widePayload (fingerprints : List UInt16) : ClaimPayloadV2 :=
  ⟨⟨60, 4000, 1, [720]⟩, 2000000000, 1700000000, ⟨wideDescriptor, fingerprints⟩⟩

/-- The same payload without a limit and with no fingerprints. -/
def openPayload : ClaimPayloadV2 :=
  ⟨⟨0, 0, 0, []⟩, 2000000000, 1700000000, ⟨wideDescriptor, []⟩⟩

/-- With 65536 fingerprints the count is zero, and the first four of them are
read as the limits. -/
theorem deserialize_widePayload {more : List UInt16} (size : more.length = 65532) :
    ∃ bytes, (widePayload (0 :: 0 :: 0 :: 0 :: more)).serializeToBytes = .ok bytes ∧
      deserializeFromBytes bytes = .ok openPayload := by
  have count : UInt16.ofNat (0 :: 0 :: 0 :: 0 :: more).length = 0 := by
    simp only [List.length_cons, size]
    rfl
  have zeros : leBytes (0 :: 0 :: 0 :: 0 :: more) = [0, 0, 0, 0, 0, 0, 0] ++ 0 :: leBytes more := rfl
  obtain ⟨tail, limits⟩ : ∃ tail, writeLimits ⟨60, 4000, 1, [720]⟩ = .ok tail := ⟨_, rfl⟩
  have written : (widePayload (0 :: 0 :: 0 :: 0 :: more)).serializeToBytes = .ok _ :=
    congrArg (Except.map _) limits
  have read := @deserialize_append openPayload _ rfl (Nat.zero_lt_succ _)
    (0 :: leBytes more ++ tail)
  refine ⟨_, written, ?_⟩
  rw [← read]
  simp only [widePayload, BinaryFuse16.serialize, count, zeros, List.append_assoc]
  rfl

/-- The limits of a claim for 65536 fingerprints are not those it was created
with; with the first four zero, all of them are gone. -/
theorem wide_filter_loses_limits :
    (∀ fingerprints, fingerprints.length = 65536 →
      ∃ bytes, (widePayload fingerprints).serializeToBytes = .ok bytes ∧
        deserializeFromBytes bytes ≠ .ok (widePayload fingerprints)) ∧
    ∃ bytes, (widePayload (0 :: 0 :: 0 :: 0 :: List.replicate 65532 0)).serializeToBytes =
        .ok bytes ∧ deserializeFromBytes bytes = .ok openPayload := by
  refine ⟨fun fingerprints size => ⟨_, rfl, fun same => ?_⟩,
    deserialize_widePayload List.length_replicate⟩
  have few := fingerprints_lt_of_deserialize same
  rw [widePayload, size] at few
  exact absurd few (by decide)

end ClaimPayloadV2

end VideoStorage.Claim
