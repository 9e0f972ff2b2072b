import VideoStorage.Claim.Payload

/-!
# The payload for one asset

Version 1 names its asset. The id stands behind a one-byte length, the widths
behind another. The byte strings that are read are those that begin with a payload
that was written (`format_exact`).
-/

set_option autoImplicit false

namespace VideoStorage.Claim

open RustStd LittleEndian

structure ClaimPayloadV1 extends Limits where
  expUnix : UInt32
  nbfUnix : UInt32
  assetId : List Char
  deriving DecidableEq, Repr

namespace ClaimPayloadV1

/-- `ClaimPayloadV1::serialize_to_bytes`. -/
def serializeToBytes (payload : ClaimPayloadV1) : Except String Bytes :=
  let idBytes := utf8 payload.assetId
  if idBytes.length > 255 then .error "Asset ID too long"
  else
    (writeLimits payload.toLimits).map fun limits =>
      toBytes payload.expUnix ++ toBytes payload.nbfUnix ++ [UInt8.ofNat idBytes.length] ++
        idBytes ++ limits

/-- `ClaimPayloadV1::deserialize_from_bytes`. -/
def deserializeFromBytes (bytes : Bytes) : Checked ClaimError ClaimPayloadV1 := do
  failIf (bytes.length < 13) (.invalidPayload "Payload too short")
  let expUnix ← readLE bytes 0 (.invalidPayload "Failed to read exp_unix")
  let nbfUnix ← readLE bytes 4 (.invalidPayload "Failed to read nbf_unix")
  let idLen ← byteAt bytes 8
  failIf (bytes.length < 9 + idLen.toNat + 6) (.invalidPayload "Invalid payload size")
  let idBytes ← slice bytes 9 (9 + idLen.toNat)
  match fromUtf8 idBytes with
  | none => fail (.invalidPayload "Invalid UTF-8 in asset_id")
  | some assetId =>
      let limits ← readLimits bytes (9 + idLen.toNat)
      pure { toLimits := limits, expUnix, nbfUnix, assetId }

instance : Payload ClaimPayloadV1 where
  version _ := 1
  verifyAssetId payload assetId := pure (payload.assetId == assetId)
  nbfUnix := nbfUnix
  expUnix := expUnix
  limits := toLimits
  serialize := serializeToBytes
  deserialize := deserializeFromBytes

/-- What a payload was written to is read back, whatever follows. -/
theorem deserialize_append {payload : ClaimPayloadV1} {bytes : Bytes}
    (written : payload.serializeToBytes = .ok bytes) (rest : Bytes) :
    deserializeFromBytes (bytes ++ rest) = .ok payload := by
  unfold serializeToBytes at written
  dsimp only at written
  split at written
  · cases written
  · rename_i short
    obtain ⟨tail, limits, rfl⟩ := map_eq_ok written
    have tailSize := length_writeLimits limits
    have count :
        (UInt8.ofNat (utf8 payload.assetId).length).toNat = (utf8 payload.assetId).length :=
      UInt8.toNat_ofNat_of_lt' (Nat.lt_succ_of_le (Nat.le_of_not_gt short))
    generalize layout : toBytes payload.expUnix ++ toBytes payload.nbfUnix ++
      [UInt8.ofNat (utf8 payload.assetId).length] ++ utf8 payload.assetId ++ tail ++ rest = whole
    have atExp := Cursor.start whole
    nth_rewrite 2 [← layout] at atExp
    simp only [List.append_assoc] at atExp
    have atNbf : Cursor whole 4 _ := atExp.advanceLE
    have atIdLen : Cursor whole 8 _ := atNbf.advanceLE
    have atId : Cursor whole 9 _ := atIdLen.advance
    have atTail := atId.advance
    have total := atTail.length
    rw [List.length_append] at total
    rw [deserializeFromBytes, failIf_of_not (by omega), bind_ok, atExp.readLE, bind_ok,
      atNbf.readLE, bind_ok, atIdLen.byteAt, bind_ok, count, failIf_of_not (by omega), bind_ok,
      atId.slice, bind_ok, fromUtf8_utf8]
    dsimp only
    rw [readLimits_writeLimits limits atTail, bind_ok]
    rfl

/-! ## The language of the format -/

/-- What fits the two one-byte lengths is written. -/
theorem serializeToBytes_ok_iff (payload : ClaimPayloadV1) :
    (∃ bytes, payload.serializeToBytes = .ok bytes) ↔
      (utf8 payload.assetId).length ≤ 255 ∧ payload.allowedWidths.length ≤ 255 := by
  rw [← Nat.not_lt, ← Nat.not_lt]
  unfold serializeToBytes writeLimits
  dsimp only
  split
  · rename_i long
    exact iff_of_false nofun fun fits => fits.1 long
  · rename_i short
    split
    · rename_i many
      exact iff_of_false nofun fun fits => fits.2 many
    · rename_i few
      exact iff_of_true ⟨_, rfl⟩ ⟨short, few⟩

/-- **Parsing loses nothing but what follows.** A payload that was read was
written at the front. -/
theorem serializeToBytes_of_deserialize {payload : ClaimPayloadV1} {bytes : Bytes}
    (ok : deserializeFromBytes bytes = .ok payload) :
    ∃ written rest, payload.serializeToBytes = .ok written ∧ bytes = written ++ rest := by
  have atExp := Cursor.start bytes
  obtain ⟨-, -, ok⟩ := bind_eq_ok ok
  obtain ⟨expUnix, readExp, ok⟩ := bind_eq_ok ok
  obtain ⟨nbfUnix, readNbf, ok⟩ := bind_eq_ok ok
  obtain ⟨idLen, readIdLen, ok⟩ := bind_eq_ok ok
  obtain ⟨-, -, ok⟩ := bind_eq_ok ok
  obtain ⟨idBytes, readId, ok⟩ := bind_eq_ok ok
  obtain ⟨_, equal, atNbf⟩ := atExp.of_readLE readExp
  obtain ⟨_, rfl, atIdLen⟩ := atNbf.of_readLE readNbf
  obtain ⟨_, rfl, atId⟩ := atIdLen.of_byteAt readIdLen
  obtain ⟨_, rfl, atTail⟩ := atId.of_slice readId
  have idSize : idBytes.length = idLen.toNat := by
    have before := atId.length
    have behind := atTail.length
    rw [List.length_append] at before
    omega
  cases decoded : fromUtf8 idBytes with
  | none =>
      rw [decoded] at ok
      cases ok
  | some assetId =>
      rw [decoded] at ok
      obtain ⟨limits, readTail, here⟩ := bind_eq_ok ok
      cases here
      obtain ⟨tail, rest, written, rfl⟩ := writeLimits_of_readLimits atTail readTail
      have id := utf8_eq_of_fromUtf8 decoded
      have short : ¬ (utf8 assetId).length > 255 := by
        rw [id, idSize]
        exact Nat.not_lt.mpr (Nat.le_of_lt_succ idLen.toNat_lt)
      have serialized : serializeToBytes ⟨limits, expUnix, nbfUnix, assetId⟩ =
          .ok (toBytes expUnix ++ toBytes nbfUnix ++ [UInt8.ofNat (utf8 assetId).length] ++
            utf8 assetId ++ tail) := by
        unfold serializeToBytes
        dsimp only
        rw [if_neg short, written]
        rfl
      refine ⟨_, rest, serialized, ?_⟩
      rw [equal, id, idSize, UInt8.ofNat_toNat]
      simp only [List.append_assoc, List.cons_append, List.nil_append]

/-- Every read is inside the slice. -/
theorem deserializeFromBytes_ne_panic (bytes : Bytes) :
    deserializeFromBytes bytes ≠ .error .panic := by
  have four : width UInt32 = 4 := rfl
  refine bind_ne_panic (failIf_ne_panic _ _) fun _ checked => ?_
  have long := failIf_eq_ok checked
  refine bind_ne_panic (readLE_ne_panic (by omega) _) fun expUnix _ => ?_
  refine bind_ne_panic (readLE_ne_panic (by omega) _) fun nbfUnix _ => ?_
  refine bind_ne_panic (byteAt_ne_panic (by omega)) fun idLen _ => ?_
  refine bind_ne_panic (failIf_ne_panic _ _) fun _ sized => ?_
  have enough := failIf_eq_ok sized
  rw [slice_within (by omega) (by omega), bind_ok]
  split
  · exact nofun
  · exact bind_ne_panic (readLimits_ne_panic (by omega)) fun limits _ => nofun

/-- What is written and what is read. -/
structure ExactFormat : Prop where
  writes : ∀ payload : ClaimPayloadV1, (∃ bytes, payload.serializeToBytes = .ok bytes) ↔
    (utf8 payload.assetId).length ≤ 255 ∧ payload.allowedWidths.length ≤ 255
  readsBack : ∀ (payload : ClaimPayloadV1) bytes, payload.serializeToBytes = .ok bytes →
    deserializeFromBytes bytes = .ok payload
  inBounds : ∀ bytes, deserializeFromBytes bytes ≠ .error .panic
  reads : ∀ bytes payload, deserializeFromBytes bytes = .ok payload ↔
    ∃ written rest, payload.serializeToBytes = .ok written ∧ bytes = written ++ rest
  rejects : ∀ bytes, (¬ ∃ (payload : ClaimPayloadV1) (written rest : Bytes),
      payload.serializeToBytes = .ok written ∧ bytes = written ++ rest) →
    ∃ error, deserializeFromBytes bytes = .error (.err error)

/-- **The language of the format**: what payloads are written to, with anything
behind it. -/
theorem format_exact : ExactFormat := by
  have reads : ∀ bytes payload, deserializeFromBytes bytes = .ok payload ↔
      ∃ written rest, payload.serializeToBytes = .ok written ∧ bytes = written ++ rest := by
    intro bytes payload
    constructor
    · exact serializeToBytes_of_deserialize
    · rintro ⟨written, rest, ok, rfl⟩
      exact deserialize_append ok rest
  refine ⟨serializeToBytes_ok_iff, ?_, deserializeFromBytes_ne_panic, reads, ?_⟩
  · intro payload bytes written
    exact (reads bytes payload).mpr ⟨bytes, [], written, (List.append_nil bytes).symm⟩
  · intro bytes foreign
    cases result : deserializeFromBytes bytes with
    | ok payload => exact absurd ⟨payload, (reads bytes payload).mp result⟩ foreign
    | error failure =>
        cases failure with
        | panic => exact absurd result (deserializeFromBytes_ne_panic bytes)
        | err error => exact ⟨error, rfl⟩

end ClaimPayloadV1

end VideoStorage.Claim
