import VideoStorage.Library.Bytes

/-!
# Claim payloads

Both payload versions carry a validity period, the assets they open and the same
limits: a time window, a bandwidth, a number of connections and a list of
widths. `Payload.verify` decodes a payload and checks a request against it.

The limits end the payload and are written and read by the same code in both
versions, here `writeLimits` and `readLimits`. What is written is read back from
wherever it stands (`readLimits_writeLimits`).
-/

set_option autoImplicit false

namespace VideoStorage.Claim

open RustStd LittleEndian

/-! ## Errors -/

inductive ClaimError where
  | invalidToken
  | unsupportedVersion (version : UInt8)
  | tokenExpired
  | tokenNotYetValid
  | aeadFail
  | assetMismatch
  | timeWindowDeny
  | keyNotFound (kid : UInt8)
  | invalidHeader (text : String)
  | invalidPayload (text : String)
  deriving DecidableEq, Repr

/-! ## The limits -/

/-- The limits of a claim. Zero, and an empty list of widths, mean no limit. -/
structure Limits where
  windowLenSec : UInt16
  maxKbps : UInt16
  maxConcurrency : UInt16
  allowedWidths : List UInt16
  deriving DecidableEq, Repr

/-- The end of `serialize_to_bytes`. -/
def writeLimits (limits : Limits) : Except String Bytes :=
  if limits.allowedWidths.length > 255 then .error "Too many allowed widths"
  else .ok (toBytes limits.windowLenSec ++ toBytes limits.maxKbps ++
    toBytes limits.maxConcurrency ++ [UInt8.ofNat limits.allowedWidths.length] ++
    leBytes limits.allowedWidths)

/-- The end of `deserialize_from_bytes`, once the three numbers are known to be
there. -/
def readLimits (bytes : Bytes) (offset : Nat) : Checked ClaimError Limits := do
  let windowLenSec ← readLE bytes offset (.invalidPayload "Failed to read window_len_sec")
  let maxKbps ← readLE bytes (offset + 2) (.invalidPayload "Failed to read max_kbps")
  let maxConcurrency ← readLE bytes (offset + 4) (.invalidPayload "Failed to read max_concurrency")
  failIf (offset + 6 ≥ bytes.length) (.invalidPayload "Missing allowed_widths data")
  let allowedWidthsLen ← byteAt bytes (offset + 6)
  failIf (bytes.length < offset + 7 + allowedWidthsLen.toNat * 2)
    (.invalidPayload "Invalid allowed_widths size")
  let allowedWidths ← readLEs bytes (.invalidPayload "Failed to read width") allowedWidthsLen.toNat
    (offset + 7)
  pure { windowLenSec, maxKbps, maxConcurrency, allowedWidths }

theorem length_writeLimits {limits : Limits} {tail : Bytes}
    (written : writeLimits limits = .ok tail) :
    tail.length = 7 + limits.allowedWidths.length * 2 := by
  unfold writeLimits at written
  split at written
  · cases written
  · cases written
    simp only [List.length_append, length_toBytes, length_leBytes, List.length_singleton]
    rfl

/-- Limits that were written are read back. -/
theorem readLimits_writeLimits {limits : Limits} {bytes tail rest : Bytes} {offset : Nat}
    (written : writeLimits limits = .ok tail) (atTail : Cursor bytes offset (tail ++ rest)) :
    readLimits bytes offset = .ok limits := by
  have size := length_writeLimits written
  have total := atTail.length
  rw [List.length_append] at total
  unfold writeLimits at written
  split at written
  · cases written
  · rename_i few
    cases written
    simp only [List.append_assoc] at atTail
    have atKbps : Cursor bytes (offset + 2) _ := atTail.advanceLE
    have atConcurrency : Cursor bytes (offset + 4) _ := atKbps.advanceLE
    have atCount : Cursor bytes (offset + 6) _ := atConcurrency.advanceLE
    have atWidths : Cursor bytes (offset + 7) _ := atCount.advance
    have count : (UInt8.ofNat limits.allowedWidths.length).toNat = limits.allowedWidths.length :=
      UInt8.toNat_ofNat_of_lt' (Nat.lt_succ_of_le (Nat.le_of_not_gt few))
    rw [readLimits, atTail.readLE, bind_ok, atKbps.readLE, bind_ok, atConcurrency.readLE, bind_ok,
      failIf_of_not (by omega), bind_ok, atCount.byteAt, bind_ok, count,
      failIf_of_not (by omega), bind_ok, atWidths.readLEs, bind_ok]
    rfl

/-- Limits that were read were written where they stand. -/
theorem writeLimits_of_readLimits {limits : Limits} {bytes rest : Bytes} {offset : Nat}
    (atTail : Cursor bytes offset rest) (read : readLimits bytes offset = .ok limits) :
    ∃ tail rest', writeLimits limits = .ok tail ∧ rest = tail ++ rest' := by
  obtain ⟨windowLenSec, readWindow, read⟩ := bind_eq_ok read
  obtain ⟨maxKbps, readKbps, read⟩ := bind_eq_ok read
  obtain ⟨maxConcurrency, readConcurrency, read⟩ := bind_eq_ok read
  obtain ⟨-, -, read⟩ := bind_eq_ok read
  obtain ⟨count, readCount, read⟩ := bind_eq_ok read
  obtain ⟨-, -, read⟩ := bind_eq_ok read
  obtain ⟨allowedWidths, readWidths, here⟩ := bind_eq_ok read
  cases here
  have length := length_of_readLEs readWidths
  obtain ⟨_, rfl, atKbps⟩ := atTail.of_readLE readWindow
  obtain ⟨_, rfl, atConcurrency⟩ := atKbps.of_readLE readKbps
  obtain ⟨_, rfl, atCount⟩ := atConcurrency.of_readLE readConcurrency
  obtain ⟨_, rfl, atWidths⟩ := atCount.of_byteAt readCount
  obtain ⟨rest', rfl⟩ := atWidths.of_readLEs readWidths
  have few : ¬ allowedWidths.length > 255 := by
    rw [length]
    exact Nat.not_lt.mpr (Nat.le_of_lt_succ count.toNat_lt)
  refine ⟨_, rest', if_neg few, ?_⟩
  simp only [length, UInt8.ofNat_toNat, List.append_assoc, List.cons_append, List.nil_append]

theorem readLimits_ne_panic {bytes : Bytes} {offset : Nat} (within : offset + 6 ≤ bytes.length) :
    readLimits bytes offset ≠ .error .panic := by
  have two : width UInt16 = 2 := rfl
  refine bind_ne_panic (readLE_ne_panic (by omega) _) fun windowLenSec _ => ?_
  refine bind_ne_panic (readLE_ne_panic (by omega) _) fun maxKbps _ => ?_
  refine bind_ne_panic (readLE_ne_panic (by omega) _) fun maxConcurrency _ => ?_
  refine bind_ne_panic (failIf_ne_panic _ _) fun _ present => ?_
  have further := failIf_eq_ok present
  refine bind_ne_panic (byteAt_ne_panic (by omega)) fun count _ => ?_
  refine bind_ne_panic (failIf_ne_panic _ _) fun _ whole => ?_
  have enough := failIf_eq_ok whole
  exact bind_ne_panic (readLEs_ne_panic (by rw [two]; omega) _) fun allowedWidths _ => nofun

/-! ## Checking a request -/

/-- The trait `Payload`. -/
class Payload (P : Type) where
  version : P → UInt8
  verifyAssetId : P → List Char → Checked ClaimError Bool
  nbfUnix : P → UInt32
  expUnix : P → UInt32
  limits : P → Limits
  serialize : P → Except String Bytes
  deserialize : Bytes → Checked ClaimError P

/-- `HLS_SEGMENT_DURATION`. -/
def hlsSegmentDuration : UInt16 := 4

/-- A segment lies behind the time window. -/
def outsideWindow (windowLenSec : UInt16) : Option UInt32 → Bool
  | some segment =>
      decide (windowLenSec ≠ 0 ∧ (windowLenSec / hlsSegmentDuration).toUInt32 < segment)
  | none => false

/-- A width is not among the allowed ones. -/
def widthDenied (allowedWidths : List UInt16) : Option UInt16 → Bool
  | some width => !allowedWidths.isEmpty && !allowedWidths.contains width
  | none => false

/-- `Payload::verify`, at a time in seconds cast to 32 bits. -/
def Payload.verify (P : Type) [Payload P] (data : Bytes) (now : UInt32) (assetId : List Char)
    (segmentIndex : Option UInt32) (width : Option UInt16) : Checked ClaimError P := do
  let payload : P ← Payload.deserialize data
  failIf (now < Payload.nbfUnix payload) .tokenNotYetValid
  failIf (now ≥ Payload.expUnix payload) .tokenExpired
  let opens ← Payload.verifyAssetId payload assetId
  failIf (opens = false) .assetMismatch
  failIf (outsideWindow (Payload.limits payload).windowLenSec segmentIndex = true) .timeWindowDeny
  failIf (widthDenied (Payload.limits payload).allowedWidths width = true) .assetMismatch
  pure payload

theorem outsideWindow_eq_false (windowLenSec : UInt16) (segmentIndex : Option UInt32) :
    outsideWindow windowLenSec segmentIndex = false ↔
      ∀ segment, segmentIndex = some segment →
        windowLenSec = 0 ∨ segment.toNat ≤ windowLenSec.toNat / 4 := by
  cases segmentIndex with
  | none => exact ⟨fun _ _ => nofun, fun _ => rfl⟩
  | some index =>
      have quotient : (windowLenSec / hlsSegmentDuration).toUInt32.toNat =
          windowLenSec.toNat / 4 := by
        rw [UInt16.toNat_toUInt32, UInt16.toNat_div]
        rfl
      have behind : (windowLenSec / hlsSegmentDuration).toUInt32 < index ↔
          ¬ index.toNat ≤ windowLenSec.toNat / 4 := by
        rw [UInt32.lt_iff_toNat_lt, quotient, Nat.not_le]
      rw [outsideWindow, decide_eq_false_iff_not, behind, not_and_not_right, ne_eq]
      constructor
      · rintro within segment is
        obtain rfl := Option.some.inj is
        exact Decidable.or_iff_not_imp_left.mpr within
      · intro within
        exact Decidable.or_iff_not_imp_left.mp (within index rfl)

theorem widthDenied_eq_false (allowedWidths : List UInt16) (width : Option UInt16) :
    widthDenied allowedWidths width = false ↔
      ∀ requested, width = some requested → allowedWidths = [] ∨ requested ∈ allowedWidths := by
  cases width with
  | none => exact ⟨fun _ _ => nofun, fun _ => rfl⟩
  | some asked =>
      rw [widthDenied, Bool.and_eq_false_iff, Bool.not_eq_false', Bool.not_eq_false',
        List.isEmpty_iff, List.contains_iff_mem]
      constructor
      · rintro allowed requested is
        obtain rfl := Option.some.inj is
        exact allowed
      · exact fun allowed => allowed asked rfl

section

variable {P : Type} [Payload P] {data : Bytes} {payload : P} {now : UInt32} {assetId : List Char}
  {segmentIndex : Option UInt32} {width : Option UInt16}

/-- What a payload that was read is checked for. -/
structure Payload.Admits (payload : P) (now : UInt32) (assetId : List Char)
    (segmentIndex : Option UInt32) (width : Option UInt16) : Prop where
  begun : Payload.nbfUnix payload ≤ now
  unexpired : now < Payload.expUnix payload
  opens : Payload.verifyAssetId payload assetId = .ok true
  window : ∀ segment, segmentIndex = some segment →
    (Payload.limits payload).windowLenSec = 0 ∨
      segment.toNat ≤ (Payload.limits payload).windowLenSec.toNat / 4
  width : ∀ requested, width = some requested →
    (Payload.limits payload).allowedWidths = [] ∨
      requested ∈ (Payload.limits payload).allowedWidths

/-- **What `verify` decides** about a payload that is read. -/
theorem Payload.verify_of_read (read : Payload.deserialize data = .ok payload)
    (returns : Returns (Payload.verifyAssetId payload assetId)) :
    (Payload.Admits payload now assetId segmentIndex width →
        Payload.verify P data now assetId segmentIndex width = .ok payload) ∧
      (¬ Payload.Admits payload now assetId segmentIndex width →
        ∃ error, Payload.verify P data now assetId segmentIndex width = .error (.err error)) := by
  obtain ⟨opens, checked⟩ := returns
  rw [Payload.verify, read, bind_ok, checked]
  constructor
  · rintro ⟨begun, unexpired, isOpen, window, width⟩
    rw [checked] at isOpen
    rw [← outsideWindow_eq_false] at window
    rw [← widthDenied_eq_false] at width
    obtain rfl := Except.ok.inj isOpen
    rw [failIf_of_not (UInt32.not_lt.mpr begun), bind_ok,
      failIf_of_not (UInt32.not_le.mpr unexpired), bind_ok, bind_ok, failIf_of_not Bool.noConfusion,
      bind_ok, failIf_of_not (ne_true_of_eq_false window), bind_ok,
      failIf_of_not (ne_true_of_eq_false width)]
    rfl
  · intro denied
    by_cases early : now < Payload.nbfUnix payload
    · exact ⟨_, by rw [failIf_of early, bind_error]⟩
    rw [failIf_of_not early, bind_ok]
    by_cases late : now ≥ Payload.expUnix payload
    · exact ⟨_, by rw [failIf_of late, bind_error]⟩
    rw [failIf_of_not late, bind_ok, bind_ok]
    by_cases closed : opens = false
    · exact ⟨_, by rw [failIf_of closed, bind_error]⟩
    rw [failIf_of_not closed, bind_ok]
    by_cases behind : outsideWindow (Payload.limits payload).windowLenSec segmentIndex = true
    · exact ⟨_, by rw [failIf_of behind, bind_error]⟩
    rw [failIf_of_not behind, bind_ok]
    by_cases wrong : widthDenied (Payload.limits payload).allowedWidths width = true
    · exact ⟨_, by rw [failIf_of wrong, bind_error]⟩
    refine (denied ⟨UInt32.not_lt.mp early, UInt32.not_le.mp late, ?_, ?_, ?_⟩).elim
    · rw [checked, eq_true_of_ne_false closed]
    · exact (outsideWindow_eq_false ..).mp (eq_false_of_ne_true behind)
    · exact (widthDenied_eq_false ..).mp (eq_false_of_ne_true wrong)

end

end VideoStorage.Claim
