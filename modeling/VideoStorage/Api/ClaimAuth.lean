import VideoStorage.Api.FileServing
import VideoStorage.Claim.Honoured
import VideoStorage.Claim.VideoFilename
import VideoStorage.Library.Serde

/-!
# The claim middleware

`claim_auth_middleware` stands before `serve_video` on the external server. It
takes the token out of the `Authorization` header and the asset, the segment and
the width out of the filename, and has the token verified for them. What fails
is answered with a status and a text, and the handler is not called.

`authorise` is the middleware up to the bucket map. What it lets through is a
token that was minted, with the bucket key of the token, and when the payload
survived its encoding, the payload grants what the filename asks for
(`vouched_of_authorise`). Followed by an uninterrupted look-up it is
`verify_claim` (`verifyClaim_of_authorise`).
-/

set_option autoImplicit false

namespace VideoStorage.Api

open RustStd Str Claim SerdeJson

/-! ## Refusals -/

/-- The statuses the middleware answers with. -/
inductive RefusalStatus where
  | badRequest
  | unauthorized
  | forbidden
  | tooManyRequests
  deriving DecidableEq, Repr

/-- `StatusCode::as_u16`. -/
def RefusalStatus.asU16 : RefusalStatus → UInt16
  | badRequest => 400
  | unauthorized => 401
  | forbidden => 403
  | tooManyRequests => 429

structure Refusal where
  status : RefusalStatus
  message : String
  deriving DecidableEq, Repr

/-- `err_response`: the body. -/
def Refusal.body (refusal : Refusal) : Value :=
  ofFields [("error".toList, some (toValue refusal.message.toList)),
    ("status".toList, some (toValue refusal.status.asU16))]

/-- `to_err_code`. -/
def toErrCode : ClaimError → RefusalStatus
  | .invalidToken | .unsupportedVersion _ | .tokenExpired | .tokenNotYetValid | .aeadFail
  | .keyNotFound _ | .invalidHeader _ | .invalidPayload _ => .unauthorized
  | .assetMismatch | .timeWindowDeny => .forbidden

/-- The `Display` of a `ClaimError`. -/
def errorText : ClaimError → String
  | .invalidToken => "Invalid token format"
  | .unsupportedVersion version => "Unsupported claim version " ++ toString version
  | .tokenExpired => "Token has expired"
  | .tokenNotYetValid => "Token is not yet valid"
  | .aeadFail => "AEAD decryption failed"
  | .assetMismatch => "Asset ID mismatch"
  | .timeWindowDeny => "Time window exceeded"
  | .keyNotFound kid => "Key not found: " ++ toString kid
  | .invalidHeader text => "Invalid header: " ++ text
  | .invalidPayload text => "Invalid payload: " ++ text

/-- The refusal of a token. -/
def claimRefusal (error : ClaimError) : Refusal := ⟨toErrCode error, errorText error⟩

/-- The refusal of a request without a free connection. -/
def tooManyConnections : Refusal := ⟨.tooManyRequests, "Too many concurrent connections"⟩

/-! ## The middleware -/

/-- What is read of a `GET` of a video. -/
structure VideoGet where
  authorization : Option Bytes
  filename : Str
  range : Option Bytes

/-- The token of an `Authorization` header. -/
def bearerToken (authorization : Option Bytes) : Option Str := do
  let value ← authorization
  let text ← headerText value
  stripFront text "Bearer ".toList

/-- A token that was verified, and what for. -/
structure Verified where
  token : Bytes
  request : ClaimRequest
  key : BucketKey
  terms : BucketTerms

/-- `verify_claim` up to the bucket map, with the decoder of base64. -/
def checkToken (decode : Str → Option Bytes) (aead : Cipher)
    (sealings : List (Sealing CipherKey CipherNonce)) (inner : ClaimManagerInner) (text : Str)
    (request : ClaimRequest) : Checked ClaimError Verified := do
  let token ← okOr (decode text) .invalidToken
  let (header, payloadBytes) ← openToken aead sealings inner token
  let terms ← verifyPayload header.version payloadBytes request
  pure ⟨token, request, header.bucketKey, terms⟩

/-- `claim_auth_middleware` up to the bucket map, at a time in seconds. -/
def authorise (decode : Str → Option Bytes) (aead : Cipher)
    (sealings : List (Sealing CipherKey CipherNonce)) (inner : ClaimManagerInner) (get : VideoGet)
    (now : UInt32) (reading : UInt64) : Checked Refusal Verified := do
  let text ← okOr (bearerToken get.authorization)
    ⟨.unauthorized, "Missing or invalid Authorization header"⟩
  let (assetId, segmentIndex, width) ← okOr (parseVideoFilename get.filename)
    ⟨.badRequest, "Invalid filename format"⟩
  mapErr claimRefusal
    (checkToken decode aead sealings inner text ⟨assetId, segmentIndex, width, now, reading⟩)

/-- A request that is let through has a token and a filename that parse. -/
theorem authorise_ok {decode : Str → Option Bytes} {aead : Cipher}
    {sealings : List (Sealing CipherKey CipherNonce)} {inner : ClaimManagerInner} {get : VideoGet}
    {now : UInt32} {reading : UInt64} {verified : Verified}
    (ok : authorise decode aead sealings inner get now reading = .ok verified) :
    ∃ text header payloadBytes,
      bearerToken get.authorization = some text ∧ decode text = some verified.token ∧
      parseVideoFilename get.filename = some (verified.request.assetId,
        verified.request.segmentIndex, verified.request.width) ∧
      verified.request.now = now ∧ verified.request.reading = reading ∧
      openToken aead sealings inner verified.token = .ok (header, payloadBytes) ∧
      verifyPayload header.version payloadBytes verified.request = .ok verified.terms ∧
      verified.key = header.bucketKey := by
  obtain ⟨text, bearer, ok⟩ := bind_eq_ok ok
  obtain ⟨⟨assetId, segmentIndex, width⟩, parsed, ok⟩ := bind_eq_ok ok
  obtain ⟨token, decoded, ok⟩ := bind_eq_ok (mapErr_eq_ok ok)
  obtain ⟨⟨header, payloadBytes⟩, opened, ok⟩ := bind_eq_ok ok
  obtain ⟨terms, checked, here⟩ := bind_eq_ok ok
  cases here
  exact ⟨text, header, payloadBytes, okOr_eq_ok bearer, okOr_eq_ok decoded, okOr_eq_ok parsed,
    rfl, rfl, opened, checked, rfl⟩

/-- **The middleware verifies**: with nothing in between, what it looks up in the
bucket map is what `verify_claim` returns. -/
theorem verifyClaim_of_authorise {decode : Str → Option Bytes} {aead : Cipher}
    {sealings : List (Sealing CipherKey CipherNonce)} {inner : ClaimManagerInner} {get : VideoGet}
    {now : UInt32} {reading : UInt64} {verified : Verified}
    (ok : authorise decode aead sealings inner get now reading = .ok verified) :
    verifyClaim aead sealings inner verified.token verified.request =
      (.ok ((inner.store.getOrCreateBucket verified.key verified.terms reading).1, verified.key),
        { inner with
          store := (inner.store.getOrCreateBucket verified.key verified.terms reading).2 }) := by
  obtain ⟨_, header, payloadBytes, -, -, -, -, read, opened, checked, key⟩ := authorise_ok ok
  rw [verifyClaim, opened]
  dsimp only
  rw [admission, checked, key, read]

/-- A token that does not open is not authorised. -/
theorem openToken_unauthorised (aead : Cipher) (sealings : List (Sealing CipherKey CipherNonce))
    (inner : ClaimManagerInner) (token : Bytes) :
    ErrorsAre (fun error => toErrCode error = .unauthorized)
      (openToken aead sealings inner token) := by
  have parsed : ∀ bytes, ErrorsAre (fun error => toErrCode error = .unauthorized)
      (ClaimHeader.fromBytes bytes) := by
    intro bytes
    unfold ClaimHeader.fromBytes
    refine ErrorsAre.andThen (ErrorsAre.failIf rfl) fun _ => ?_
    refine ErrorsAre.andThen (ErrorsAre.readArray bytes 0 4 rfl) fun magic => ?_
    refine ErrorsAre.andThen (ErrorsAre.failIf rfl) fun _ => ?_
    refine ErrorsAre.andThen (ErrorsAre.byteAt bytes 4) fun version => ?_
    refine ErrorsAre.andThen (ErrorsAre.failIf rfl) fun _ => ?_
    refine ErrorsAre.andThen (ErrorsAre.byteAt bytes 5) fun kid => ?_
    refine ErrorsAre.andThen (ErrorsAre.byteAt bytes 6) fun alg => ?_
    refine ErrorsAre.andThen (ErrorsAre.byteAt bytes 7) fun rsv => ?_
    refine ErrorsAre.andThen (ErrorsAre.readArray bytes 8 12 rfl) fun nonce => ?_
    exact ErrorsAre.andThen (ErrorsAre.readLE bytes 20 rfl) fun createAt => .pure _
  refine ErrorsAre.andThen (ErrorsAre.failIf rfl) fun _ => ?_
  refine ErrorsAre.andThen (ErrorsAre.slice token _ _) fun bytes => ?_
  refine ErrorsAre.andThen (parsed bytes) fun header => ?_
  split
  · exact .fail rfl
  · refine ErrorsAre.andThen (ErrorsAre.slice token _ _) fun ciphertext => ?_
    refine ErrorsAre.andThen (ErrorsAre.failIf rfl) fun _ => ?_
    split
    · exact .fail rfl
    · exact .pure _

/-- The request carries a token that was minted. -/
def Genuine (decode : Str → Option Bytes) (mintedTokens : List Minted) (get : VideoGet) : Prop :=
  ∃ text, bearerToken get.authorization = some text ∧
    ∃ minted ∈ mintedTokens, decode text = some minted.token

section Forged

variable {decode : Str → Option Bytes} {aead : Cipher} {state : ManagerState} {get : VideoGet}

/-- A text that decodes to no token that was minted is not authorised. -/
theorem checkToken_of_forged {text : Str} (request : ClaimRequest)
    (forged : ∀ minted ∈ state.minted, decode text ≠ some minted.token) :
    ∃ error, checkToken decode aead state.sealings state.inner text request =
        .error (.err error) ∧ toErrCode error = .unauthorized := by
  unfold checkToken
  cases decoded : decode text with
  | none => exact ⟨.invalidToken, rfl, rfl⟩
  | some token =>
      cases opened : openToken aead state.sealings state.inner token with
      | ok result =>
          obtain ⟨minted, member, same, -⟩ := minted_of_opened opened
          exact absurd (same ▸ decoded) (forged minted member)
      | error failure =>
          cases failure with
          | panic => exact absurd opened openToken_ne_panic
          | err error =>
              refine ⟨error, ?_, openToken_unauthorised _ _ _ _ error opened⟩
              rw [okOr, bind_ok, opened, bind_error]

/-- A token that was not minted is refused with 400 or 401. -/
theorem authorise_of_forged (now : UInt32) (reading : UInt64)
    (forged : ¬ Genuine decode state.minted get) :
    ∃ refusal, authorise decode aead state.sealings state.inner get now reading =
        .error (.err refusal) ∧
      (refusal.status = .badRequest ∨ refusal.status = .unauthorized) := by
  unfold authorise
  cases bearer : bearerToken get.authorization with
  | none => exact ⟨_, rfl, .inr rfl⟩
  | some text =>
      cases parseVideoFilename get.filename with
      | none => exact ⟨_, rfl, .inl rfl⟩
      | some asked =>
          obtain ⟨assetId, segmentIndex, width⟩ := asked
          obtain ⟨error, failed, status⟩ := @checkToken_of_forged decode aead state text
            ⟨assetId, segmentIndex, width, now, reading⟩
            (fun minted member decoded => forged ⟨text, bearer, minted, member, decoded⟩)
          refine ⟨claimRefusal error, ?_, .inr status⟩
          change mapErr claimRefusal (checkToken ..) = _
          rw [failed]
          rfl

end Forged

/-! ## What is granted -/

/-- The payload is read back from the bytes it was sealed as. -/
def Survives : AnyPayload → Prop
  | .v1 _ => True
  | .v2 payload => payload.assetsFilter.fingerprints.length < 65536

section

variable {P : Type} [Payload P] {data : Bytes} {payload received : P} {now : UInt32}
  {assetId : List Char} {segmentIndex : Option UInt32} {width : Option UInt16}

/-- What is verified is the payload that is read, and it admits the request. -/
theorem admits_of_verify (read : Payload.deserialize data = .ok payload)
    (ok : Payload.verify P data now assetId segmentIndex width = .ok received) :
    received = payload ∧ Payload.Admits payload now assetId segmentIndex width := by
  have returns : Returns (Payload.verifyAssetId payload assetId) := by
    rw [Payload.verify, read, bind_ok] at ok
    obtain ⟨_, -, ok⟩ := bind_eq_ok ok
    obtain ⟨_, -, ok⟩ := bind_eq_ok ok
    obtain ⟨opens, checked, -⟩ := bind_eq_ok ok
    exact ⟨opens, checked⟩
  obtain ⟨accepted, rejected⟩ :=
    @Payload.verify_of_read P _ data payload now assetId segmentIndex width read returns
  by_cases admits : Payload.Admits payload now assetId segmentIndex width
  · cases (accepted admits).symm.trans ok
    exact ⟨rfl, admits⟩
  · obtain ⟨error, failed⟩ := rejected admits
    cases failed.symm.trans ok

end

/-- What is verified of the bytes of a payload is granted by it, on its terms. -/
theorem grants_of_verifyPayload {payload : AnyPayload} {message : Bytes} {request : ClaimRequest}
    {terms : BucketTerms} (serialized : payload.serialize = .ok message)
    (survives : Survives payload)
    (ok : verifyPayload payload.version message request = .ok terms) :
    Grants payload request ∧ terms = ⟨payload.limits, payload.expUnix⟩ := by
  cases payload with
  | v1 payload =>
      have read := ClaimPayloadV1.deserialize_append serialized []
      rw [List.append_nil] at read
      obtain ⟨received, checked, here⟩ := bind_eq_ok ok
      obtain ⟨rfl, admits⟩ := admits_of_verify read checked
      cases here
      exact ⟨(admits_v1_iff received request).mp admits, rfl⟩
  | v2 payload =>
      have read := ClaimPayloadV2.deserialize_append serialized survives []
      rw [List.append_nil] at read
      obtain ⟨received, checked, here⟩ := bind_eq_ok ok
      obtain ⟨rfl, admits⟩ := admits_of_verify read checked
      cases here
      exact ⟨(admits_v2_iff received request).mp admits, rfl⟩

/-- A request with a token that was minted. When the payload survived its
encoding, it grants what is asked for, and the bucket is the one of its terms. -/
structure Vouched (decode : Str → Option Bytes) (mintedTokens : List Minted) (get : VideoGet)
    (verified : Verified) : Prop where
  bearer : ∃ text, bearerToken get.authorization = some text ∧ decode text = some verified.token
  asked : parseVideoFilename get.filename = some (verified.request.assetId,
    verified.request.segmentIndex, verified.request.width)
  minted : ∃ minted ∈ mintedTokens, verified.token = minted.token ∧
    verified.key = minted.header.bucketKey ∧
    (Survives minted.payload → Grants minted.payload verified.request ∧
      verified.terms = ⟨minted.payload.limits, minted.payload.expUnix⟩)

theorem Vouched.mono {decode : Str → Option Bytes} {mintedTokens more : List Minted}
    {get : VideoGet} {verified : Verified} (vouched : Vouched decode mintedTokens get verified)
    (kept : mintedTokens ⊆ more) : Vouched decode more get verified := by
  obtain ⟨minted, member, rest⟩ := vouched.minted
  exact { vouched with minted := ⟨minted, kept member, rest⟩ }

theorem Vouched.genuine {decode : Str → Option Bytes} {mintedTokens : List Minted}
    {get : VideoGet} {verified : Verified} (vouched : Vouched decode mintedTokens get verified) :
    Genuine decode mintedTokens get := by
  obtain ⟨text, bearer, decoded⟩ := vouched.bearer
  obtain ⟨minted, member, same, -⟩ := vouched.minted
  exact ⟨text, bearer, minted, member, same ▸ decoded⟩

theorem Genuine.mono {decode : Str → Option Bytes} {mintedTokens more : List Minted}
    {get : VideoGet} (genuine : Genuine decode mintedTokens get) (kept : mintedTokens ⊆ more) :
    Genuine decode more get := by
  obtain ⟨text, bearer, minted, member, decoded⟩ := genuine
  exact ⟨text, bearer, minted, kept member, decoded⟩

/-- What the middleware lets through is vouched for by a token that was minted. -/
theorem vouched_of_authorise {decode : Str → Option Bytes} {aead : Cipher} {state : ManagerState}
    (well : ∀ minted ∈ state.minted, MintedWell minted) {get : VideoGet} {now : UInt32}
    {reading : UInt64} {verified : Verified}
    (ok : authorise decode aead state.sealings state.inner get now reading = .ok verified) :
    Vouched decode state.minted get verified := by
  obtain ⟨text, header, payloadBytes, bearer, decoded, parsed, -, -, opened, checked, key⟩ :=
    authorise_ok ok
  obtain ⟨minted, member, token, rfl, rfl⟩ := minted_of_opened opened
  have minting := well minted member
  refine ⟨⟨text, bearer, decoded⟩, parsed, minted, member, token, key, fun survives => ?_⟩
  rw [minting.version] at checked
  exact grants_of_verifyPayload minting.message survives checked

end VideoStorage.Api
