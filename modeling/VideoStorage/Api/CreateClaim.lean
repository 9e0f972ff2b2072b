import VideoStorage.Claim.AssetKey
import VideoStorage.Claim.Honoured
import VideoStorage.Claim.VideoFilename

/-!
# Creating a claim

`create_claim` checks the request, hashes the listed ids, builds the filter and
signs the payload. A list is accepted when one of its ids is not empty, so the
filter of an accepted list has an array and its look-ups stay inside.

Checking an id against a claim that was minted, and hashing the ids of a list,
return exactly when the ids can be hashed (`verifyAssetId_returns_iff`). Ids come
from the request before any check of their length, and some that are longer than
240 bytes panic (`long_id_panics`).
-/

set_option autoImplicit false

namespace VideoStorage.Api

open RustStd Claim Xorf TwoxHash

/-! ## The request -/

inductive AssetsFilter where
  | one (id : Str)
  | list (ids : List Str)

def AssetsFilter.isEmpty : AssetsFilter → Bool
  | one id => id.isEmpty
  | list ids => ids.isEmpty || ids.all List.isEmpty

structure CreateClaimRequest where
  assetId : AssetsFilter
  expUnix : UInt32
  nbfUnix : Option UInt32
  windowLenSec : Option UInt16
  maxKbps : Option UInt16
  maxConcurrency : Option UInt16
  allowedWidths : Option (List UInt16)

/-- The limits of a request. A limit of 0 stands for none, and no widths for all. -/
def CreateClaimRequest.limits (request : CreateClaimRequest) : Limits where
  windowLenSec := request.windowLenSec.getD 0
  maxKbps := request.maxKbps.getD 0
  maxConcurrency := request.maxConcurrency.getD 0
  allowedWidths := request.allowedWidths.getD []

/-- Why no token is returned. -/
inductive CreateClaimError where
  | badRequest (text : String)
  | internalServerError (text : String)
  /-- The construction of the filter never ends. -/
  | endless
  deriving DecidableEq, Repr

/-- The response when there is no filter. -/
def filterError : BuildStop → CreateClaimError
  | .failed _ => .badRequest "Invalid assets filter"
  | .endless => .endless

/-! ## The handler -/

/-- The keys of the ids of a list. -/
def genKeys {ε : Type} (ids : List Str) : Checked ε (List UInt64) := ids.mapM genKey

/-- `BinaryFuse16::try_from` for a list of ids. -/
def tryFromIds (debug : Bool) (sizing : Sizing) (random : Nat → UInt16) (ids : List Str) :
    Build BinaryFuse16 := do
  let keys ← genKeys ids
  BinaryFuse16.tryFromIterator debug sizing random keys

/-- `create_claim` up to the payload. -/
def claimPayload (debug : Bool) (sizing : Sizing) (random : Nat → UInt16) (now : UInt32)
    (request : CreateClaimRequest) : Checked CreateClaimError AnyPayload := do
  failIf (request.assetId.isEmpty = true) (.badRequest "asset_id is required")
  let nbfUnix := request.nbfUnix.getD now
  failIf (request.expUnix ≤ nbfUnix) (.badRequest "exp_unix must be greater than nbf_unix")
  match request.assetId with
  | .one assetId =>
      pure (.v1 { toLimits := request.limits, expUnix := request.expUnix, nbfUnix, assetId })
  | .list ids => do
      let assetsFilter ← mapErr filterError (tryFromIds debug sizing random ids)
      pure (.v2 { toLimits := request.limits, expUnix := request.expUnix, nbfUnix, assetsFilter })

/-- `create_claim`: the token that is returned. -/
def createClaim (aead : Cipher) (inner : ClaimManagerInner) (nonce : CipherNonce)
    (createAt : BitVec 128) (debug : Bool) (sizing : Sizing) (random : Nat → UInt16)
    (now : UInt32) (request : CreateClaimRequest) : Checked CreateClaimError SignedToken := do
  let payload ← claimPayload debug sizing random now request
  match payload.sign aead inner nonce createAt with
  | .ok signed => pure signed
  | .error _ => fail (.internalServerError "Failed to create claim")

/-- A token is returned for a payload that was accepted. -/
theorem createClaim_ok {aead : Cipher} {inner : ClaimManagerInner} {nonce : CipherNonce}
    {createAt : BitVec 128} {debug : Bool} {sizing : Sizing} {random : Nat → UInt16} {now : UInt32}
    {request : CreateClaimRequest} {signed : SignedToken}
    (created : createClaim aead inner nonce createAt debug sizing random now request =
      .ok signed) :
    ∃ payload, claimPayload debug sizing random now request = .ok payload ∧
      SealedWith aead inner payload.version payload.serialize signed := by
  obtain ⟨payload, accepted, created⟩ := bind_eq_ok created
  refine ⟨payload, accepted, @AnyPayload.sign_ok aead inner payload nonce createAt signed ?_⟩
  cases sign : payload.sign aead inner nonce createAt with
  | error failure =>
      rw [sign] at created
      cases created
  | ok token =>
      rw [sign] at created
      cases created
      rfl

/-! ## Hashing the ids -/

variable {ε : Type}

/-- A list can be hashed when all of its ids can. -/
theorem genKeys_returns_iff (ids : List Str) :
    Returns (genKeys (ε := ε) ids) ↔ ∀ id ∈ ids, Hashable (utf8 id) := by
  induction ids with
  | nil => exact iff_of_true (.pure _) nofun
  | cons id more ih =>
      rw [List.forall_mem_cons, ← ih, ← oneshot_returns_iff (ε := ε), genKeys, List.mapM_cons]
      constructor
      · rintro ⟨keys, ok⟩
        obtain ⟨key, first, ok⟩ := bind_eq_ok ok
        obtain ⟨rest, others, -⟩ := bind_eq_ok ok
        exact ⟨⟨key, first⟩, ⟨rest, others⟩⟩
      · rintro ⟨first, others⟩
        exact first.andThen fun _ _ => others.andThen fun _ _ => .pure _

theorem length_of_genKeys {ids : List Str} {keys : List UInt64}
    (ok : genKeys (ε := ε) ids = .ok keys) : keys.length = ids.length := by
  induction ids generalizing keys with
  | nil =>
      cases ok
      rfl
  | cons id more ih =>
      rw [genKeys, List.mapM_cons] at ok
      obtain ⟨key, -, ok⟩ := bind_eq_ok ok
      obtain ⟨rest, others, here⟩ := bind_eq_ok ok
      cases here
      rw [List.length_cons, List.length_cons, ih others]

/-- **An accepted list** gives a filter with an array. -/
theorem claimPayload_wellSized {debug : Bool} {sizing : Sizing} {random : Nat → UInt16}
    {now : UInt32} {request : CreateClaimRequest} {payload : ClaimPayloadV2}
    (created : claimPayload debug sizing random now request = .ok (.v2 payload)) :
    payload.assetsFilter.WellSized := by
  obtain ⟨_, accepted, created⟩ := bind_eq_ok created
  obtain ⟨_, _, created⟩ := bind_eq_ok created
  cases asset : request.assetId with
  | one id =>
      rw [asset] at created
      cases created
  | list ids =>
      rw [asset] at created accepted
      obtain ⟨filter, built, here⟩ := bind_eq_ok created
      cases here
      obtain ⟨keys, hashed, built⟩ := bind_eq_ok (mapErr_eq_ok built)
      refine BinaryFuse16.tryFromIterator_wellSized (fun none => ?_) built
      have length := length_of_genKeys hashed
      rw [none, List.length_nil] at length
      rw [List.length_eq_zero_iff.mp length.symm] at accepted
      cases accepted

/-- **Checking an id**: with a token that was minted for a list, whose filter fits
its count, the check of an id returns exactly when the id can be hashed, and so
does the hashing of a list. -/
theorem verifyAssetId_returns_iff {aead : Cipher} {inner : ClaimManagerInner}
    {nonce : CipherNonce} {createAt : BitVec 128} {debug : Bool} {sizing : Sizing}
    {random : Nat → UInt16} {now : UInt32} {request : CreateClaimRequest} {signed : SignedToken}
    {payload received : ClaimPayloadV2}
    (created : createClaim aead inner nonce createAt debug sizing random now request =
      .ok signed)
    (minted : claimPayload debug sizing random now request = .ok (.v2 payload))
    (few : payload.assetsFilter.fingerprints.length < 65536)
    (read : ClaimPayloadV2.deserializeFromBytes signed.message = .ok received) :
    (∀ assetId, Returns (received.verifyAssetId assetId) ↔ Hashable (utf8 assetId)) ∧
      ∀ ids, Returns (genKeys (ε := BuildStop) ids) ↔ ∀ id ∈ ids, Hashable (utf8 id) := by
  refine ⟨fun assetId => ?_, genKeys_returns_iff⟩
  obtain ⟨_, same, sealed⟩ := createClaim_ok created
  cases same.symm.trans minted
  have back := (ClaimPayloadV2.deserialize_serialize_iff sealed.message).mpr few
  cases read.symm.trans back
  rw [← oneshot_returns_iff (ε := ClaimError)]
  constructor
  · rintro ⟨answer, ok⟩
    obtain ⟨key, hashed, -⟩ := bind_eq_ok ok
    exact ⟨key, hashed⟩
  · intro hashed
    exact hashed.andThen fun key _ =>
      BinaryFuse16.containsU64_returns (claimPayload_wellSized minted) key

/-- A request for a list with one id. -/
def oneId : CreateClaimRequest := ⟨.list ["a".toList], 1, none, none, none, none, none⟩

/-- What the formulas give for one key: the exponent is the floor of 2.25. -/
def oneKeySizing : Sizing := ⟨2, 0⟩

/-- The payload of that request, created at 0, with an array of twelve. -/
def oneIdPayload : ClaimPayloadV2 :=
  ⟨⟨0, 0, 0, []⟩, 1, 0,
    ⟨⟨10451216379200822465, 4, 3, 4⟩, [0, 0, 0, 0, 0, 0, 0, 0, 58071, 0, 0, 0]⟩⟩

set_option maxRecDepth 10000 in
/-- The payload is created. -/
theorem claimPayload_oneId :
    claimPayload true oneKeySizing (fun _ => 0) 0 oneId = .ok (.v2 oneIdPayload) := rfl

/-- The token is signed. -/
theorem createClaim_oneId : ∃ signed,
    createClaim (.table 16) singleKeyManager ⟨List.replicate 12 3, rfl⟩ 5 true oneKeySizing
      (fun _ => 0) 0 oneId = .ok signed := by
  rw [createClaim, claimPayload_oneId, bind_ok]
  exact ⟨_, rfl⟩

theorem verifyAssetId_returns_iff_oneId :
    ∃ received : ClaimPayloadV2,
      (∀ assetId, Returns (received.verifyAssetId assetId) ↔ Hashable (utf8 assetId)) ∧
        ∀ ids, Returns (genKeys (ε := BuildStop) ids) ↔ ∀ id ∈ ids, Hashable (utf8 id) := by
  obtain ⟨signed, created⟩ := createClaim_oneId
  obtain ⟨_, same, sealed⟩ := createClaim_ok created
  cases same.symm.trans claimPayload_oneId
  have few : oneIdPayload.assetsFilter.fingerprints.length < 65536 := by decide
  have message : oneIdPayload.serializeToBytes = .ok signed.message := sealed.message
  exact ⟨_, verifyAssetId_returns_iff created claimPayload_oneId few
    ((ClaimPayloadV2.deserialize_serialize_iff message).mpr few)⟩

set_option maxRecDepth 10000 in
/-- A minted claim for a list, asked for an id of 257 characters that a request
names, panics, and so does a list with that id. -/
theorem long_id_panics :
    claimPayload true oneKeySizing (fun _ => 0) 0 oneId = .ok (.v2 oneIdPayload) ∧
      oneIdPayload.assetsFilter.fingerprints.length < 65536 ∧
      parseVideoFilename (List.replicate 257 'a' ++ ".m3u8".toList) =
        some (List.replicate 257 'a', none, none) ∧
      ¬ Returns (oneIdPayload.verifyAssetId (List.replicate 257 'a')) ∧
      ¬ Returns (genKeys (ε := BuildStop) [List.replicate 257 'a']) := by
  have tooLong : ¬ Hashable (utf8 (List.replicate 257 'a')) := by decide
  refine ⟨claimPayload_oneId, by decide, by decide, ?_, ?_⟩
  · rintro ⟨answer, ok⟩
    obtain ⟨key, hashed, -⟩ := bind_eq_ok ok
    exact tooLong ((oneshot_returns_iff _).mp ⟨key, hashed⟩)
  · intro hashed
    exact tooLong ((genKeys_returns_iff _).mp hashed _ List.mem_cons_self)

end VideoStorage.Api
