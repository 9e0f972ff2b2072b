import VideoStorage.Claim.BucketStore
import VideoStorage.Claim.PayloadV1
import VideoStorage.Claim.PayloadV2
import VideoStorage.Library.Aead
import VideoStorage.Library.TransitionSystem

/-!
# Signing and verifying tokens

A token is a header in the clear followed by the sealed payload. `verify_claim`
parses the header, opens the rest with the header's key and the re-encoded
header as associated data, and only then looks at the payload and the bucket
map.

**Token integrity.** Under an ideal cipher, in every state that signing, key
rotation, verification and clean-up reach, whatever gets past the opening is a
token minted before, byte for byte, and is treated as the payload version it was
minted with; everything else is rejected with an error and leaves the manager as
it was (`verifyClaim_integrity`). The invariant is `MintedWell`: every minted
token is the encoding of its header and what was sealed under that very
encoding. Parsing loses nothing (`ClaimHeader.toBytes_of_fromBytes`), so the
associated data is the received header.
-/

set_option autoImplicit false

namespace VideoStorage.Claim

open RustStd TransitionSystem

/-- A 256-bit key. -/
abbrev CipherKey := FixedBytes 32

/-- A 96-bit nonce. -/
abbrev CipherNonce := FixedBytes 12

/-- The cipher, assumed ideal. -/
abbrev Cipher := IdealAead CipherKey CipherNonce

structure ClaimManagerInner where
  store : BucketStore
  keys : UInt8 → Option CipherKey
  currentKid : UInt8

/-! ## Keys -/

namespace ClaimManagerInner

/-- `ClaimManagerInner::new`, with the key it generates. -/
def new (generated : CipherKey) : ClaimManagerInner where
  store := .empty
  keys := Function.update (fun _ => none) 1 (some generated)
  currentKid := 1

/-- The map of a list of keys. The last key of a kid stands. -/
def collectKeys (keys : List (UInt8 × CipherKey)) : UInt8 → Option CipherKey :=
  keys.foldl (fun map entry => Function.update map entry.1 (some entry.2)) fun _ => none

/-- `ClaimManagerInner::from_keys`: the smallest kid signs. -/
def fromKeys (generated : CipherKey) : List (UInt8 × CipherKey) → ClaimManagerInner
  | [] => new generated
  | first :: more =>
      { store := .empty
        keys := collectKeys (first :: more)
        currentKid := (more.map Prod.fst).foldl min first.1 }

/-- `ClaimManagerInner::with_key`. -/
def withKey (kid : UInt8) (key : CipherKey) : ClaimManagerInner where
  store := .empty
  keys := Function.update (fun _ => none) kid (some key)
  currentKid := kid

end ClaimManagerInner

/-- `add_key`. -/
def addKey (inner : ClaimManagerInner) (kid : UInt8) (key : CipherKey) :
    Except String ClaimManagerInner :=
  if (inner.keys kid).isSome then .error ("Key ID " ++ toString kid ++ " already exists")
  else .ok { inner with keys := Function.update inner.keys kid (some key) }

/-- `set_current_kid`. -/
def setCurrentKid (inner : ClaimManagerInner) (kid : UInt8) : Except String ClaimManagerInner :=
  if (inner.keys kid).isNone then .error ("Key ID " ++ toString kid ++ " not found")
  else .ok { inner with currentKid := kid }

/-! ## Signing -/

/-- What `sign_claim` puts into a token, and the key and the payload bytes it
sealed. -/
structure SignedToken where
  header : ClaimHeader
  key : CipherKey
  message : Bytes
  ciphertext : Bytes

namespace SignedToken

/-- The bytes of the token, before base64. -/
def token (signed : SignedToken) : Bytes := signed.header.toBytes ++ signed.ciphertext

def sealing (signed : SignedToken) : Sealing CipherKey CipherNonce :=
  ⟨signed.key, signed.header.nonce, signed.header.toBytes, signed.message, signed.ciphertext⟩

end SignedToken

/-- `sign_claim`, with the nonce and the creation time of `ClaimHeader::new`. -/
def signClaim {P : Type} [Payload P] (aead : Cipher) (inner : ClaimManagerInner) (payload : P)
    (nonce : CipherNonce) (createAt : BitVec 128) : Except String SignedToken :=
  match inner.keys inner.currentKid with
  | none => .error ("Key ID " ++ toString inner.currentKid ++ " not found")
  | some key =>
      let header := ClaimHeader.new inner.currentKid algAes256Gcm (Payload.version payload) nonce
        createAt
      match Payload.serialize payload with
      | .error error => .error error
      | .ok message =>
          match aead.encrypt key header.nonce header.toBytes message with
          | none => .error "Encryption failed: aead::Error"
          | some ciphertext => .ok { header, key, message, ciphertext }

/-! ## Verifying -/

/-- What a request is checked for, and the clock readings of its verification:
the seconds of `Payload::verify` and the milliseconds of the bucket's touch. -/
structure ClaimRequest where
  assetId : List Char
  segmentIndex : Option UInt32
  width : Option UInt16
  now : UInt32
  reading : UInt64

/-- `verify_claim` up to the decryption: the header and the payload bytes. -/
def openToken (aead : Cipher) (sealings : List (Sealing CipherKey CipherNonce))
    (inner : ClaimManagerInner) (token : Bytes) : Checked ClaimError (ClaimHeader × Bytes) := do
  failIf (token.length < headerSize + tagSize) .invalidToken
  let headerBytes ← slice token 0 headerSize
  let header ← ClaimHeader.fromBytes headerBytes
  match inner.keys header.kid with
  | none => fail (.keyNotFound header.kid)
  | some key => do
      let ciphertext ← slice token headerSize token.length
      failIf (header.alg ≠ algAes256Gcm)
        (.invalidHeader ("Unsupported algorithm: " ++ toString header.alg))
      match aead.decrypt sealings key header.nonce header.toBytes ciphertext with
      | none => fail .aeadFail
      | some payloadBytes => pure (header, payloadBytes)

/-- Check the payload of a version and give the terms of its bucket. -/
def verifyPayload (version : UInt8) (payloadBytes : Bytes) (request : ClaimRequest) :
    Checked ClaimError BucketTerms :=
  if version = 1 then do
    let payload ← Payload.verify ClaimPayloadV1 payloadBytes request.now request.assetId
      request.segmentIndex request.width
    pure ⟨payload.toLimits, payload.expUnix⟩
  else if version = 2 then do
    let payload ← Payload.verify ClaimPayloadV2 payloadBytes request.now request.assetId
      request.segmentIndex request.width
    pure ⟨payload.toLimits, payload.expUnix⟩
  else fail (.unsupportedVersion version)

/-- `verify_claim` from the decryption on. -/
def admission (inner : ClaimManagerInner) (version : UInt8) (bucketKey : BucketKey)
    (payloadBytes : Bytes) (request : ClaimRequest) :
    Checked ClaimError (Nat × BucketKey) × ClaimManagerInner :=
  match verifyPayload version payloadBytes request with
  | .error failure => (.error failure, inner)
  | .ok terms =>
      let (bucket, store) := inner.store.getOrCreateBucket bucketKey terms request.reading
      (.ok (bucket, bucketKey), { inner with store })

/-- `verify_claim` of the decoded token bytes: the bucket and its key, and the
manager after the call. -/
def verifyClaim (aead : Cipher) (sealings : List (Sealing CipherKey CipherNonce))
    (inner : ClaimManagerInner) (token : Bytes) (request : ClaimRequest) :
    Checked ClaimError (Nat × BucketKey) × ClaimManagerInner :=
  match openToken aead sealings inner token with
  | .error failure => (.error failure, inner)
  | .ok (header, payloadBytes) =>
      admission inner header.version header.bucketKey payloadBytes request

/-! ## Runs of a manager -/

/-- A payload of either version. -/
inductive AnyPayload where
  | v1 (payload : ClaimPayloadV1)
  | v2 (payload : ClaimPayloadV2)

namespace AnyPayload

def version : AnyPayload → UInt8
  | v1 payload => Payload.version payload
  | v2 payload => Payload.version payload

def serialize : AnyPayload → Except String Bytes
  | v1 payload => Payload.serialize payload
  | v2 payload => Payload.serialize payload

def sign (aead : Cipher) (inner : ClaimManagerInner) (nonce : CipherNonce)
    (createAt : BitVec 128) : AnyPayload → Except String SignedToken
  | v1 payload => signClaim aead inner payload nonce createAt
  | v2 payload => signClaim aead inner payload nonce createAt

end AnyPayload

/-- A token with the payload it was minted for. -/
structure Minted extends SignedToken where
  payload : AnyPayload

/-- A manager and the tokens minted so far. -/
structure ManagerState where
  inner : ClaimManagerInner
  minted : List Minted

/-- Everything sealed so far. -/
def ManagerState.sealings (state : ManagerState) : List (Sealing CipherKey CipherNonce) :=
  state.minted.map fun minted => minted.sealing

inductive ManagerAction where
  | sign (payload : AnyPayload) (nonce : CipherNonce) (createAt : BitVec 128)
  | addKey (kid : UInt8) (key : CipherKey)
  | setCurrentKid (kid : UInt8)
  | verify (token : Bytes) (request : ClaimRequest)
  | touch (key : BucketKey) (reading : UInt64)
  | cleanup (nowMs : UInt64) (nowUnix : UInt32)

/-- One call to the manager. A call that fails leaves the manager as it was. -/
def managerStep (aead : Cipher) : TransitionSystem ManagerState ManagerAction
  | state, .sign payload nonce createAt =>
      match payload.sign aead state.inner nonce createAt with
      | .ok signed => some { state with minted := state.minted ++ [⟨signed, payload⟩] }
      | .error _ => some state
  | state, .addKey kid key =>
      match addKey state.inner kid key with
      | .ok inner => some { state with inner }
      | .error _ => some state
  | state, .setCurrentKid kid =>
      match setCurrentKid state.inner kid with
      | .ok inner => some { state with inner }
      | .error _ => some state
  | state, .verify token request =>
      some { state with inner := (verifyClaim aead state.sealings state.inner token request).2 }
  | state, .touch key reading =>
      some { state with inner.store := state.inner.store.touchBucket key reading }
  | state, .cleanup nowMs nowUnix =>
      some { state with inner.store := state.inner.store.cleanupExpired nowMs nowUnix }

/-! ## What is minted -/

/-- The token was minted for the version and the bytes of its payload. -/
structure MintedWell (minted : Minted) : Prop where
  version : minted.header.version = minted.payload.version
  message : minted.payload.serialize = .ok minted.message

/-- What `sign_claim` does when it returns a token: it seals the payload bytes
with the current key. -/
structure SealedWith (aead : Cipher) (inner : ClaimManagerInner) (version : UInt8)
    (serialized : Except String Bytes) (signed : SignedToken) : Prop where
  stored : inner.keys inner.currentKid = some signed.key
  kid : signed.header.kid = inner.currentKid
  magic : signed.header.magic = magicBytes
  alg : signed.header.alg = algAes256Gcm
  version : signed.header.version = version
  message : serialized = .ok signed.message
  made : signed.sealing.Made aead

theorem signClaim_ok {P : Type} [Payload P] {aead : Cipher} {inner : ClaimManagerInner}
    {payload : P} {nonce : CipherNonce} {createAt : BitVec 128} {signed : SignedToken}
    (ok : signClaim aead inner payload nonce createAt = .ok signed) :
    SealedWith aead inner (Payload.version payload) (Payload.serialize payload) signed := by
  unfold signClaim at ok
  split at ok
  · cases ok
  · rename_i key stored
    dsimp only at ok
    split at ok
    · cases ok
    · rename_i message serialized
      split at ok
      · cases ok
      · rename_i ciphertext encrypted
        cases ok
        exact ⟨stored, rfl, rfl, rfl, rfl, serialized, encrypted⟩

theorem AnyPayload.sign_ok {aead : Cipher} {inner : ClaimManagerInner} {payload : AnyPayload}
    {nonce : CipherNonce} {createAt : BitVec 128} {signed : SignedToken}
    (ok : payload.sign aead inner nonce createAt = .ok signed) :
    SealedWith aead inner payload.version payload.serialize signed := by
  cases payload with
  | v1 payload => exact signClaim_ok ok
  | v2 payload => exact signClaim_ok ok

/-! ## What a call can do -/

theorem addKey_ok {inner next : ClaimManagerInner} {kid : UInt8} {key : CipherKey}
    (ok : addKey inner kid key = .ok next) :
    inner.keys kid = none ∧
      next = { inner with keys := Function.update inner.keys kid (some key) } := by
  unfold addKey at ok
  split at ok
  · cases ok
  · rename_i absent
    cases ok
    exact ⟨Option.not_isSome_iff_eq_none.mp absent, rfl⟩

theorem setCurrentKid_ok {inner next : ClaimManagerInner} {kid : UInt8}
    (ok : setCurrentKid inner kid = .ok next) :
    (∃ key, inner.keys kid = some key) ∧ next = { inner with currentKid := kid } := by
  unfold setCurrentKid at ok
  split at ok
  · cases ok
  · rename_i present
    cases ok
    exact ⟨Option.ne_none_iff_exists'.mp (mt Option.isNone_iff_eq_none.mpr present), rfl⟩

/-- Verification changes nothing but the buckets. -/
theorem verifyClaim_inner (aead : Cipher) (sealings : List (Sealing CipherKey CipherNonce))
    (inner : ClaimManagerInner) (token : Bytes) (request : ClaimRequest) :
    ∃ store, (verifyClaim aead sealings inner token request).2 = { inner with store } := by
  unfold verifyClaim
  split
  · exact ⟨inner.store, rfl⟩
  · unfold admission
    split
    · exact ⟨inner.store, rfl⟩
    · exact ⟨_, rfl⟩

/-- The calls: one that signed a token, one that added a key for a new kid, one
that made a stored key current, and one that changed nothing but the buckets. -/
inductive ManagerStep (aead : Cipher) (state : ManagerState) : ManagerState → Prop where
  | sign {payload : AnyPayload} {signed : SignedToken}
      (sealed : SealedWith aead state.inner payload.version payload.serialize signed) :
      ManagerStep aead state { state with minted := state.minted ++ [⟨signed, payload⟩] }
  | addKey {kid : UInt8} {key : CipherKey} (absent : state.inner.keys kid = none) :
      ManagerStep aead state
        { state with inner.keys := Function.update state.inner.keys kid (some key) }
  | setCurrentKid {kid : UInt8} {key : CipherKey} (stored : state.inner.keys kid = some key) :
      ManagerStep aead state { state with inner.currentKid := kid }
  | buckets (store : BucketStore) : ManagerStep aead state { state with inner.store := store }

theorem managerStep_cases {aead : Cipher} {state next : ManagerState} {action : ManagerAction}
    (step : managerStep aead state action = some next) : ManagerStep aead state next := by
  have unchanged : ManagerStep aead state state := .buckets state.inner.store
  cases action with
  | sign payload nonce createAt =>
      simp only [managerStep] at step
      split at step <;> cases step
      · rename_i signed ok
        exact .sign (AnyPayload.sign_ok ok)
      · exact unchanged
  | addKey kid key =>
      simp only [managerStep] at step
      split at step <;> cases step
      · rename_i inner ok
        obtain ⟨absent, rfl⟩ := addKey_ok ok
        exact .addKey absent
      · exact unchanged
  | setCurrentKid kid =>
      simp only [managerStep] at step
      split at step <;> cases step
      · rename_i inner ok
        obtain ⟨⟨key, stored⟩, rfl⟩ := setCurrentKid_ok ok
        exact .setCurrentKid stored
      · exact unchanged
  | verify token request =>
      cases step
      obtain ⟨store, same⟩ := verifyClaim_inner aead state.sealings state.inner token request
      rw [same]
      exact .buckets store
  | touch key reading =>
      cases step
      exact .buckets _
  | cleanup nowMs nowUnix =>
      cases step
      exact .buckets _

/-- Only signing mints, and it mints well. -/
theorem mintedWell_step {aead : Cipher} {state next : ManagerState} {action : ManagerAction}
    (well : ∀ minted ∈ state.minted, MintedWell minted)
    (step : managerStep aead state action = some next) :
    ∀ minted ∈ next.minted, MintedWell minted := by
  cases managerStep_cases step with
  | sign sealed =>
      intro minted member
      rcases List.mem_append.mp member with old | new
      · exact well minted old
      · cases List.mem_singleton.mp new
        exact ⟨sealed.version, sealed.message⟩
  | addKey absent => exact well
  | setCurrentKid stored => exact well
  | buckets store => exact well

theorem mintedWell_of_reachable {aead : Cipher} {inner : ClaimManagerInner} {state : ManagerState}
    (reached : Reachable (managerStep aead) ⟨inner, []⟩ state) :
    ∀ minted ∈ state.minted, MintedWell minted :=
  Run.invariant reached (fun _ member => nomatch member)
    (fun well _ step => mintedWell_step well step)

/-! ## What is opened -/

section Opening

variable {aead : Cipher} {sealings : List (Sealing CipherKey CipherNonce)}
  {inner : ClaimManagerInner} {token : Bytes}

/-- What gets past the decryption is the encoding of its header followed by a
ciphertext that was sealed with that encoding. -/
theorem openToken_ok {header : ClaimHeader} {payloadBytes : Bytes}
    (ok : openToken aead sealings inner token = .ok (header, payloadBytes)) :
    ∃ sealing ∈ sealings, sealing.aad = header.toBytes ∧ sealing.message = payloadBytes ∧
      token = header.toBytes ++ sealing.ciphertext := by
  obtain ⟨_, long, ok⟩ := bind_eq_ok ok
  have size : headerSize ≤ token.length := by
    have atLeast := Nat.le_of_not_lt (failIf_eq_ok long)
    exact Nat.le_trans (Nat.le_add_right _ _) atLeast
  obtain ⟨headerBytes, cut, ok⟩ := bind_eq_ok ok
  rw [slice_within (Nat.zero_le _) size] at cut
  cases cut
  obtain ⟨parsed, parse, ok⟩ := bind_eq_ok ok
  have front : parsed.toBytes = token.take headerSize := by
    refine (ClaimHeader.toBytes_of_fromBytes ?_ parse).1
    rw [List.drop_zero, Nat.sub_zero, List.length_take, Nat.min_eq_left size]
  split at ok
  · cases ok
  · rename_i key _
    obtain ⟨ciphertext, cut, ok⟩ := bind_eq_ok ok
    rw [slice_within size (Nat.le_refl _), ← List.length_drop, List.take_length] at cut
    cases cut
    obtain ⟨_, _, ok⟩ := bind_eq_ok ok
    split at ok
    · cases ok
    · rename_i opened
      cases ok
      refine ⟨_, aead.authentic opened, rfl, rfl, ?_⟩
      rw [front, List.take_append_drop]

/-- Opening a token never panics. -/
theorem openToken_ne_panic : openToken aead sealings inner token ≠ .error .panic := by
  refine bind_ne_panic (failIf_ne_panic _ _) fun _ long => ?_
  have size : headerSize ≤ token.length := by
    have atLeast := Nat.le_of_not_lt (failIf_eq_ok long)
    exact Nat.le_trans (Nat.le_add_right _ _) atLeast
  rw [slice_within (Nat.zero_le _) size, bind_ok]
  refine bind_ne_panic (ClaimHeader.fromBytes_ne_panic _) fun header _ => ?_
  split
  · exact nofun
  · rw [slice_within size (Nat.le_refl _), bind_ok]
    refine bind_ne_panic (failIf_ne_panic _ _) fun _ _ => ?_
    split
    · exact nofun
    · exact nofun

end Opening

/-- The integrity of one token: what gets past the decryption is a token minted
before, with the bucket key its bytes determine, and goes on as the payload
version and the bytes it was minted with. Anything that was not minted is
rejected with an error and changes nothing. -/
structure TokenIntegrity (aead : Cipher) (state : ManagerState) (token : Bytes)
    (request : ClaimRequest) : Prop where
  opened : ∀ header payloadBytes,
    openToken aead state.sealings state.inner token = .ok (header, payloadBytes) →
    ∃ minted ∈ state.minted, token = minted.token ∧
      minted.payload.serialize = .ok payloadBytes ∧
      header.bucketKey.val = (token.drop 8).take 28 ∧
      verifyClaim aead state.sealings state.inner token request =
        admission state.inner minted.payload.version header.bucketKey payloadBytes request
  rejected : (∀ minted ∈ state.minted, token ≠ minted.token) →
    ∃ error, verifyClaim aead state.sealings state.inner token request =
      (.error (.err error), state.inner)

/-- What opens is a minted token with its header and its payload bytes. -/
theorem minted_of_opened {aead : Cipher} {state : ManagerState} {token payloadBytes : Bytes}
    {header : ClaimHeader}
    (opened : openToken aead state.sealings state.inner token = .ok (header, payloadBytes)) :
    ∃ minted ∈ state.minted, token = minted.token ∧ minted.header = header ∧
      minted.message = payloadBytes := by
  obtain ⟨sealing, sealed, aad, message, whole⟩ := openToken_ok opened
  obtain ⟨minted, member, rfl⟩ := List.mem_map.mp sealed
  refine ⟨minted, member, ?_, ClaimHeader.toBytes_injective aad, message⟩
  rw [whole, SignedToken.token, ← aad]
  rfl

/-- The bucket key is cut out of the token. -/
theorem SignedToken.bucketKey_eq (signed : SignedToken) :
    signed.header.bucketKey.val = (signed.token.drop 8).take 28 := by
  rw [ClaimHeader.bucketKey_eq_drop, SignedToken.token,
    List.drop_append_of_le_length (by rw [ClaimHeader.length_toBytes]; decide)]
  refine (List.take_left' ?_).symm
  rw [List.length_drop, ClaimHeader.length_toBytes, headerSize]

/-- **Token integrity** in every state that calls to the manager reach. -/
theorem verifyClaim_integrity (aead : Cipher) {inner : ClaimManagerInner} {state : ManagerState}
    (reached : Reachable (managerStep aead) ⟨inner, []⟩ state) (token : Bytes)
    (request : ClaimRequest) : TokenIntegrity aead state token request where
  opened header payloadBytes opened := by
    obtain ⟨minted, member, rfl, rfl, rfl⟩ := minted_of_opened opened
    have well := mintedWell_of_reachable reached minted member
    refine ⟨minted, member, rfl, well.message, minted.bucketKey_eq, ?_⟩
    rw [verifyClaim, opened, ← well.version]
  rejected foreign := by
    cases opened : openToken aead state.sealings state.inner token with
    | ok result =>
        obtain ⟨minted, member, whole, -, -⟩ := minted_of_opened opened
        exact absurd whole (foreign minted member)
    | error failure =>
        cases failure with
        | panic => exact absurd opened openToken_ne_panic
        | err error => exact ⟨error, by rw [verifyClaim, opened]⟩

/-- A manager with one key. -/
def singleKeyManager : ClaimManagerInner where
  store := .empty
  keys kid := if kid = 1 then some ⟨List.replicate 32 7, rfl⟩ else none
  currentKid := 1

/-- Signing one payload. -/
def signOnce : List ManagerAction :=
  [.sign (.v1 ⟨⟨60, 4000, 2, []⟩, 9, 1, "demo".toList⟩) ⟨List.replicate 12 3, rfl⟩ 5]

/-- The token that was signed is opened and admitted. -/
theorem verifyClaim_integrity_signed :
    ∃ state minted,
      exec (managerStep (.table 16)) anything ⟨singleKeyManager, []⟩ signOnce = some state ∧
      minted ∈ state.minted ∧
      openToken (.table 16) state.sealings state.inner minted.token =
        .ok (minted.header, minted.message) ∧
      (verifyClaim (.table 16) state.sealings state.inner minted.token
        ⟨"demo".toList, some 3, none, 5, 0⟩).1 = .ok (0, minted.header.bucketKey) ∧
      TokenIntegrity (.table 16) state minted.token ⟨"demo".toList, some 3, none, 5, 0⟩ :=
  ⟨_, _, rfl, List.mem_singleton_self _, rfl, rfl, verifyClaim_integrity _
    (@run_of_exec ManagerState _ _ anything ⟨singleKeyManager, []⟩ _ signOnce rfl) _ _⟩

end VideoStorage.Claim
