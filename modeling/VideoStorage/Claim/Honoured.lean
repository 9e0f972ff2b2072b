import VideoStorage.Claim.Manager
import VideoStorage.Xorf.Construction

/-!
# Minted tokens are honoured

A manager starts from configured keys, and keys are added and the signing key is
changed while tokens are signed and verified. The signing key is always stored,
and a key that is stored stays, so a token that was minted at any time can still
be opened. `verify_claim` then accepts it exactly for the requests its payload
grants (`minted_honoured`).

The invariant is `KeysKept`: the current kid has a key, and every minted token
carries what is needed to open it.
-/

set_option autoImplicit false

namespace VideoStorage.Claim

open RustStd TransitionSystem Xorf

/-! ## What a payload grants -/

namespace AnyPayload

def expUnix : AnyPayload → UInt32
  | v1 payload => payload.expUnix
  | v2 payload => payload.expUnix

def nbfUnix : AnyPayload → UInt32
  | v1 payload => payload.nbfUnix
  | v2 payload => payload.nbfUnix

def limits : AnyPayload → Limits
  | v1 payload => payload.toLimits
  | v2 payload => payload.toLimits

/-- The asset is the one named, or is in the filter. -/
def Opens (assetId : List Char) : AnyPayload → Prop
  | v1 payload => payload.assetId = assetId
  | v2 payload => ∃ key, TwoxHash.oneshot (ε := ClaimError) (utf8 assetId) = .ok key ∧
      payload.assetsFilter.containsU64 (ε := ClaimError) key = .ok true

/-- A filter was built from a list of keys that is not empty, and its count fits. -/
def Admissible : AnyPayload → Prop
  | v1 _ => True
  | v2 payload =>
      (∃ debug sizing random keys, keys ≠ [] ∧
        BinaryFuse16.tryFromIterator debug sizing random keys = .ok payload.assetsFilter) ∧
      payload.assetsFilter.fingerprints.length ≤ 65535

end AnyPayload

/-- The payload grants the request. -/
structure Grants (payload : AnyPayload) (request : ClaimRequest) : Prop where
  begun : payload.nbfUnix ≤ request.now
  unexpired : request.now < payload.expUnix
  opens : payload.Opens request.assetId
  window : ∀ segment, request.segmentIndex = some segment →
    payload.limits.windowLenSec = 0 ∨ segment.toNat ≤ payload.limits.windowLenSec.toNat / 4
  width : ∀ width, request.width = some width →
    payload.limits.allowedWidths = [] ∨ width ∈ payload.limits.allowedWidths

/-! ## Checking a payload that was minted -/

theorem admits_v1_iff (payload : ClaimPayloadV1) (request : ClaimRequest) :
    Payload.Admits payload request.now request.assetId request.segmentIndex request.width ↔
      Grants (.v1 payload) request := by
  have opens : Payload.verifyAssetId payload request.assetId = .ok true ↔
      AnyPayload.Opens request.assetId (.v1 payload) := by
    change Except.ok (payload.assetId == request.assetId) = Except.ok true ↔
      payload.assetId = request.assetId
    rw [Except.ok.injEq, beq_iff_eq]
  constructor
  · rintro ⟨begun, unexpired, isOpen, window, width⟩
    exact ⟨begun, unexpired, opens.mp isOpen, window, width⟩
  · rintro ⟨begun, unexpired, isOpen, window, width⟩
    exact ⟨begun, unexpired, opens.mpr isOpen, window, width⟩

theorem admits_v2_iff (payload : ClaimPayloadV2) (request : ClaimRequest) :
    Payload.Admits payload request.now request.assetId request.segmentIndex request.width ↔
      Grants (.v2 payload) request := by
  have opens : Payload.verifyAssetId payload request.assetId = .ok true ↔
      AnyPayload.Opens request.assetId (.v2 payload) := by
    constructor
    · exact bind_eq_ok
    · rintro ⟨key, hashed, contained⟩
      change TwoxHash.oneshot (utf8 request.assetId) >>= _ = _
      rw [hashed, bind_ok, contained]
  constructor
  · rintro ⟨begun, unexpired, isOpen, window, width⟩
    exact ⟨begun, unexpired, opens.mp isOpen, window, width⟩
  · rintro ⟨begun, unexpired, isOpen, window, width⟩
    exact ⟨begun, unexpired, opens.mpr isOpen, window, width⟩

/-- The terms of a payload that is read and granted, and the error where it is
not. -/
theorem terms_of_read {P : Type} [Payload P] {data : Bytes} {payload : P}
    {request : ClaimRequest} {granted : Prop} (terms : P → BucketTerms)
    (read : Payload.deserialize data = .ok payload)
    (returns : Returns (Payload.verifyAssetId payload request.assetId))
    (admits : Payload.Admits payload request.now request.assetId request.segmentIndex
      request.width ↔ granted) :
    let verified := Payload.verify P data request.now request.assetId request.segmentIndex
      request.width >>= fun payload => pure (terms payload)
    (granted → verified = .ok (terms payload)) ∧
      (¬ granted → ∃ error, verified = .error (.err error)) := by
  intro verified
  obtain ⟨accepted, rejected⟩ := Payload.verify_of_read read returns
  rw [admits] at accepted rejected
  constructor
  · intro grants
    change Payload.verify P data _ _ _ _ >>= _ = _
    rw [accepted grants]
    rfl
  · intro denied
    obtain ⟨error, failed⟩ := rejected denied
    refine ⟨error, ?_⟩
    change Payload.verify P data _ _ _ _ >>= _ = _
    rw [failed, bind_error]

/-- The bytes a payload was sealed as are decoded and checked as that payload. -/
theorem verifyPayload_serialized {payload : AnyPayload} {message : Bytes}
    (serialized : payload.serialize = .ok message) (admissible : payload.Admissible)
    {request : ClaimRequest} (short : (utf8 request.assetId).length ≤ 240) :
    (Grants payload request →
        verifyPayload payload.version message request =
          .ok ⟨payload.limits, payload.expUnix⟩) ∧
      (¬ Grants payload request →
        ∃ error, verifyPayload payload.version message request = .error (.err error)) := by
  cases payload with
  | v1 payload =>
      have read := ClaimPayloadV1.deserialize_append serialized []
      rw [List.append_nil] at read
      have returns : Returns (Payload.verifyAssetId payload request.assetId) := .pure _
      exact terms_of_read (fun payload : ClaimPayloadV1 => ⟨payload.toLimits, payload.expUnix⟩)
        read returns (admits_v1_iff payload request)
  | v2 payload =>
      obtain ⟨⟨debug, sizing, random, keys, nonempty, built⟩, few⟩ := admissible
      have read := (ClaimPayloadV2.deserialize_serialize_iff serialized).mpr (Nat.lt_succ_of_le few)
      have sized := BinaryFuse16.tryFromIterator_wellSized nonempty built
      have returns : Returns (Payload.verifyAssetId payload request.assetId) :=
        (TwoxHash.oneshot_returns short).andThen fun key _ =>
          BinaryFuse16.containsU64_returns sized key
      exact terms_of_read (fun payload : ClaimPayloadV2 => ⟨payload.toLimits, payload.expUnix⟩)
        read returns (admits_v2_iff payload request)

/-! ## Keys are kept -/

/-- **No call changes or removes the key of a kid.** -/
theorem managerStep_keeps_keys {aead : Cipher} {state next : ManagerState} {action : ManagerAction}
    (step : managerStep aead state action = some next) {kid : UInt8} {key : CipherKey}
    (stored : state.inner.keys kid = some key) : next.inner.keys kid = some key := by
  cases managerStep_cases step with
  | sign sealed => exact stored
  | @addKey other added absent =>
      have differ : kid ≠ other := by
        rintro rfl
        rw [absent] at stored
        cases stored
      exact (Function.update_of_ne differ ..).trans stored
  | setCurrentKid other => exact stored
  | buckets store => exact stored

/-- The token has what is needed to open it: its key is stored, and it was sealed
for its payload. -/
structure Usable (aead : Cipher) (inner : ClaimManagerInner) (minted : Minted) : Prop where
  stored : inner.keys minted.header.kid = some minted.key
  magic : minted.header.magic = magicBytes
  alg : minted.header.alg = algAes256Gcm
  version : minted.header.version = minted.payload.version
  message : minted.payload.serialize = .ok minted.message
  made : minted.sealing.Made aead

structure KeysKept (aead : Cipher) (state : ManagerState) : Prop where
  current : ∃ key, state.inner.keys state.inner.currentKid = some key
  usable : ∀ minted ∈ state.minted, Usable aead state.inner minted

theorem KeysKept.of_step {aead : Cipher} {state next : ManagerState} {action : ManagerAction}
    (kept : KeysKept aead state) (step : managerStep aead state action = some next) :
    KeysKept aead next := by
  obtain ⟨key, current⟩ := kept.current
  have stillCurrent := managerStep_keeps_keys step current
  have usable : ∀ minted ∈ state.minted, Usable aead next.inner minted := by
    intro minted member
    have before := kept.usable minted member
    exact { before with stored := managerStep_keeps_keys step before.stored }
  cases managerStep_cases step with
  | sign sealed =>
      refine ⟨⟨key, stillCurrent⟩, fun minted member => ?_⟩
      rcases List.mem_append.mp member with old | new
      · exact usable minted old
      · cases List.mem_singleton.mp new
        exact ⟨sealed.kid ▸ sealed.stored, sealed.magic, sealed.alg, sealed.version,
          sealed.message, sealed.made⟩
  | addKey absent => exact ⟨⟨key, stillCurrent⟩, usable⟩
  | setCurrentKid stored => exact ⟨⟨_, stored⟩, usable⟩
  | buckets store => exact ⟨⟨key, stillCurrent⟩, usable⟩

/-! ## The managers at the start -/

/-- A manager as its constructors make it. -/
inductive Created : ClaimManagerInner → Prop where
  | fromKeys (generated : CipherKey) (keys : List (UInt8 × CipherKey)) :
      Created (.fromKeys generated keys)
  | withKey (kid : UInt8) (key : CipherKey) : Created (.withKey kid key)

/-- The kids of the entries, and those that were there, have a key. -/
theorem exists_key_of_mem {kid : UInt8} (entries : List (UInt8 × CipherKey)) :
    ∀ map : UInt8 → Option CipherKey,
      (∃ key, map kid = some key) ∨ kid ∈ entries.map Prod.fst →
      ∃ key, entries.foldl (fun (map : UInt8 → Option CipherKey) entry =>
        Function.update map entry.1 (some entry.2)) map kid = some key := by
  induction entries with
  | nil =>
      intro map known
      exact known.resolve_right List.not_mem_nil
  | cons entry more ih =>
      intro map known
      apply ih
      by_cases same : kid = entry.1
      · exact .inl ⟨entry.2, by simp [same]⟩
      · rcases known with ⟨key, stored⟩ | member
        · exact .inl ⟨key, by simp [same, stored]⟩
        · rw [List.map_cons, List.mem_cons] at member
          exact .inr (member.resolve_left same)

/-- The smallest kid is one of them. -/
theorem foldl_min_mem (kids : List UInt8) :
    ∀ first : UInt8, kids.foldl min first ∈ first :: kids := by
  induction kids with
  | nil => exact fun first => List.mem_singleton_self first
  | cons kid more ih =>
      intro first
      have smaller : min first kid = first ∨ min first kid = kid := by
        change (if first ≤ kid then first else kid) = _ ∨ (if first ≤ kid then first else kid) = _
        split
        · exact .inl rfl
        · exact .inr rfl
      have member := ih (min first kid)
      rw [List.mem_cons] at member
      rw [List.foldl_cons, List.mem_cons, List.mem_cons]
      rcases member with least | later
      · rw [least]
        exact smaller.imp id .inl
      · exact .inr (.inr later)

theorem current_of_created {inner : ClaimManagerInner} (created : Created inner) :
    ∃ key, inner.keys inner.currentKid = some key := by
  cases created with
  | withKey kid key => exact ⟨key, by simp [ClaimManagerInner.withKey]⟩
  | fromKeys generated keys =>
      cases keys with
      | nil => exact ⟨generated, by simp [ClaimManagerInner.fromKeys, ClaimManagerInner.new]⟩
      | cons first more => exact exists_key_of_mem _ _ (.inr (foldl_min_mem _ _))

/-! ## Opening a token that was minted -/

/-- A usable token opens, and gives its header and its payload bytes. -/
theorem openToken_minted {aead : Cipher} (correct : aead.Correct tagSize)
    {sealings : List (Sealing CipherKey CipherNonce)}
    (made : ∀ sealing ∈ sealings, sealing.Made aead) {inner : ClaimManagerInner} {minted : Minted}
    (usable : Usable aead inner minted) (sealed : minted.sealing ∈ sealings) :
    openToken aead sealings inner minted.token = .ok (minted.header, minted.message) := by
  have headerLength := minted.header.length_toBytes
  have tagLength := correct.tagged usable.made
  have length : minted.token.length = headerSize + minted.ciphertext.length := by
    rw [SignedToken.token, List.length_append, headerLength]
  have supported : minted.header.version = 1 ∨ minted.header.version = 2 := by
    rw [usable.version]
    cases minted.payload with
    | v1 payload => exact .inl rfl
    | v2 payload => exact .inr rfl
  have long : ¬ minted.token.length < headerSize + tagSize := by
    rw [length]
    exact Nat.not_lt.mpr (Nat.add_le_add_left tagLength _)
  have within : headerSize ≤ minted.token.length := length ▸ Nat.le_add_right ..
  have front : (minted.token.drop 0).take (headerSize - 0) = minted.header.toBytes :=
    List.take_left' headerLength
  have back : (minted.token.drop headerSize).take (minted.token.length - headerSize) =
      minted.ciphertext := by
    rw [← List.length_drop, List.take_length]
    exact List.drop_left' headerLength
  have opened : aead.decrypt sealings minted.key minted.header.nonce minted.header.toBytes
      minted.ciphertext = some minted.message := correct.opens made sealed
  rw [openToken, failIf_of_not long, bind_ok, slice_within (Nat.zero_le _) within, bind_ok, front,
    ClaimHeader.fromBytes_toBytes usable.magic supported, bind_ok, usable.stored]
  dsimp only
  rw [slice_within within (Nat.le_refl _), bind_ok, back, failIf_of_not (not_not.mpr usable.alg),
    bind_ok, opened]
  rfl

/-! ## Tokens are honoured -/

/-- `verify_claim` accepts a minted token exactly for what its payload grants, and
otherwise returns an error. A bucket it creates has the terms of the payload. -/
structure TokenHonoured (aead : Cipher) (sealings : List (Sealing CipherKey CipherNonce))
    (inner : ClaimManagerInner) (minted : Minted) (request : ClaimRequest) : Prop where
  accepted : Grants minted.payload request → ∃ cell next,
    verifyClaim aead sealings inner minted.token request =
        (.ok (cell, minted.header.bucketKey), next) ∧
      next.store.getBucket minted.header.bucketKey = some cell ∧
      (inner.store.getBucket minted.header.bucketKey = none →
        ∃ bucket, next.store.cells[cell]? = some bucket ∧
          bucket.expUnix = minted.payload.expUnix ∧
          bucket.maxKbps = minted.payload.limits.maxKbps ∧
          bucket.maxConcurrency = minted.payload.limits.maxConcurrency)
  rejected : ¬ Grants minted.payload request →
    ∃ error, verifyClaim aead sealings inner minted.token request = (.error (.err error), inner)

/-- What holds of a manager at any time. -/
structure Honoured (aead : Cipher) (state : ManagerState) : Prop where
  current : ∃ key, state.inner.keys state.inner.currentKid = some key
  /-- Signing fails only where the payload cannot be written or the cipher fails. -/
  signs : ∀ (payload : AnyPayload) nonce createAt error,
    payload.sign aead state.inner nonce createAt = .error error →
      payload.serialize = .error error ∨
        ∃ key aad message, payload.serialize = .ok message ∧
          aead.encrypt key nonce aad message = none
  keysKept : ∀ action next, managerStep aead state action = some next →
    ∀ kid key, state.inner.keys kid = some key → next.inner.keys kid = some key
  /-- Whatever buckets there are. -/
  tokens : ∀ minted ∈ state.minted, minted.payload.Admissible → ∀ request : ClaimRequest,
    (utf8 request.assetId).length ≤ 240 → ∀ store,
      TokenHonoured aead state.sealings { state.inner with store } minted request

theorem signClaim_error {P : Type} [Payload P] {aead : Cipher} {inner : ClaimManagerInner}
    {payload : P} {nonce : CipherNonce} {createAt : BitVec 128} {error : String}
    (current : ∃ key, inner.keys inner.currentKid = some key)
    (failed : signClaim aead inner payload nonce createAt = .error error) :
    Payload.serialize payload = .error error ∨
      ∃ key aad message, Payload.serialize payload = .ok message ∧
        aead.encrypt key nonce aad message = none := by
  obtain ⟨key, stored⟩ := current
  rw [signClaim, stored] at failed
  dsimp only at failed
  split at failed
  · rename_i cause serialized
    obtain rfl := Except.error.inj failed
    exact .inl serialized
  · rename_i message serialized
    split at failed
    · rename_i refused
      exact .inr ⟨_, _, message, serialized, refused⟩
    · cases failed

/-- A usable token is honoured, whatever buckets there are. -/
theorem Usable.honoured {aead : Cipher} (correct : aead.Correct tagSize)
    {sealings : List (Sealing CipherKey CipherNonce)}
    (made : ∀ sealing ∈ sealings, sealing.Made aead) {inner : ClaimManagerInner} {minted : Minted}
    (usable : Usable aead inner minted) (sealed : minted.sealing ∈ sealings)
    (admissible : minted.payload.Admissible) {request : ClaimRequest}
    (short : (utf8 request.assetId).length ≤ 240) :
    TokenHonoured aead sealings inner minted request := by
  have opened := openToken_minted correct made usable sealed
  obtain ⟨granted, denied⟩ := verifyPayload_serialized usable.message admissible short
  have verified : verifyClaim aead sealings inner minted.token request =
      admission inner minted.payload.version minted.header.bucketKey minted.message request := by
    rw [verifyClaim, opened, ← usable.version]
  constructor
  · intro grants
    let terms : BucketTerms := ⟨minted.payload.limits, minted.payload.expUnix⟩
    let result := inner.store.getOrCreateBucket minted.header.bucketKey terms request.reading
    refine ⟨result.1, { inner with store := result.2 }, ?_, ?_, fun absent => ?_⟩
    · rw [verified, admission, granted grants]
    · exact BucketStore.getBucket_getOrCreateBucket ..
    · exact BucketStore.getOrCreateBucket_of_none absent terms request.reading
  · intro refused
    obtain ⟨error, failed⟩ := denied refused
    exact ⟨error, by rw [verified, admission, failed]⟩

/-- **Minted tokens are honoured** in every state that calls to a manager reach,
whatever keys were added and made current meanwhile. -/
theorem minted_honoured {aead : Cipher} (correct : aead.Correct tagSize)
    {inner : ClaimManagerInner} (created : Created inner) {state : ManagerState}
    (reached : Reachable (managerStep aead) ⟨inner, []⟩ state) : Honoured aead state := by
  have start : KeysKept aead ⟨inner, []⟩ := ⟨current_of_created created, nofun⟩
  have kept : KeysKept aead state :=
    Run.invariant reached start fun kept _ step => kept.of_step step
  have made : ∀ sealing ∈ state.sealings, sealing.Made aead := by
    intro sealing member
    obtain ⟨minted, there, rfl⟩ := List.mem_map.mp member
    exact (kept.usable minted there).made
  refine ⟨kept.current, fun payload nonce createAt error failed => ?_,
    fun action next step kid key stored => managerStep_keeps_keys step stored,
    fun minted member admissible request short store => ?_⟩
  · cases payload with
    | v1 payload => exact signClaim_error kept.current failed
    | v2 payload => exact signClaim_error kept.current failed
  · have usable : Usable aead { state.inner with store } minted :=
      { kept.usable minted member with }
    exact usable.honoured correct made (List.mem_map_of_mem member) admissible short

/-- A manager with two configured keys. -/
def configuredManager : ClaimManagerInner :=
  .fromKeys ⟨List.replicate 32 0, rfl⟩
    [(3, ⟨List.replicate 32 8, rfl⟩), (1, ⟨List.replicate 32 6, rfl⟩)]

/-- A token is signed, then a new key is added and made current. -/
def rotateOnce : List ManagerAction :=
  signOnce ++ [.addKey 2 ⟨List.replicate 32 9, rfl⟩, .setCurrentKid 2]

theorem minted_honoured_rotated :
    ∃ state minted,
      exec (managerStep (.table 16)) anything ⟨configuredManager, []⟩ rotateOnce = some state ∧
      minted ∈ state.minted ∧ minted.header.kid = 1 ∧ state.inner.currentKid = 2 ∧
      Honoured (.table 16) state :=
  ⟨_, _, rfl, List.mem_singleton_self _, rfl, rfl,
    minted_honoured (IdealAead.correct_table 16) (.fromKeys _ _)
      (@run_of_exec ManagerState _ _ anything ⟨configuredManager, []⟩ _ rotateOnce rfl)⟩

end VideoStorage.Claim
