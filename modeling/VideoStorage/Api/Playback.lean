import VideoStorage.Api.Gateway
import VideoStorage.Api.Naming

/-!
# Playback

A player that was given a token asks for the files of a video: the filename is
that of a file of the conversion in a bucket, and the token stands in the
`Authorization` header. Whatever else the server does meanwhile, keys being
changed, buckets being cleaned up and other requests being under way, the
request of a player whose payload grants the file has one of two ends. It is
answered with the range asked for of what is stored, or it is refused with 429
because all slots of its bucket were taken. It comes to that end after at most
six steps of its own, and until then there is always one it can take
(`played`).
-/

set_option autoImplicit false

namespace VideoStorage.Api

open RustStd Str Path Claim Jobs TransitionSystem Concurrent

/-! ## The token in the header -/

/-- A way to write tokens that is read back, in letters that a header may
hold. -/
structure Encodes (encode : Bytes → Str) (decode : Str → Option Bytes) : Prop where
  decodes : ∀ bytes, decode (encode bytes) = some bytes
  visible : ∀ bytes, ∀ c ∈ encode bytes, 32 ≤ c.toNat ∧ c.toNat < 127

/-- Letters that a header may hold. -/
def allVisible (text : Str) : Bool := text.all fun c => Nat.ble 32 c.toNat && Nat.blt c.toNat 127

theorem visible_of_all {text : Str} (all : allVisible text = true) :
    ∀ c ∈ text, 32 ≤ c.toNat ∧ c.toNat < 127 := by
  intro c member
  have here := List.all_eq_true.mp all c member
  rw [Bool.and_eq_true, Nat.ble_eq, Nat.blt_eq] at here
  exact here

/-- Visible letters are one byte each. -/
theorem utf8_of_visible {text : Str} (visible : ∀ c ∈ text, 32 ≤ c.toNat ∧ c.toNat < 127) :
    utf8 text = text.map fun c => UInt8.ofNat c.toNat := by
  induction text with
  | nil => rfl
  | cons c rest ih =>
      have small : c.toNat < 128 := Nat.lt_succ_of_lt (visible c List.mem_cons_self).2
      have single : c.utf8Size = 1 := by
        have value : c.val ≤ 0x7f := UInt32.le_iff_toNat_le.mpr (Nat.le_of_lt_succ small)
        simp [Char.utf8Size, value]
      have rest' := ih fun d member => visible d (List.mem_cons_of_mem _ member)
      rw [List.map_cons, ← rest', utf8, List.flatMap_cons, String.utf8EncodeChar_eq_singleton single]
      rfl

theorem headerText_utf8 {text : Str} (visible : ∀ c ∈ text, 32 ≤ c.toNat ∧ c.toNat < 127) :
    headerText (utf8 text) = some text := by
  have value : ∀ c ∈ text, (UInt8.ofNat c.toNat).toNat = c.toNat := fun c member =>
    UInt8.toNat_ofNat_of_lt' (Nat.lt_trans (visible c member).2 (by decide))
  unfold headerText
  rw [utf8_of_visible visible, if_pos]
  · refine congrArg some ?_
    rw [List.map_map]
    refine (List.map_congr_left fun c member => ?_).trans (List.map_id text)
    rw [Function.comp_apply, value c member, Char.ofNat_toNat]
    rfl
  · rw [List.all_eq_true]
    intro b member
    obtain ⟨c, here, rfl⟩ := List.mem_map.mp member
    have low : (32 : UInt8) ≤ UInt8.ofNat c.toNat :=
      UInt8.le_iff_toNat_le.mpr (by rw [value c here]; exact (visible c here).1)
    have high : UInt8.ofNat c.toNat < 127 :=
      UInt8.lt_iff_toNat_lt.mpr (by rw [value c here]; exact (visible c here).2)
    simp [low, high]

theorem stripFront_append (front text : Str) : stripFront (front ++ text) front = some text := by
  have begins : front.isPrefixOf (front ++ text) = true :=
    List.isPrefixOf_iff_prefix.mpr (List.prefix_append ..)
  rw [stripFront, if_pos begins, List.drop_left]

/-- The token of a header that a player sends. -/
theorem bearerToken_utf8 {text : Str} (visible : ∀ c ∈ text, 32 ≤ c.toNat ∧ c.toNat < 127) :
    bearerToken (some (utf8 ("Bearer ".toList ++ text))) = some text := by
  have whole : ∀ c ∈ "Bearer ".toList ++ text, 32 ≤ c.toNat ∧ c.toNat < 127 := by
    intro c member
    rcases List.mem_append.mp member with front | back
    · exact visible_of_all rfl c front
    · exact visible c back
  have read := headerText_utf8 whole
  have stripped := stripFront_append "Bearer ".toList text
  simp only [bearerToken, Option.bind_eq_bind, Option.bind_some, read, stripped]

/-- Base64 writes tokens in letters that a header may hold. -/
theorem encodes_base64 : Encodes Base64.encode Base64.decode where
  decodes := Base64.decode_encode
  visible _ c member :=
    have all : allVisible Base64.alphabet = true := rfl
    visible_of_all all c (Base64.mem_alphabet_of_mem_encode member)

/-! ## The request of a player -/

/-- A token that was minted, and a file of a conversion that its payload grants
while it is valid, in a bucket. The range that is asked for fits the file. -/
structure PlayerRequest (server : ExternalServer) where
  minted : Minted
  admissible : minted.payload.Admissible
  lasts : minted.payload.nbfUnix < minted.payload.expUnix
  jobId : Str
  validJob : isValidJobId jobId = true
  bucket : Str
  writable : validateBucketForWrite bucket = .ok ()
  noSign : bucket.head? ≠ some '+'
  built : ∀ defaultBucket build, server.backend = .s3 defaultBucket build → build bucket = true
  file : OutputFile
  narrow : ∀ width, file.width = some width → width.toNat ≤ 65535
  granted : ∀ now reading, minted.payload.nbfUnix ≤ now → now < minted.payload.expUnix →
    Grants minted.payload ⟨jobId, segmentIndex file, widthIndex file, now, reading⟩
  content : Bytes
  small : content.length < UInt64.size
  range : Option Bytes
  fits : rangeFits range (UInt64.ofNat content.length) = true

/-- What is found can be read in a range. -/
def Found.readable (start stop : UInt64) : Found → Bool
  | file stored => stored.opens
  | object stored => (stored.read start stop).isSome

/-- A range of what can be read is served. -/
theorem served_of_readable {header : Option Bytes} {found : Found} {status : StatusCode}
    {start stop : UInt64} (filename : Str)
    (parsed : (parseRange header found.size : Checked Empty _) = .ok (status, start, stop))
    (order : start.toNat ≤ stop.toNat) (readable : found.readable start stop = true) :
    ∃ response,
      (serverFileWithBucket header filename (some found) : Checked Empty _) = .ok response ∧
        response.status = status ∧ ServesRange found start stop response := by
  obtain ⟨inside, code⟩ := parseRange_inside parsed
  obtain ⟨length, value⟩ := @length_of_range Empty found start stop order inside
  obtain ⟨response, ok, serves⟩ := serves_range filename parsed order
  have same : response.status = status := by
    unfold serverFileWithBucket at ok
    simp only [parsed, bind_ok, length] at ok
    cases found with
    | file stored =>
        have opens : stored.opens = true := readable
        simp only [tryServeFromFilesystem, opens, if_true, length, bind_ok] at ok
        cases ok
        rfl
    | object stored =>
        obtain ⟨data, read⟩ := Option.isSome_iff_exists.mp readable
        simp only [tryServeFromS3, read] at ok
        cases ok
        rfl
  exact ⟨response, ok, same, (serves (same ▸ code)).2⟩

namespace PlayerRequest

variable {server : ExternalServer}

/-- What the player sends. -/
def get (request : PlayerRequest server) (encode : Bytes → Str) : VideoGet where
  authorization := some (utf8 ("Bearer ".toList ++ encode request.minted.token))
  filename := requestFilename request.bucket (request.file.path request.jobId)
  range := request.range

/-- Where the server looks for the file. -/
def target (request : PlayerRequest server) : ServeTarget where
  jobId := request.jobId
  key := request.file.path request.jobId
  localPath := join (join server.videosDir request.jobId) (request.file.path request.jobId)
  s3Key := s3Key (request.file.path request.jobId)

/-- The file is stored and can be read. -/
def isStored (request : PlayerRequest server) (stored : VideoStore) : Bool :=
  (findStored stored server.backend
      (requestFilename request.bucket (request.file.path request.jobId)) request.target).any
    fun found => decide (found.content = request.content) &&
      match (parseRange request.range found.size : Checked Empty _) with
      | .ok (_, start, stop) => found.readable start stop
      | .error _ => false

/-- The player asks while the token is valid, and the file is stored when the
request is handled. Everything else may happen. -/
def inTime (request : PlayerRequest server) (i : Nat) : Gateway → GatewayAction → Bool
  | _, .request j (.authorise now _) => decide (j ≠ i) ||
      decide (request.minted.payload.nbfUnix ≤ now ∧ now < request.minted.payload.expUnix)
  | _, .request j (.handle stored) => decide (j ≠ i) || request.isStored stored
  | _, _ => true

/-- The response is the range of the file. -/
def Served (request : PlayerRequest server) (response : FileResponse) : Prop :=
  ∃ found start stop, found.content = request.content ∧
    (parseRange request.range found.size : Checked Empty _) = .ok (response.status, start, stop) ∧
    ServesRange found start stop response

/-! ## What the middleware and the handler do with it -/

section

variable (request : PlayerRequest server) {encode : Bytes → Str}
  (codec : Encodes encode server.decode)

theorem serveVideo_eq :
    serveVideo server.backend server.videosDir
        (requestFilename request.bucket (request.file.path request.jobId)) =
      .ok request.target := by
  have valid := validJobId_of request.validJob
  have writable := writableBucket_of request.writable
  have nonempty : request.file.path request.jobId ≠ [] := by
    intro empty
    have unnamed := (path_named valid request.file).2 []
      (by rw [empty]; exact List.mem_singleton_self _)
    cases unnamed
  have split := splitBucketAndKey_path writable nonempty
  exact serveVideo_path writable request.built split (extractJobIdFromKey_path valid request.file)

include codec in
/-- The middleware lets the request through while the token is valid. -/
theorem authorise_eq (correct : server.aead.Correct tagSize) {state : ManagerState}
    (kept : KeysKept server.aead state) (member : request.minted ∈ state.minted) {now : UInt32}
    (begun : request.minted.payload.nbfUnix ≤ now) (unexpired : now < request.minted.payload.expUnix)
    (reading : UInt64) :
    authorise server.decode server.aead state.sealings state.inner (request.get encode) now
        reading =
      .ok ⟨request.minted.token, ⟨request.jobId, segmentIndex request.file,
        widthIndex request.file, now, reading⟩, request.minted.header.bucketKey,
        ⟨request.minted.payload.limits, request.minted.payload.expUnix⟩⟩ := by
  have bearer := bearerToken_utf8 (codec.visible request.minted.token)
  have parsed := parseVideoFilename_path (validJobId_of request.validJob)
    (writableBucket_of request.writable) request.noSign request.narrow
  have made : ∀ sealing ∈ state.sealings, sealing.Made server.aead := by
    intro sealing there
    obtain ⟨minted, inside, rfl⟩ := List.mem_map.mp there
    exact (kept.usable minted inside).made
  have usable := kept.usable _ member
  have opened := openToken_minted correct made usable (List.mem_map_of_mem member)
  have short : (utf8 request.jobId).length ≤ 240 := by
    have valid := request.validJob
    simp only [isValidJobId, Bool.and_eq_true, decide_eq_true_eq] at valid
    exact Nat.le_trans valid.2 (by decide)
  have checked := (verifyPayload_serialized usable.message request.admissible short).1
    (request.granted now reading begun unexpired)
  rw [← usable.version] at checked
  simp only [authorise, get, bearer, okOr, bind_ok, parsed, checkToken, codec.decodes, opened,
    checked]
  rfl

/-- A file that is stored is served. -/
theorem handleGet_eq {stored : VideoStore} (there : request.isStored stored = true) :
    ∃ response, handleGet server (request.get encode) stored = .ok response ∧
      request.Served response := by
  unfold isStored at there
  obtain ⟨found, here, holds⟩ := (Option.any_eq_true ..).mp there
  rw [Bool.and_eq_true, decide_eq_true_eq] at holds
  obtain ⟨content, readable⟩ := holds
  have size : found.size = UInt64.ofNat request.content.length := by rw [Found.size, content]
  obtain ⟨status, start, stop, parsed, order⟩ :=
    (rangeFits_iff request.range found.size).mp (size ▸ request.fits)
  rw [parsed] at readable
  obtain ⟨response, ok, same, serves⟩ :=
    served_of_readable (request.file.path request.jobId) parsed order readable
  refine ⟨response, ?_, found, start, stop, content, same ▸ parsed, serves⟩
  unfold handleGet
  simp only [get, request.serveVideo_eq]
  rw [here]
  exact ok

end

end PlayerRequest

/-! ## Every request comes to its end -/

/-- The steps of its own that are left of a connection. -/
def connectionLeft : Phase → Nat
  | .arrived => 6
  | .missed => 5
  | .verified _ => 4
  | .admitted _ _ => 3
  | .handling _ _ => 2
  | .streaming _ => 1
  | .finished => 0
  | .rejected => 0

namespace GetPhase

/-- The steps of its own that are left of a request. -/
def left : GetPhase → Nat
  | arrived => 7
  | connected _ connection => connectionLeft connection.phase
  | answered _ connection _ _ => connectionLeft connection.phase
  | refused _ => 0
  | panicked => 0

/-- The request was answered or refused, or it panicked. -/
def isOver : GetPhase → Bool
  | arrived => false
  | connected _ _ => false
  | _ => true

end GetPhase

/-- A step of a connection leaves less. -/
theorem connectionLeft_lt {terms : BucketKey → BucketTerms} {shared next : Shared}
    {connection connection' : Request} {action : RequestAction}
    (step : RequestStep terms shared connection action next connection') :
    connectionLeft connection'.phase < connectionLeft connection.phase := by
  cases step with
  | hit reading phase found =>
      rw [phase]
      exact (by decide : 4 < 6)
  | miss reading phase absent =>
      rw [phase]
      exact Nat.lt_succ_self 5
  | create reading phase =>
      rw [phase]
      exact Nat.lt_succ_self 4
  | admitted phase acquired =>
      rw [phase]
      exact Nat.lt_succ_self 3
  | reject phase =>
      rw [phase]
      exact (by decide : 0 < 4)
  | touch reading phase =>
      rw [phase]
      exact Nat.lt_succ_self 2
  | respond phase =>
      rw [phase]
      exact Nat.lt_succ_self 1
  | sent phase =>
      rw [phase]
      exact Nat.lt_succ_self 0

/-- A step of a request leaves less. -/
theorem left_lt_of_getStep {server : ExternalServer} {state next : ManagerState}
    {process process' : GetProcess} (step : GetStep server state process next process') :
    process'.phase.left < process.phase.left := by
  cases step with
  | authorised phase ok =>
      rw [phase]
      exact Nat.lt_succ_self 6
  | refused phase failed =>
      rw [phase]
      exact Nat.zero_lt_succ 6
  | panicked phase failed =>
      rw [phase]
      exact Nat.zero_lt_succ 6
  | bucket phase moved =>
      have less := connectionLeft_lt moved
      rw [phase]
      dsimp only
      unfold afterBucket
      split
      · exact Nat.zero_lt_of_lt less
      · exact less
  | answered phase moved ok =>
      rw [phase]
      exact connectionLeft_lt moved
  | dropped phase moved =>
      rw [phase]
      exact Nat.zero_lt_of_lt (connectionLeft_lt moved)
  | sent phase moved =>
      rw [phase]
      exact connectionLeft_lt moved

/-! ## What the server keeps -/

/-- The map leads to cells there are. -/
def MapInStore (store : BucketStore) : Prop :=
  ∀ key cell, store.buckets key = some cell → cell < store.cells.length

theorem MapInStore.of_frame {shared next : Shared} {connection connection' : Request}
    (inStore : MapInStore shared.store) (frame : Frame shared next connection connection') :
    MapInStore next.store := by
  intro key cell here
  by_cases own : key = connection.key
  · subst own
    rcases frame.own with same | ⟨inserted, longer⟩
    · exact Nat.lt_of_lt_of_le (inStore _ cell (same ▸ here)) frame.grows
    · cases inserted.symm.trans here
      exact longer
  · exact Nat.lt_of_lt_of_le (inStore key cell (frame.others key own ▸ here)) frame.grows

theorem mapInStore_getOrCreateBucket {store : BucketStore} (inStore : MapInStore store)
    (key : BucketKey) (terms : BucketTerms) (reading : UInt64) :
    MapInStore (store.getOrCreateBucket key terms reading).2 := by
  intro other cell here
  unfold BucketStore.getOrCreateBucket at here ⊢
  split at here
  · exact (BucketStore.length_touch ..).symm ▸ inStore other cell here
  · rw [BucketStore.length_createBucket]
    by_cases same : other = key
    · subst same
      cases (Function.update_self ..).symm.trans here
      exact Nat.lt_succ_self _
    · exact Nat.lt_succ_of_lt (inStore other cell ((Function.update_of_ne same ..).symm.trans here))

theorem mapInStore_of_managerStep {aead : Cipher} {state next : ManagerState}
    {action : Claim.ManagerAction} (inStore : MapInStore state.inner.store)
    (step : managerStep aead state action = some next) : MapInStore next.inner.store := by
  cases action with
  | sign payload nonce createAt =>
      simp only [managerStep] at step
      split at step <;> cases step <;> exact inStore
  | addKey kid key =>
      simp only [managerStep] at step
      split at step <;> cases step
      · rename_i inner ok
        obtain ⟨-, rfl⟩ := addKey_ok ok
        exact inStore
      · exact inStore
  | setCurrentKid kid =>
      simp only [managerStep] at step
      split at step <;> cases step
      · rename_i inner ok
        obtain ⟨-, rfl⟩ := setCurrentKid_ok ok
        exact inStore
      · exact inStore
  | verify token request =>
      cases step
      dsimp only
      unfold verifyClaim admission
      split
      · exact inStore
      · split
        · exact inStore
        · rename_i terms _
          exact mapInStore_getOrCreateBucket inStore _ terms _
  | touch key reading =>
      cases step
      intro other cell here
      dsimp only at here ⊢
      rw [BucketStore.buckets_touchBucket] at here
      rw [BucketStore.length_touchBucket]
      exact inStore other cell here
  | cleanup nowMs nowUnix =>
      cases step
      intro other cell here
      rcases BucketStore.buckets_cleanupExpired state.inner.store nowMs nowUnix other with same | gone
      · exact inStore other cell (same ▸ here)
      · cases gone.symm.trans here

/-- Every token can be opened, the map leads to cells there are, and slots are
neither lost nor doubled. -/
structure ServerKept (server : ExternalServer) (s : Gateway) : Prop where
  keys : KeysKept server.aead s.shared
  map : MapInStore s.shared.inner.store
  slots : SlotsKept s

/-- A request changes only the buckets. -/
theorem keysKept_of_getStep {server : ExternalServer} {state next : ManagerState}
    {process process' : GetProcess} (kept : KeysKept server.aead state)
    (step : GetStep server state process next process') : KeysKept server.aead next := by
  have same : next.inner.keys = state.inner.keys ∧ next.inner.currentKid = state.inner.currentKid ∧
      next.minted = state.minted := by
    cases step <;> exact ⟨rfl, rfl, rfl⟩
  obtain ⟨keys, current, minted⟩ := same
  refine ⟨?_, fun other member => ?_⟩
  · rw [keys, current]
    exact kept.current
  · rw [minted] at member
    have usable := kept.usable other member
    exact { usable with stored := by rw [keys]; exact usable.stored }

theorem mapInStore_of_getStep {server : ExternalServer} {state next : ManagerState}
    {process process' : GetProcess} (inStore : MapInStore state.inner.store)
    (step : GetStep server state process next process') : MapInStore next.inner.store := by
  cases step with
  | authorised phase ok => exact inStore
  | refused phase failed => exact inStore
  | panicked phase failed => exact inStore
  | bucket phase moved => exact MapInStore.of_frame inStore (frame_of_step moved)
  | answered phase moved ok => exact MapInStore.of_frame inStore (frame_of_step moved)
  | dropped phase moved => exact MapInStore.of_frame inStore (frame_of_step moved)
  | sent phase moved => exact MapInStore.of_frame inStore (frame_of_step moved)

theorem ServerKept.step {server : ExternalServer} {s t : Gateway} {action : GatewayAction}
    (kept : ServerKept server s) (step : gatewayStep server s action = some t) :
    ServerKept server t := by
  have slots := slotsKept_step kept.slots step
  cases action with
  | arrive get =>
      cases step
      exact ⟨kept.keys, kept.map, slots⟩
  | request i action =>
      obtain ⟨process, process', next, found, moved, rfl⟩ := act_eq_some step
      have moved := getStep_cases moved
      exact ⟨keysKept_of_getStep kept.keys moved, mapInStore_of_getStep kept.map moved, slots⟩
  | manager action =>
      obtain ⟨state, moved, rfl⟩ := Option.map_eq_some_iff.mp step
      exact ⟨kept.keys.of_step moved, mapInStore_of_managerStep kept.map moved, slots⟩

theorem store_of_created {inner : ClaimManagerInner} (created : Created inner) :
    inner.store = .empty := by
  cases created with
  | withKey kid key => rfl
  | fromKeys generated keys => cases keys <;> rfl

theorem ServerKept.start (server : ExternalServer) {inner : ClaimManagerInner}
    (created : Created inner) : ServerKept server (gatewayStart inner) := by
  have empty := store_of_created created
  refine ⟨⟨current_of_created created, fun _ member => absurd member List.not_mem_nil⟩,
    fun key cell here => ?_, fun _ member => absurd member List.not_mem_nil,
    fun cell limit free here => ?_⟩
  · rw [gatewayStart, empty] at here
    cases here
  · rw [gatewayStart, empty] at here
    cases here

/-! ## Steps of a connection -/

/-- The connection has a bucket, or is about to get one, and its body is not sent
yet. -/
def isUnderway : Phase → Bool
  | .arrived | .missed | .verified _ | .admitted _ _ | .handling _ _ => true
  | .streaming _ | .finished | .rejected => false

theorem isUnderway_iff (phase : Phase) : isUnderway phase = true ↔ 1 < connectionLeft phase := by
  cases phase <;> simp [isUnderway, connectionLeft]

/-- The step comes before the answer. -/
def isEarly : RequestAction → Bool
  | .lookup _ | .create _ | .acquire | .touch _ => true
  | .respond | .sent => false

/-- A bucket that refuses has a limit and no free slot. -/
theorem slots_of_refused {store : BucketStore} {cell : Nat} {error : String}
    (refused : store.tryAcquireConnection cell = .error error)
    (inStore : cell < store.cells.length) :
    ∃ limit, limit ≠ 0 ∧ store.slots cell = some (limit, 0) := by
  obtain ⟨bucket, found⟩ : ∃ bucket, store.cells[cell]? = some bucket :=
    ⟨_, List.getElem?_eq_getElem inStore⟩
  unfold BucketStore.tryAcquireConnection at refused
  rw [found] at refused
  dsimp only at refused
  split at refused
  · cases refused
  · rename_i limited
    split at refused
    · rename_i none
      exact ⟨bucket.maxConcurrency, limited, by rw [BucketStore.slots, found, Option.map_some, none]⟩
    · cases refused

section Connections

variable {terms : BucketKey → BucketTerms} {shared next : Shared}
  {connection connection' : Request} {action : RequestAction}

/-- A connection is rejected by its bucket. -/
theorem refused_of_rejected
    (step : requestStep terms shared connection action = some (next, connection'))
    (rejected : connection'.phase = .rejected) :
    ∃ cell error, connection.phase = .verified cell ∧
      shared.store.tryAcquireConnection cell = .error error := by
  cases action with
  | acquire =>
      simp only [requestStep] at step
      split at step
      · rename_i cell phase
        split at step
        · cases step
          cases rejected
        · rename_i error refused
          exact ⟨cell, error, phase, refused⟩
      · cases step
  | lookup reading => cases requestStep_cases step <;> cases rejected
  | create reading =>
      cases requestStep_cases step
      cases rejected
  | touch reading =>
      cases requestStep_cases step
      cases rejected
  | respond =>
      cases requestStep_cases step
      cases rejected
  | sent =>
      cases requestStep_cases step
      cases rejected

/-- Before the handler answers, a connection that is not rejected is under way. -/
theorem isUnderway_of_step
    (step : RequestStep terms shared connection action next connection')
    (early : isEarly action = true) (kept : connection'.phase ≠ .rejected) :
    isUnderway connection'.phase = true := by
  cases step with
  | hit reading phase found => rfl
  | miss reading phase absent => rfl
  | create reading phase => rfl
  | admitted phase acquired => rfl
  | reject phase => exact absurd rfl kept
  | touch reading phase => rfl
  | respond phase => cases early
  | sent phase => cases early

end Connections

/-! ## The ends of a request -/

namespace PlayerRequest

variable {server : ExternalServer}

/-- The request found all slots of its bucket taken. -/
def FoundFull (request : PlayerRequest server) (encode : Bytes → Str) (i : Nat) (u : Gateway) :
    Prop :=
  ∃ verified connection cell limit,
    u.processes[i]? = some ⟨request.get encode, .connected verified connection⟩ ∧
      connection.phase = .verified cell ∧ limit ≠ 0 ∧
      u.shared.inner.store.slots cell = some (limit, 0) ∧ holders cell u = limit.toNat

/-- What becomes of the request. -/
inductive Outcome (request : PlayerRequest server) (store : BucketStore) (wasFull : Prop) :
    GetPhase → Prop where
  | arrived : Outcome request store wasFull .arrived
  | underway {verified : Verified} {connection : Request}
      (busy : isUnderway connection.phase = true)
      (inStore : ∀ cell, connection.phase.cell = some cell → cell < store.cells.length) :
      Outcome request store wasFull (.connected verified connection)
  | denied (full : wasFull) : Outcome request store wasFull (.refused tooManyConnections)
  | answered {verified : Verified} {connection : Request} {stored : VideoStore}
      {response : FileResponse} (gone : connectionLeft connection.phase ≤ 1)
      (served : request.Served response) :
      Outcome request store wasFull (.answered verified connection stored response)

theorem Outcome.grow {request : PlayerRequest server} {store next : BucketStore}
    {wasFull isFull : Prop} {phase : GetPhase} (outcome : Outcome request store wasFull phase)
    (grows : store.cells.length ≤ next.cells.length) (later : wasFull → isFull) :
    Outcome request next isFull phase := by
  cases outcome with
  | arrived => exact .arrived
  | underway busy inStore =>
      exact .underway busy fun cell here => Nat.lt_of_lt_of_le (inStore cell here) grows
  | denied full => exact .denied (later full)
  | answered gone served => exact .answered gone served

/-- A request is over when at most the end of its body is left. -/
theorem Outcome.isOver_iff {request : PlayerRequest server} {store : BucketStore} {wasFull : Prop}
    {phase : GetPhase} (outcome : Outcome request store wasFull phase) :
    phase.isOver = true ↔ phase.left ≤ 1 := by
  cases outcome with
  | arrived => exact iff_of_false Bool.false_ne_true (by decide)
  | underway busy inStore =>
      exact iff_of_false Bool.false_ne_true (Nat.not_le.mpr ((isUnderway_iff _).mp busy))
  | denied full => exact iff_of_true rfl (Nat.zero_le _)
  | answered gone served => exact iff_of_true rfl gone

section Steps

variable {request : PlayerRequest server} {encode : Bytes → Str} {state next : ManagerState}
  {process' : GetProcess} {wasFull isFull : Prop}

/-- A step on the bucket map keeps the connection under way, or finds no free
slot. -/
theorem outcome_connectionPhase {phase : GetPhase} (action : RequestAction)
    (inStore : MapInStore state.inner.store)
    (outcome : Outcome request state.inner.store wasFull phase)
    (early : isEarly action = true)
    (taken : ∀ verified connection cell limit, phase = .connected verified connection →
      connection.phase = .verified cell → limit ≠ 0 →
      state.inner.store.slots cell = some (limit, 0) →
      process' = ⟨request.get encode, .refused tooManyConnections⟩ → isFull)
    (step : connectionPhase state ⟨request.get encode, phase⟩ action = some (next, process')) :
    ∃ phase', process' = ⟨request.get encode, phase'⟩ ∧
      Outcome request next.inner.store isFull phase' := by
  unfold connectionPhase at step
  split at step
  · rename_i verified connection same
    obtain rfl : phase = .connected verified connection := same
    obtain ⟨⟨store, connection'⟩, moved, here⟩ := Option.bind_eq_some_iff.mp step
    cases here
    obtain ⟨⟨shared, after⟩, stepped, pair⟩ := Option.map_eq_some_iff.mp moved
    cases pair
    have frame := frame_of_step (requestStep_cases stepped)
    cases outcome with
    | underway busy before =>
        refine ⟨_, rfl, ?_⟩
        rw [afterBucket]
        split
        · rename_i rejected
          obtain ⟨cell, error, at_, refused⟩ := refused_of_rejected stepped rejected
          obtain ⟨limit, limited, full⟩ :=
            slots_of_refused refused (before cell (by rw [at_]; rfl))
          have refusal : afterBucket verified after = .refused tooManyConnections := if_pos rejected
          exact .denied (taken verified connection cell limit rfl at_ limited full
            (congrArg _ refusal))
        · rename_i kept
          refine .underway (isUnderway_of_step (requestStep_cases stepped) early kept)
            fun cell here => ?_
          rcases frame.cell cell here with old | inMap | ⟨rfl, longer⟩
          · exact Nat.lt_of_lt_of_le (before cell old) frame.grows
          · exact Nat.lt_of_lt_of_le (inStore _ cell inMap) frame.grows
          · exact longer
  · cases step

/-- A step of the request leads to one of its ends, or towards them. -/
theorem outcome_getStep {s : Gateway} {i : Nat} {phase : GetPhase} {action : GetAction}
    (codec : Encodes encode server.decode) (correct : server.aead.Correct tagSize)
    (kept : ServerKept server s) (member : request.minted ∈ s.shared.minted)
    (outcome : Outcome request s.shared.inner.store wasFull phase)
    (allowed : request.inTime i s (.request i action) = true)
    (taken : ∀ verified connection cell limit, phase = .connected verified connection →
      connection.phase = .verified cell → limit ≠ 0 →
      s.shared.inner.store.slots cell = some (limit, 0) →
      process' = ⟨request.get encode, .refused tooManyConnections⟩ → isFull)
    (step : getStep server s.shared ⟨request.get encode, phase⟩ action = some (next, process')) :
    ∃ phase', process' = ⟨request.get encode, phase'⟩ ∧
      Outcome request next.inner.store isFull phase' := by
  cases action with
  | authorise now reading =>
      have within : request.minted.payload.nbfUnix ≤ now ∧
          now < request.minted.payload.expUnix := by
        simpa [inTime] using allowed
      have lets := request.authorise_eq codec correct kept.keys member within.1 within.2 reading
      simp only [getStep] at step
      split at step
      · rw [lets] at step
        cases step
        exact ⟨_, rfl, .underway rfl fun _ here => by cases here⟩
      · cases step
  | lookup reading =>
      exact outcome_connectionPhase (.lookup reading) kept.map outcome rfl taken step
  | create reading =>
      exact outcome_connectionPhase (.create reading) kept.map outcome rfl taken step
  | acquire => exact outcome_connectionPhase .acquire kept.map outcome rfl taken step
  | touch reading =>
      exact outcome_connectionPhase (.touch reading) kept.map outcome rfl taken step
  | handle stored =>
      have there : request.isStored stored = true := by simpa [inTime] using allowed
      obtain ⟨response, ok, served⟩ := @handleGet_eq server request encode stored there
      simp only [getStep] at step
      split at step
      · obtain ⟨⟨store, connection'⟩, moved, here⟩ := Option.bind_eq_some_iff.mp step
        rw [ok] at here
        cases here
        obtain ⟨shared, rfl, stepped⟩ := bucketStep_ok moved
        refine ⟨_, rfl, .answered ?_ served⟩
        cases stepped
        exact Nat.le_refl 1
      · cases step
  | sent =>
      simp only [getStep] at step
      split at step
      · obtain ⟨⟨store, connection'⟩, moved, here⟩ := Option.bind_eq_some_iff.mp step
        cases here
        obtain ⟨shared, rfl, stepped⟩ := bucketStep_ok moved
        cases outcome with
        | answered gone served =>
            exact ⟨_, rfl, .answered (Nat.le_trans (Nat.le_of_lt (connectionLeft_lt stepped)) gone)
              served⟩
      · cases step

end Steps

/-! ## There is always a step -/

/-- What is stored when the file is on disk. -/
def onDisk (request : PlayerRequest server) : VideoStore where
  file _ := some ⟨request.content, request.small, true⟩
  object _ _ := none

theorem isStored_onDisk (request : PlayerRequest server) :
    request.isStored request.onDisk = true := by
  obtain ⟨status, start, stop, parsed, -⟩ :=
    (@rangeFits_iff Empty request.range (UInt64.ofNat request.content.length)).mp request.fits
  refine (Option.any_eq_true ..).mpr ⟨.file ⟨request.content, request.small, true⟩, rfl, ?_⟩
  have size : Found.size (.file ⟨request.content, request.small, true⟩) =
      UInt64.ofNat request.content.length := rfl
  rw [size, parsed, Bool.and_eq_true]
  exact ⟨decide_eq_true rfl, rfl⟩

/-- A request that is not over can take a step of its own. -/
theorem exists_step (request : PlayerRequest server) {encode : Bytes → Str} {i : Nat} {s : Gateway}
    {phase : GetPhase} {wasFull : Prop}
    (there : s.processes[i]? = some ⟨request.get encode, phase⟩)
    (outcome : Outcome request s.shared.inner.store wasFull phase) (going : phase.isOver = false) :
    ∃ action t, request.inTime i s (.request i action) = true ∧
      gatewayStep server s (.request i action) = some t := by
  have steps : ∀ action, request.inTime i s (.request i action) = true →
      (getStep server s.shared ⟨request.get encode, phase⟩ action).isSome = true →
      ∃ action t, request.inTime i s (.request i action) = true ∧
        gatewayStep server s (.request i action) = some t := by
    intro action within moves
    obtain ⟨⟨next, process'⟩, moved⟩ := Option.isSome_iff_exists.mp moves
    exact ⟨action, _, within, act_of_step there moved⟩
  cases outcome with
  | arrived =>
      refine steps (.authorise request.minted.payload.nbfUnix 0)
        (by simp [inTime, request.lasts]) ?_
      simp only [getStep]
      split <;> rfl
  | underway busy inStore =>
      rename_i verified connection
      have bucket : ∀ action, (requestStep (fun _ => verified.terms)
            ⟨s.shared.inner.store, fun _ => 0⟩ connection action).isSome = true →
          (connectionPhase s.shared ⟨request.get encode, .connected verified connection⟩
            action).isSome = true := by
        intro action moves
        obtain ⟨result, moved⟩ := Option.isSome_iff_exists.mp moves
        simp only [connectionPhase, bucketStep, moved, Option.map_some]
        rfl
      cases phase : connection.phase with
      | arrived =>
          refine steps (.lookup 0) rfl (bucket (.lookup 0) ?_)
          simp only [requestStep, phase]
          split <;> rfl
      | missed =>
          refine steps (.create 0) rfl (bucket (.create 0) ?_)
          simp only [requestStep, phase]
          rfl
      | verified cell =>
          refine steps .acquire rfl (bucket .acquire ?_)
          simp only [requestStep, phase]
          split <;> rfl
      | admitted cell permit =>
          refine steps (.touch 0) rfl (bucket (.touch 0) ?_)
          simp only [requestStep, phase]
          rfl
      | handling cell permit =>
          refine steps (.handle request.onDisk) (by simp [inTime, request.isStored_onDisk]) ?_
          simp only [getStep, bucketStep, requestStep, phase]
          rfl
      | streaming cell =>
          rw [phase] at busy
          cases busy
      | finished =>
          rw [phase] at busy
          cases busy
      | rejected =>
          rw [phase] at busy
          cases busy
  | denied full => cases going
  | answered gone served => cases going

/-! ## Runs -/

/-- The steps that request `i` takes. -/
def ownSteps (i : Nat) (actions : List GatewayAction) : Nat :=
  actions.countP fun action => match action with
    | .request j _ => decide (j = i)
    | _ => false

/-- Among the actions taken is the step of the request that refused it with 429, and when that
step was taken all slots of its bucket were held. -/
def WasFull (request : PlayerRequest server) (encode : Bytes → Str) (i : Nat) (start : Gateway)
    (actions : List GatewayAction) : Prop :=
  ∃ before own after u v, actions = before ++ .request i own :: after ∧
    exec (gatewayStep server) (request.inTime i) start before = some u ∧
    request.FoundFull encode i u ∧ gatewayStep server u (.request i own) = some v ∧
    v.processes[i]? = some ⟨request.get encode, .refused tooManyConnections⟩

theorem WasFull.append {request : PlayerRequest server} {encode : Bytes → Str} {i : Nat}
    {start : Gateway} {actions : List GatewayAction} (full : request.WasFull encode i start actions)
    (more : List GatewayAction) : request.WasFull encode i start (actions ++ more) := by
  obtain ⟨before, own, after, u, v, rfl, came, found, step, refused⟩ := full
  exact ⟨before, own, after ++ more, u, v, List.append_assoc .., came, found, step, refused⟩

/-- A run of the server, from the arrival of the request on. -/
structure Playing (request : PlayerRequest server) (encode : Bytes → Str) (i : Nat)
    (start : Gateway) (past : List GatewayAction) (s : Gateway) : Prop where
  kept : ServerKept server s
  minted : request.minted ∈ s.shared.minted
  came : exec (gatewayStep server) (request.inTime i) start past = some s
  there : ∃ phase, s.processes[i]? = some ⟨request.get encode, phase⟩ ∧
    request.Outcome s.shared.inner.store (request.WasFull encode i start past) phase ∧
      phase.left + ownSteps i past ≤ 7

theorem ownSteps_concat (i : Nat) (past : List GatewayAction) (action : GatewayAction) :
    ownSteps i (past ++ [action]) = ownSteps i past + ownSteps i [action] :=
  List.countP_append

theorem grows_of_getStep {state next : ManagerState} {process process' : GetProcess}
    (step : GetStep server state process next process') :
    state.inner.store.cells.length ≤ next.inner.store.cells.length := by
  cases step with
  | authorised phase ok => exact Nat.le_refl _
  | refused phase failed => exact Nat.le_refl _
  | panicked phase failed => exact Nat.le_refl _
  | bucket phase moved => exact (frame_of_step moved).grows
  | answered phase moved ok => exact (frame_of_step moved).grows
  | dropped phase moved => exact (frame_of_step moved).grows
  | sent phase moved => exact (frame_of_step moved).grows

section Playing

variable {request : PlayerRequest server} {encode : Bytes → Str} {i : Nat}
  {past : List GatewayAction} {start s t : Gateway} {action : GatewayAction}

/-- A step of the request itself. -/
theorem Playing.own_step {own : GetAction} (codec : Encodes encode server.decode)
    (correct : server.aead.Correct tagSize) (playing : request.Playing encode i start past s)
    (allowed : request.inTime i s (.request i own) = true)
    (step : gatewayStep server s (.request i own) = some t) :
    ∃ phase, t.processes[i]? = some ⟨request.get encode, phase⟩ ∧
      request.Outcome t.shared.inner.store
        (request.WasFull encode i start (past ++ [.request i own])) phase ∧
        phase.left + (ownSteps i past + 1) ≤ 7 := by
  obtain ⟨phase, there, outcome, few⟩ := playing.there
  obtain ⟨process, process', next, found, moved, after⟩ := act_eq_some step
  obtain rfl := Option.some.inj (there.symm.trans found)
  have here : t.processes[i]? = some process' := by
    rw [after]
    exact List.getElem?_set_self (List.getElem?_eq_some_iff.mp found).1
  have taken : ∀ verified connection cell limit, phase = .connected verified connection →
      connection.phase = .verified cell → limit ≠ 0 →
      s.shared.inner.store.slots cell = some (limit, 0) →
      process' = ⟨request.get encode, .refused tooManyConnections⟩ →
      request.WasFull encode i start (past ++ [.request i own]) := by
    rintro verified connection cell limit rfl at_ limited full refused
    have balance := playing.kept.slots.slots cell limit 0 full
    rw [Nat.zero_add] at balance
    exact ⟨past, own, [], s, t, rfl, playing.came,
      ⟨verified, connection, cell, limit, there, at_, limited, full, balance⟩, step, refused ▸ here⟩
  obtain ⟨phase', rfl, outcome'⟩ := request.outcome_getStep codec correct playing.kept
    playing.minted outcome allowed taken moved
  have less := left_lt_of_getStep (getStep_cases moved)
  subst after
  refine ⟨phase', here, outcome', ?_⟩
  dsimp only at less
  omega

/-- A step of anybody. -/
theorem Playing.step (codec : Encodes encode server.decode)
    (correct : server.aead.Correct tagSize) (playing : request.Playing encode i start past s)
    (allowed : request.inTime i s action = true) (step : gatewayStep server s action = some t) :
    request.Playing encode i start (past ++ [action]) t := by
  have came := exec_concat playing.came allowed step
  have kept := playing.kept.step step
  have later (full : request.WasFull encode i start past) := full.append [action]
  cases action with
  | arrive get =>
      obtain ⟨phase, there, outcome, few⟩ := playing.there
      cases step
      refine ⟨kept, playing.minted, came, phase, ?_, outcome.grow (Nat.le_refl _) later, ?_⟩
      · exact (List.getElem?_append_left (List.getElem?_eq_some_iff.mp there).1).trans there
      · rwa [ownSteps_concat]
  | request j action =>
      have minted : request.minted ∈ t.shared.minted := by
        obtain ⟨process, process', next, found, moved, rfl⟩ := act_eq_some step
        have same := minted_of_getStep (getStep_cases moved)
        exact same.symm ▸ playing.minted
      by_cases mine : j = i
      · subst mine
        have one : ownSteps j [GatewayAction.request j action] = 1 := by simp [ownSteps]
        have ownStep := playing.own_step codec correct allowed step
        rw [← one, ← ownSteps_concat] at ownStep
        exact ⟨kept, minted, came, ownStep⟩
      · have none : ownSteps i [GatewayAction.request j action] = 0 := by simp [ownSteps, mine]
        obtain ⟨phase, there, outcome, few⟩ := playing.there
        obtain ⟨process, process', next, found, moved, rfl⟩ := act_eq_some step
        refine ⟨kept, minted, came, phase, (List.getElem?_set_ne mine).trans there,
          outcome.grow (grows_of_getStep (getStep_cases moved)) later, ?_⟩
        rwa [ownSteps_concat, none]
  | manager action =>
      obtain ⟨phase, there, outcome, few⟩ := playing.there
      obtain ⟨state, moved, rfl⟩ := Option.map_eq_some_iff.mp step
      refine ⟨kept, minted_of_managerStep moved playing.minted, came, phase, there,
        outcome.grow (sameSlots_of_managerStep moved).grows later, ?_⟩
      rwa [ownSteps_concat]

end Playing

/-- Where the request is after some steps of its own. It is on the way to one of
its two ends, which it has reached after six steps, and until then it can take a
step. -/
structure Plays (request : PlayerRequest server) (encode : Bytes → Str) (i : Nat)
    (start s : Gateway) (actions : List GatewayAction) (phase : GetPhase) : Prop where
  there : s.processes[i]? = some ⟨request.get encode, phase⟩
  outcome : request.Outcome s.shared.inner.store (request.WasFull encode i start actions) phase
  ends : 6 ≤ ownSteps i actions → phase.isOver = true
  goesOn : phase.isOver = false → ∃ action t, request.inTime i s (.request i action) = true ∧
    gatewayStep server s (.request i action) = some t

end PlayerRequest

/-- **Playback.** From every state the server reaches, in every run in which the
player asks in time and the file is stored, the request of a player is answered
with its range of the file, or refused by a step at which all slots were taken. -/
theorem played {server : ExternalServer} {encode : Bytes → Str}
    (codec : Encodes encode server.decode) (correct : server.aead.Correct tagSize)
    {inner : ClaimManagerInner} (created : Created inner) {start s : Gateway}
    (reached : Reachable (gatewayStep server) (gatewayStart inner) start)
    (request : PlayerRequest server) (member : request.minted ∈ start.shared.minted) {i : Nat}
    (there : start.processes[i]? = some ⟨request.get encode, .arrived⟩)
    {actions : List GatewayAction}
    (ran : exec (gatewayStep server) (request.inTime i) start actions = some s) :
    ∃ phase, request.Plays encode i start s actions phase := by
  have kept : ServerKept server start :=
    Run.invariant reached (.start server created) fun kept _ step => kept.step step
  have begins : request.Playing encode i start [] start :=
    ⟨kept, member, rfl, .arrived, there, .arrived, Nat.le_refl 7⟩
  have playing : request.Playing encode i start ([] ++ actions) s :=
    exec_invariant ran begins fun playing allowed step => playing.step codec correct allowed step
  rw [List.nil_append] at playing
  obtain ⟨phase, here, outcome, few⟩ := playing.there
  refine ⟨phase, here, outcome, fun enough => ?_, fun going => ?_⟩
  · exact outcome.isOver_iff.mpr (by omega)
  · exact request.exists_step here outcome going

/-- The key of a manager with one key, and the nonce of a token. -/
def playKey : CipherKey := ⟨List.replicate 32 21, rfl⟩

def playNonce : CipherNonce := ⟨List.replicate 12 22, rfl⟩

/-- The token of one video. -/
def demoMinted : Minted where
  header := .new 1 algAes256Gcm 1 playNonce 5
  key := playKey
  message := [9, 0, 0, 0, 1, 0, 0, 0, 4] ++ utf8 "demo".toList ++ [60, 0, 160, 15, 2, 0, 0]
  ciphertext := [9, 0, 0, 0, 1, 0, 0, 0, 4] ++ utf8 "demo".toList ++ [60, 0, 160, 15, 2, 0, 0] ++
    List.replicate 16 0
  payload := .v1 ⟨⟨60, 4000, 2, []⟩, 9, 1, "demo".toList⟩

/-- The master playlist of the video. -/
def demoRequest : PlayerRequest demoServer where
  minted := demoMinted
  admissible := trivial
  lasts := by decide
  jobId := "demo".toList
  validJob := by decide
  bucket := "media".toList
  writable := rfl
  noSign := by decide
  built _ _ same := by cases same
  file := .master
  narrow _ same := by cases same
  granted _ _ begun unexpired := by
    refine ⟨begun, unexpired, rfl, ?_, ?_⟩ <;>
    · intro _ same
      cases same
  content := tenBytes.content
  small := tenBytes.small
  range := none
  fits := by decide

/-- The token is minted, and the player asks. -/
def askOnce : List GatewayAction :=
  [.manager (.sign demoMinted.payload playNonce 5), .arrive (demoRequest.get Base64.encode)]

def demoAsked : Gateway :=
  ⟨⟨.withKey 1 playKey, [demoMinted]⟩, [⟨demoRequest.get Base64.encode, .arrived⟩]⟩

set_option maxRecDepth 10000 in
/-- The playlist is answered after six steps. -/
theorem played_demo : ∃ s phase,
    exec (gatewayStep demoServer) (demoRequest.inTime 0) demoAsked (playOnce.drop 2) = some s ∧
      demoRequest.Plays Base64.encode 0 demoAsked s (playOnce.drop 2) phase := by
  have asked : exec (gatewayStep demoServer) anything (gatewayStart (.withKey 1 playKey)) askOnce =
      some demoAsked := rfl
  obtain ⟨s, ran⟩ : ∃ s, exec (gatewayStep demoServer) (demoRequest.inTime 0) demoAsked
      (playOnce.drop 2) = some s := Option.isSome_iff_exists.mp rfl
  obtain ⟨phase, plays⟩ := played encodes_base64 (IdealAead.correct_table 16) (.withKey _ _)
    (run_of_exec asked) demoRequest (List.mem_singleton_self _) rfl ran
  exact ⟨s, phase, ran, plays⟩

end VideoStorage.Api
