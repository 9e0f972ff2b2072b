import VideoStorage.Api.Authorisation
import VideoStorage.Api.ClaimAuth
import VideoStorage.Claim.ConnectionLimit
import VideoStorage.Library.Base64

/-!
# The external server

A `GET` of a video goes through the claim middleware to `serve_video`. Its token
is verified, a bucket is looked up or inserted, a connection slot is taken and
the bucket touched, and then the handler looks for the file or the object and
answers. Many requests do this at the same time, while tokens are minted, keys
are added and made current, and buckets are cleaned up. What is stored may be
different for every request.

**Only what was granted is served.** In every state the server reaches, a
request that was answered carries a token that was minted before and whose
payload grants what the filename asks for; a body is the range that was asked
for of what is stored under that filename; and a token that was not minted ends
with 400 or 401 and reaches neither the bucket map nor the handler
(`served_granted`).

**Slots are neither lost nor doubled.** For every bucket, the free slots and the
requests that hold one make up its limit, whether requests are answered, refused
or panic, and whatever clean-up removes (`slots_conserved`).
-/

set_option autoImplicit false

namespace VideoStorage.Api

open RustStd Str Claim TransitionSystem Concurrent

/-! ## The handler -/

/-- The files, and the objects of the buckets, at one time. -/
structure VideoStore where
  file : Str → Option LocalFile
  object : Str → Str → Option S3Object

/-- The bucket whose operator `serve_video` hands over. -/
def servedBucket (backend : StorageBackend) (filename : Str) : Option Str :=
  match backend, splitBucketAndKey filename with
  | .s3 defaultBucket _, .ok (bucketPrefix, _) =>
      (chooseBucketForS3 bucketPrefix defaultBucket).toOption
  | _, _ => none

/-- What is found for a request. -/
def findStored (stored : VideoStore) (backend : StorageBackend) (filename : Str)
    (target : ServeTarget) : Option Found :=
  lookUp (stored.file target.localPath)
    ((servedBucket backend filename).map fun bucket => stored.object bucket target.s3Key)

/-- The external server: the decoder of base64, the cipher, the storage and the
video directory. -/
structure ExternalServer where
  decode : Str → Option Bytes
  aead : Cipher
  backend : StorageBackend
  videosDir : Str

/-- `serve_video`. -/
def handleGet (server : ExternalServer) (get : VideoGet) (stored : VideoStore) :
    Checked Empty FileResponse :=
  match serveVideo server.backend server.videosDir get.filename with
  | .error message => .ok (errResponse .badRequest message.toList)
  | .ok target => serverFileWithBucket get.range target.key
      (findStored stored server.backend get.filename target)

/-! ## A request -/

/-- How far a request is. A request that was answered keeps what it was verified
for and what was stored when it was handled. -/
inductive GetPhase where
  | arrived
  | refused (refusal : Refusal)
  | connected (verified : Verified) (connection : Request)
  | answered (verified : Verified) (connection : Request) (stored : VideoStore)
      (response : FileResponse)
  | panicked

structure GetProcess where
  get : VideoGet
  phase : GetPhase

inductive GetAction where
  | authorise (now : UInt32) (reading : UInt64)
  | lookup (reading : UInt64)
  | create (reading : UInt64)
  | acquire
  | touch (reading : UInt64)
  | handle (stored : VideoStore)
  | sent

/-- A step of a connection on the bucket map. -/
def bucketStep (store : BucketStore) (verified : Verified) (connection : Request)
    (action : RequestAction) : Option (BucketStore × Request) :=
  (requestStep (fun _ => verified.terms) ⟨store, fun _ => 0⟩ connection action).map
    fun next => (next.1.store, next.2)

/-- A connection that was denied a slot is refused. -/
def afterBucket (verified : Verified) (connection : Request) : GetPhase :=
  if connection.phase = .rejected then .refused tooManyConnections
  else .connected verified connection

/-- A step before the handler runs. -/
def connectionPhase (state : ManagerState) (process : GetProcess) (action : RequestAction) :
    Option (ManagerState × GetProcess) :=
  match process.phase with
  | .connected verified connection => do
      let (store, connection) ← bucketStep state.inner.store verified connection action
      some ({ state with inner.store := store },
        { process with phase := afterBucket verified connection })
  | _ => none

/-- One step of a request. The guard of a connection is dropped when the handler
returns, and also when it panics. -/
def getStep (server : ExternalServer) (state : ManagerState) (process : GetProcess) :
    GetAction → Option (ManagerState × GetProcess)
  | .authorise now reading =>
      match process.phase with
      | .arrived =>
          match authorise server.decode server.aead state.sealings state.inner process.get now
              reading with
          | .ok verified =>
              some (state, { process with phase := .connected verified ⟨verified.key, .arrived, none⟩ })
          | .error (.err refusal) => some (state, { process with phase := .refused refusal })
          | .error .panic => some (state, { process with phase := .panicked })
      | _ => none
  | .lookup reading => connectionPhase state process (.lookup reading)
  | .create reading => connectionPhase state process (.create reading)
  | .acquire => connectionPhase state process .acquire
  | .touch reading => connectionPhase state process (.touch reading)
  | .handle stored =>
      match process.phase with
      | .connected verified connection => do
          let (store, connection) ← bucketStep state.inner.store verified connection .respond
          let phase := match handleGet server process.get stored with
            | .ok response => GetPhase.answered verified connection stored response
            | .error _ => .panicked
          some ({ state with inner.store := store }, { process with phase })
      | _ => none
  | .sent =>
      match process.phase with
      | .answered verified connection stored response => do
          let (store, connection) ← bucketStep state.inner.store verified connection .sent
          some ({ state with inner.store := store },
            { process with phase := .answered verified connection stored response })
      | _ => none

/-! ## The server -/

abbrev Gateway := Concurrent ManagerState GetProcess

inductive GatewayAction where
  | arrive (get : VideoGet)
  | request (i : Nat) (action : GetAction)
  | manager (action : ManagerAction)

def gatewayStep (server : ExternalServer) : TransitionSystem Gateway GatewayAction
  | s, .arrive get => some (s.spawn ⟨get, .arrived⟩)
  | s, .request i action => s.act (getStep server) i action
  | s, .manager action => (managerStep server.aead s.shared action).map fun state =>
      { s with shared := state }

/-- The server at the start: nothing is minted, and nobody has asked. -/
def gatewayStart (inner : ClaimManagerInner) : Gateway := ⟨⟨inner, []⟩, []⟩

/-! ## What a step of a request can do -/

/-- The steps: a verdict of the middleware, a step on the bucket map before the
handler, an answer or a panic of the handler, and the end of the body. -/
inductive GetStep (server : ExternalServer) (state : ManagerState) (process : GetProcess) :
    ManagerState → GetProcess → Prop where
  | authorised {verified : Verified} {now : UInt32} {reading : UInt64}
      (phase : process.phase = .arrived)
      (ok : authorise server.decode server.aead state.sealings state.inner process.get now
        reading = .ok verified) :
      GetStep server state process state
        { process with phase := .connected verified ⟨verified.key, .arrived, none⟩ }
  | refused {refusal : Refusal} {now : UInt32} {reading : UInt64}
      (phase : process.phase = .arrived)
      (failed : authorise server.decode server.aead state.sealings state.inner process.get now
        reading = .error (.err refusal)) :
      GetStep server state process state { process with phase := .refused refusal }
  | panicked {now : UInt32} {reading : UInt64} (phase : process.phase = .arrived)
      (failed : authorise server.decode server.aead state.sealings state.inner process.get now
        reading = .error .panic) :
      GetStep server state process state { process with phase := .panicked }
  | bucket {verified : Verified} {connection connection' : Request} {action : RequestAction}
      {next : Shared} (phase : process.phase = .connected verified connection)
      (step : RequestStep (fun _ => verified.terms) ⟨state.inner.store, fun _ => 0⟩ connection
        action next connection') :
      GetStep server state process { state with inner.store := next.store }
        { process with phase := afterBucket verified connection' }
  | answered {verified : Verified} {connection connection' : Request} {next : Shared}
      {stored : VideoStore} {response : FileResponse}
      (phase : process.phase = .connected verified connection)
      (step : RequestStep (fun _ => verified.terms) ⟨state.inner.store, fun _ => 0⟩ connection
        .respond next connection')
      (ok : handleGet server process.get stored = .ok response) :
      GetStep server state process { state with inner.store := next.store }
        { process with phase := .answered verified connection' stored response }
  | dropped {verified : Verified} {connection connection' : Request} {next : Shared}
      (phase : process.phase = .connected verified connection)
      (step : RequestStep (fun _ => verified.terms) ⟨state.inner.store, fun _ => 0⟩ connection
        .respond next connection') :
      GetStep server state process { state with inner.store := next.store }
        { process with phase := .panicked }
  | sent {verified : Verified} {connection connection' : Request} {next : Shared}
      {stored : VideoStore} {response : FileResponse}
      (phase : process.phase = .answered verified connection stored response)
      (step : RequestStep (fun _ => verified.terms) ⟨state.inner.store, fun _ => 0⟩ connection
        .sent next connection') :
      GetStep server state process { state with inner.store := next.store }
        { process with phase := .answered verified connection' stored response }

theorem bucketStep_ok {store next : BucketStore} {verified : Verified}
    {connection connection' : Request} {action : RequestAction}
    (step : bucketStep store verified connection action = some (next, connection')) :
    ∃ shared : Shared, shared.store = next ∧
      RequestStep (fun _ => verified.terms) ⟨store, fun _ => 0⟩ connection action shared
        connection' := by
  obtain ⟨⟨shared, request⟩, moved, here⟩ := Option.map_eq_some_iff.mp step
  cases here
  exact ⟨shared, rfl, requestStep_cases moved⟩

section Steps

variable {server : ExternalServer} {state next : ManagerState} {process process' : GetProcess}

theorem connectionPhase_cases {action : RequestAction}
    (step : connectionPhase state process action = some (next, process')) :
    GetStep server state process next process' := by
  unfold connectionPhase at step
  split at step
  · rename_i phase
    obtain ⟨⟨store, connection⟩, moved, here⟩ := Option.bind_eq_some_iff.mp step
    cases here
    obtain ⟨shared, rfl, stepped⟩ := bucketStep_ok moved
    exact .bucket phase stepped
  · cases step

theorem getStep_cases {action : GetAction}
    (step : getStep server state process action = some (next, process')) :
    GetStep server state process next process' := by
  cases action with
  | authorise now reading =>
      simp only [getStep] at step
      split at step
      · rename_i phase
        split at step <;> rename_i verdict <;> cases step
        · exact .authorised phase verdict
        · exact .refused phase verdict
        · exact .panicked phase verdict
      · cases step
  | lookup reading => exact connectionPhase_cases step
  | create reading => exact connectionPhase_cases step
  | acquire => exact connectionPhase_cases step
  | touch reading => exact connectionPhase_cases step
  | handle stored =>
      simp only [getStep] at step
      split at step
      · rename_i phase
        obtain ⟨⟨store, connection⟩, moved, here⟩ := Option.bind_eq_some_iff.mp step
        obtain ⟨shared, rfl, stepped⟩ := bucketStep_ok moved
        dsimp only at here
        split at here <;> rename_i outcome <;> cases here
        · exact .answered phase stepped outcome
        · exact .dropped phase stepped
      · cases step
  | sent =>
      simp only [getStep] at step
      split at step
      · rename_i phase
        obtain ⟨⟨store, connection⟩, moved, here⟩ := Option.bind_eq_some_iff.mp step
        obtain ⟨shared, rfl, stepped⟩ := bucketStep_ok moved
        cases here
        exact .sent phase stepped
      · cases step

end Steps

/-! ## Only what was granted is served -/

/-- Where a filename has an authorised shape, what it is checked for is what it
is served as. -/
theorem agree_of_shape {filename key jobId assetId : Str} {bucket : Option Str}
    {segment : Option UInt32} {width : Option UInt16}
    (parsed : parseVideoFilename filename = some (assetId, segment, width))
    (split : splitBucketAndKey filename = .ok (bucket, key))
    (extract : extractJobIdFromKey key = .ok jobId) (shape : AuthorisedShape filename) :
    Agree key jobId assetId width := by
  obtain ⟨file, cut, accepted⟩ := parseVideoFilename_ok parsed
  unfold filePartAndWidth at cut
  split at cut
  · rename_i single
    cases cut
    obtain ⟨rfl, absent⟩ := split_eq_singleton.mp single
    exact (agree_iff_shape_file absent split extract accepted).mpr shape
  · rename_i first _ pieces
    cases cut
    obtain ⟨back, rfl, absent, rest⟩ := split_eq_cons_cons.mp pieces
    obtain ⟨rfl, single⟩ := split_eq_singleton.mp rest
    exact (agree_iff_shape_pair absent single split extract accepted).mpr shape
  · rename_i first second _ pieces
    cases cut
    obtain ⟨back, rfl, absent, rest⟩ := split_eq_cons_cons.mp pieces
    obtain ⟨back', rfl, absent', rest'⟩ := split_eq_cons_cons.mp rest
    obtain ⟨rfl, single⟩ := split_eq_singleton.mp rest'
    exact (agree_iff_shape_triple absent absent' single split extract accepted).mpr shape
  · cases cut

/-- A body is the range asked for of what is stored under the filename. Where the
filename has an authorised shape, this is a file of the asset, in the width, that
the token was checked for. -/
def Delivers (server : ExternalServer) (get : VideoGet) (verified : Verified) (stored : VideoStore)
    (response : FileResponse) : Prop :=
  ∃ target found start stop,
    serveVideo server.backend server.videosDir get.filename = .ok target ∧
    findStored stored server.backend get.filename target = some found ∧
    (parseRange get.range found.size : Checked Empty _) = .ok (response.status, start, stop) ∧
    ServesRange found start stop response ∧
    (AuthorisedShape get.filename →
      Agree target.key target.jobId verified.request.assetId verified.request.width)

/-- What is known of a request at any time. -/
structure GetSafe (server : ExternalServer) (mintedTokens : List Minted) (process : GetProcess) :
    Prop where
  granted : ∀ verified connection stored response,
    process.phase = .answered verified connection stored response →
      Vouched server.decode mintedTokens process.get verified ∧
        (response.status = .ok ∨ response.status = .partialContent →
          Delivers server process.get verified stored response)
  forged : ¬ Genuine server.decode mintedTokens process.get →
    process.phase = .arrived ∨ ∃ refusal, process.phase = .refused refusal ∧
      (refusal.status = .badRequest ∨ refusal.status = .unauthorized)

/-- How a request came to be where it is. -/
inductive Accounted (server : ExternalServer) (mintedTokens : List Minted) (get : VideoGet) :
    GetPhase → Prop where
  | arrived : Accounted server mintedTokens get .arrived
  | turnedAway {refusal : Refusal}
      (status : refusal.status = .badRequest ∨ refusal.status = .unauthorized) :
      Accounted server mintedTokens get (.refused refusal)
  | denied {refusal : Refusal} (genuine : Genuine server.decode mintedTokens get) :
      Accounted server mintedTokens get (.refused refusal)
  | connected {verified : Verified} {connection : Request}
      (vouched : Vouched server.decode mintedTokens get verified) :
      Accounted server mintedTokens get (.connected verified connection)
  | answered {verified : Verified} {connection : Request} {stored : VideoStore}
      {response : FileResponse} (vouched : Vouched server.decode mintedTokens get verified)
      (handled : handleGet server get stored = .ok response) :
      Accounted server mintedTokens get (.answered verified connection stored response)
  | panicked (genuine : Genuine server.decode mintedTokens get) :
      Accounted server mintedTokens get .panicked

section Accounting

variable {server : ExternalServer} {mintedTokens more : List Minted} {get : VideoGet}
  {phase : GetPhase}

theorem Accounted.mono (accounted : Accounted server mintedTokens get phase)
    (kept : mintedTokens ⊆ more) : Accounted server more get phase := by
  cases accounted with
  | arrived => exact .arrived
  | turnedAway status => exact .turnedAway status
  | denied genuine => exact .denied (genuine.mono kept)
  | connected vouched => exact .connected (vouched.mono kept)
  | answered vouched handled => exact .answered (vouched.mono kept) handled
  | panicked genuine => exact .panicked (genuine.mono kept)

/-- A step of a request leads to a state that is accounted for. -/
theorem accounted_step {state next : ManagerState} {process process' : GetProcess}
    (well : ∀ minted ∈ state.minted, MintedWell minted)
    (accounted : Accounted server state.minted process.get process.phase)
    (step : GetStep server state process next process') :
    Accounted server state.minted process'.get process'.phase := by
  have genuine : ∀ {now reading outcome},
      authorise server.decode server.aead state.sealings state.inner process.get now reading =
        outcome →
      (∀ refusal, outcome = .error (.err refusal) →
        ¬ (refusal.status = .badRequest ∨ refusal.status = .unauthorized)) →
      Genuine server.decode state.minted process.get := by
    intro now reading outcome ran other
    by_contra forged
    obtain ⟨refusal, failed, status⟩ := @authorise_of_forged server.decode server.aead state
      process.get now reading forged
    exact other refusal (ran.symm.trans failed) status
  cases step with
  | authorised phase ok => exact .connected (vouched_of_authorise well ok)
  | @refused refusal _ _ phase failed =>
      by_cases status : refusal.status = .badRequest ∨ refusal.status = .unauthorized
      · exact .turnedAway status
      · refine .denied (genuine failed fun other same => ?_)
        cases same
        exact status
  | panicked phase failed => exact .panicked (genuine failed fun _ same => by cases same)
  | bucket phase moved =>
      rw [phase] at accounted
      cases accounted with
      | connected vouched =>
          dsimp only
          unfold afterBucket
          split
          · exact .denied vouched.genuine
          · exact .connected vouched
  | answered phase moved ok =>
      rw [phase] at accounted
      cases accounted with
      | connected vouched => exact .answered vouched ok
  | dropped phase moved =>
      rw [phase] at accounted
      cases accounted with
      | connected vouched => exact .panicked vouched.genuine
  | sent phase moved =>
      rw [phase] at accounted
      cases accounted with
      | answered vouched handled => exact .answered vouched handled

/-- A body that the handler returned is what is stored. -/
theorem delivers_of_handled {verified : Verified} {stored : VideoStore} {response : FileResponse}
    (vouched : Vouched server.decode mintedTokens get verified)
    (handled : handleGet server get stored = .ok response)
    (body : response.status = .ok ∨ response.status = .partialContent) :
    Delivers server get verified stored response := by
  unfold handleGet at handled
  split at handled
  · cases handled
    rcases body with status | status <;> cases status
  · rename_i target served
    obtain ⟨bucket, cut, extract, -, -⟩ := serveVideo_ok served
    cases here : findStored stored server.backend get.filename target with
    | none =>
        rw [here] at handled
        cases handled
        rcases body with status | status <;> cases status
    | some found =>
        rw [here] at handled
        obtain ⟨⟨status, start, stop⟩, parsed, rest⟩ := bind_eq_ok handled
        obtain ⟨length, computed, -⟩ := bind_eq_ok rest
        obtain ⟨difference, subtracted, -⟩ := bind_eq_ok computed
        have value := checkedSub_eq_ok.mp subtracted
        obtain ⟨other, ran, serves⟩ := serves_range target.key parsed (by omega)
        obtain rfl := Except.ok.inj (ran.symm.trans handled)
        obtain ⟨rfl, range⟩ := serves body
        exact ⟨target, found, start, stop, served, here, parsed, range, fun shape =>
          agree_of_shape vouched.asked cut extract shape⟩

/-- What is accounted for is safe. -/
theorem GetSafe.of_accounted {process : GetProcess}
    (accounted : Accounted server mintedTokens process.get process.phase) :
    GetSafe server mintedTokens process := by
  constructor
  · intro verified connection stored response phase
    rw [phase] at accounted
    cases accounted with
    | answered vouched handled => exact ⟨vouched, delivers_of_handled vouched handled⟩
  · intro forged
    generalize phase : process.phase = reached at accounted
    cases accounted with
    | arrived => exact .inl rfl
    | turnedAway status => exact .inr ⟨_, rfl, status⟩
    | denied genuine => exact absurd genuine forged
    | connected vouched => exact absurd vouched.genuine forged
    | answered vouched handled => exact absurd vouched.genuine forged
    | panicked genuine => exact absurd genuine forged

end Accounting

/-- Tokens are only added. -/
theorem minted_of_managerStep {aead : Cipher} {state next : ManagerState} {action : ManagerAction}
    (step : managerStep aead state action = some next) : state.minted ⊆ next.minted := by
  cases managerStep_cases step with
  | sign sealed => exact List.subset_append_left _ _
  | addKey absent => exact List.Subset.refl _
  | setCurrentKid stored => exact List.Subset.refl _
  | buckets store => exact List.Subset.refl _

/-- A request leaves the tokens as they are. -/
theorem minted_of_getStep {server : ExternalServer} {state next : ManagerState}
    {process process' : GetProcess} (step : GetStep server state process next process') :
    next.minted = state.minted := by
  cases step <;> rfl

/-- Every token is minted well, and every request is accounted for. -/
structure GatewayInvariant (server : ExternalServer) (s : Gateway) : Prop where
  well : ∀ minted ∈ s.shared.minted, MintedWell minted
  requests : ∀ process ∈ s.processes,
    Accounted server s.shared.minted process.get process.phase

theorem gatewayInvariant_step {server : ExternalServer} {s t : Gateway} {action : GatewayAction}
    (inv : GatewayInvariant server s) (step : gatewayStep server s action = some t) :
    GatewayInvariant server t := by
  cases action with
  | arrive get =>
      cases step
      exact ⟨inv.well, forall_spawn inv.requests .arrived⟩
  | request i action =>
      obtain ⟨process, process', next, found, moved, rfl⟩ := act_eq_some step
      have moved := getStep_cases moved
      have same := minted_of_getStep moved
      have here := accounted_step inv.well
        (inv.requests process (List.mem_of_getElem? found)) moved
      refine ⟨?_, ?_⟩
      · rw [same]
        exact inv.well
      · rw [same]
        exact forall_set inv.requests here
  | manager action =>
      obtain ⟨state, moved, rfl⟩ := Option.map_eq_some_iff.mp step
      have kept := minted_of_managerStep moved
      exact ⟨mintedWell_step inv.well moved, fun process member =>
        (inv.requests process member).mono kept⟩

/-- **Only what was granted is served**, in every state the server reaches. -/
theorem served_granted {server : ExternalServer} {inner : ClaimManagerInner} {s : Gateway}
    (reached : Reachable (gatewayStep server) (gatewayStart inner) s) :
    ∀ process ∈ s.processes, GetSafe server s.shared.minted process := by
  have start : GatewayInvariant server (gatewayStart inner) :=
    ⟨fun _ member => absurd member List.not_mem_nil, fun _ member => absurd member List.not_mem_nil⟩
  have inv : GatewayInvariant server s :=
    Run.invariant reached start fun inv _ step => gatewayInvariant_step inv step
  exact fun process member => .of_accounted (inv.requests process member)

/-- A server with one file of ten bytes for a playlist. -/
def demoServer : ExternalServer := ⟨Base64.decode, .table 16, .local, "/srv/videos".toList⟩

def demoStored : VideoStore where
  file path := if path = "/srv/videos/demo/demo.m3u8".toList then some tenBytes else none
  object _ _ := none

/-- A request with the token that `signOnce` mints. -/
def demoGet : VideoGet where
  authorization := some (utf8
    ("Bearer VlNDMQEBAQADAwMDAwMDAwMDAwMFAAAAAAAAAAAAAAAAAAAACQAAAAEAAAAEZGVtbzwAoA8CAAAAAAAAAAAA" ++
      "AAAAAAAAAAAA").toList)
  filename := "demo.m3u8".toList
  range := none

/-- The token is minted, and the playlist is asked for and answered. -/
def playOnce : List GatewayAction :=
  signOnce.map .manager ++ [.arrive demoGet, .request 0 (.authorise 5 0), .request 0 (.lookup 0),
    .request 0 (.create 0), .request 0 .acquire, .request 0 (.touch 0),
    .request 0 (.handle demoStored)]

set_option maxRecDepth 10000 in
theorem served_granted_played : ∃ s verified connection response,
    exec (gatewayStep demoServer) anything (gatewayStart singleKeyManager) playOnce = some s ∧
      s.processes = [⟨demoGet, .answered verified connection demoStored response⟩] ∧
      response.status = .ok ∧
      GetSafe demoServer s.shared.minted
        ⟨demoGet, .answered verified connection demoStored response⟩ :=
  ⟨_, _, _, _, rfl, rfl, rfl, served_granted
    (@run_of_exec Gateway _ _ anything (gatewayStart singleKeyManager) _ playOnce rfl) _
    (List.mem_singleton_self _)⟩

/-! ## Slots are neither lost nor doubled -/

/-- The connection holds a slot of the bucket. -/
def holdsSlot (cell : Nat) (connection : Request) : Bool :=
  decide (connection.phase.cell = some cell) && connection.phase.holdsPermit

/-- The request holds a slot of the bucket. -/
def GetPhase.holds (cell : Nat) : GetPhase → Bool
  | connected _ connection => holdsSlot cell connection
  | _ => false

/-- The requests that hold a slot of the bucket. -/
def holders (cell : Nat) (s : Gateway) : Nat :=
  s.processes.countP fun process => process.phase.holds cell

section Connection

variable {terms : BucketKey → BucketTerms} {shared next : Shared} {connection connection' : Request}
  {action : RequestAction} {cell : Nat}

/-- A slot that is held is one of a bucket there is, or was held before. -/
theorem holdsSlot_of_step
    (step : RequestStep terms shared connection action next connection')
    (held : holdsSlot cell connection' = true) :
    cell < shared.store.cells.length ∨ holdsSlot cell connection = true := by
  simp only [holdsSlot, Bool.and_eq_true, decide_eq_true_eq] at held ⊢
  cases step with
  | hit reading phase found => cases held.2
  | miss reading phase absent => cases held.2
  | create reading phase => cases held.2
  | @admitted own permit store phase acquired =>
      obtain ⟨here, holding⟩ := held
      cases here
      obtain rfl : permit = true := holding
      rcases BucketStore.slots_of_acquired acquired with ⟨off, -⟩ | ⟨-, limit, free, before, -, -⟩
      · cases off
      · obtain ⟨bucket, found, -⟩ := Option.map_eq_some_iff.mp before
        exact .inl (List.getElem?_eq_some_iff.mp found).1
  | reject phase => cases held.2
  | touch reading phase =>
      rw [phase]
      exact .inr held
  | respond phase => cases held.2
  | sent phase => cases held.2

/-- A step moves a slot between the bucket and the connection. A bucket that is
new has all its slots. -/
theorem slots_of_step {limit : UInt16} {free : Nat}
    (step : RequestStep terms shared connection action next connection')
    (here : next.store.slots cell = some (limit, free)) :
    (∃ before, shared.store.slots cell = some (limit, before) ∧
      free + (holdsSlot cell connection').toNat = before + (holdsSlot cell connection).toNat) ∨
    cell = shared.store.cells.length ∧ free = limit.toNat ∧
      holdsSlot cell connection' = false := by
  cases step with
  | hit reading phase found =>
      rw [BucketStore.slots_touch] at here
      exact .inl ⟨free, here, by simp [holdsSlot, Phase.holdsPermit, Request.obtains, phase]⟩
  | miss reading phase absent =>
      exact .inl ⟨free, here, by simp [holdsSlot, Phase.holdsPermit, phase]⟩
  | create reading phase =>
      rw [BucketStore.slots_createBucket] at here
      split at here
      · rename_i new
        cases here
        exact .inr ⟨new, rfl, by simp [holdsSlot, Phase.holdsPermit, Request.obtains]⟩
      · exact .inl ⟨free, here, by simp [holdsSlot, Phase.holdsPermit, Request.obtains, phase]⟩
  | @admitted own permit store phase acquired =>
      rcases BucketStore.slots_of_acquired acquired with
        ⟨rfl, rfl, -⟩ | ⟨rfl, limit', free', before, after, others⟩
      · exact .inl ⟨free, here, by simp [holdsSlot, Phase.holdsPermit, phase]⟩
      · by_cases same : cell = own
        · subst same
          cases after.symm.trans here
          exact .inl ⟨free + 1, before, by simp [holdsSlot, Phase.holdsPermit, Phase.cell, phase]⟩
        · refine .inl ⟨free, (others cell same).symm.trans here, ?_⟩
          simp [holdsSlot, Phase.holdsPermit, Phase.cell, phase, Ne.symm same]
  | reject phase => exact .inl ⟨free, here, by simp [holdsSlot, Phase.holdsPermit, phase]⟩
  | touch reading phase =>
      rw [BucketStore.slots_touchBucket] at here
      exact .inl ⟨free, here, by simp [holdsSlot, Phase.holdsPermit, Phase.cell, phase]⟩
  | @respond own permit phase =>
      rw [BucketStore.slots_dropGuard] at here
      split at here
      · rename_i freed
        obtain ⟨⟨limit', before⟩, found, new⟩ := Option.map_eq_some_iff.mp here
        cases new
        refine .inl ⟨before, found, ?_⟩
        simp [holdsSlot, Phase.holdsPermit, Phase.cell, phase, freed.1, freed.2]
      · rename_i kept
        refine .inl ⟨free, here, ?_⟩
        by_cases same : own = cell
        · have off : permit = false := by simpa [same] using kept
          simp [holdsSlot, Phase.holdsPermit, Phase.cell, phase, off]
        · simp [holdsSlot, Phase.holdsPermit, Phase.cell, phase, same]
  | sent phase => exact .inl ⟨free, here, by simp [holdsSlot, Phase.holdsPermit, phase]⟩

end Connection

/-- A store with the buckets of another one, which have the slots they had, and
new ones, which have all of theirs. -/
structure SameSlots (store next : BucketStore) : Prop where
  grows : store.cells.length ≤ next.cells.length
  slots : ∀ cell limit free, next.slots cell = some (limit, free) →
    store.slots cell = some (limit, free) ∨ store.cells.length ≤ cell ∧ free = limit.toNat

theorem SameSlots.refl (store : BucketStore) : SameSlots store store :=
  ⟨Nat.le_refl _, fun _ _ _ here => .inl here⟩

theorem sameSlots_getOrCreateBucket (store : BucketStore) (key : BucketKey) (terms : BucketTerms)
    (reading : UInt64) : SameSlots store (store.getOrCreateBucket key terms reading).2 := by
  unfold BucketStore.getOrCreateBucket
  split
  · exact ⟨by simp, fun cell limit free here => .inl (by simpa using here)⟩
  · refine ⟨by rw [BucketStore.length_createBucket]; exact Nat.le_succ _,
      fun cell limit free here => ?_⟩
    rw [BucketStore.slots_createBucket] at here
    split at here
    · rename_i new
      cases here
      exact .inr ⟨Nat.le_of_eq new.symm, rfl⟩
    · exact .inl here

/-- A call to the manager takes no slot. -/
theorem sameSlots_of_managerStep {aead : Cipher} {state next : ManagerState}
    {action : ManagerAction} (step : managerStep aead state action = some next) :
    SameSlots state.inner.store next.inner.store := by
  cases action with
  | sign payload nonce createAt =>
      simp only [managerStep] at step
      split at step <;> cases step <;> exact .refl _
  | addKey kid key =>
      simp only [managerStep] at step
      split at step <;> cases step
      · rename_i inner ok
        obtain ⟨-, rfl⟩ := addKey_ok ok
        exact .refl _
      · exact .refl _
  | setCurrentKid kid =>
      simp only [managerStep] at step
      split at step <;> cases step
      · rename_i inner ok
        obtain ⟨-, rfl⟩ := setCurrentKid_ok ok
        exact .refl _
      · exact .refl _
  | verify token request =>
      cases step
      dsimp only
      unfold verifyClaim admission
      split
      · exact .refl _
      · split
        · exact .refl _
        · exact sameSlots_getOrCreateBucket ..
  | touch key reading =>
      cases step
      exact ⟨by simp, fun cell limit free here => .inl (by simpa using here)⟩
  | cleanup nowMs nowUnix =>
      cases step
      exact ⟨Nat.le_refl _, fun _ _ _ here => .inl here⟩

/-- The slots that are held are of buckets there are, and with the free ones they
make up the limit of every bucket. -/
structure SlotsKept (s : Gateway) : Prop where
  used : ∀ process ∈ s.processes, ∀ cell, process.phase.holds cell = true →
    cell < s.shared.inner.store.cells.length
  slots : ∀ cell limit free, s.shared.inner.store.slots cell = some (limit, free) →
    free + holders cell s = limit.toNat

/-- Nobody holds a slot of a bucket that is not there. -/
theorem SlotsKept.holders_eq_zero {s : Gateway} (kept : SlotsKept s) {cell : Nat}
    (absent : s.shared.inner.store.cells.length ≤ cell) : holders cell s = 0 := by
  refine List.countP_eq_zero.mpr fun process member held => ?_
  exact absurd (kept.used process member cell held) (Nat.not_lt.mpr absent)

section Keeping

variable {server : ExternalServer} {s t : Gateway}

/-- A step that moves the slots of one request keeps the balance. -/
theorem SlotsKept.of_request (kept : SlotsKept s) {i : Nat} {process process' : GetProcess}
    {state : ManagerState} (found : s.processes[i]? = some process)
    (grows : s.shared.inner.store.cells.length ≤ state.inner.store.cells.length)
    (used : ∀ cell, process'.phase.holds cell = true →
      cell < s.shared.inner.store.cells.length ∨ process.phase.holds cell = true)
    (moved : ∀ cell limit free, state.inner.store.slots cell = some (limit, free) →
      (∃ before, s.shared.inner.store.slots cell = some (limit, before) ∧
        free + (process'.phase.holds cell).toNat = before + (process.phase.holds cell).toNat) ∨
      cell = s.shared.inner.store.cells.length ∧ free = limit.toNat ∧
        process'.phase.holds cell = false) :
    SlotsKept ⟨state, s.processes.set i process'⟩ := by
  constructor
  · refine forall_set (fun other member cell held => ?_) fun cell held => ?_
    · exact Nat.lt_of_lt_of_le (kept.used other member cell held) grows
    · rcases used cell held with here | before
      · exact Nat.lt_of_lt_of_le here grows
      · exact Nat.lt_of_lt_of_le
          (kept.used process (List.mem_of_getElem? found) cell before) grows
  · intro cell limit free here
    have counted : holders cell ⟨state, s.processes.set i process'⟩ +
        (process.phase.holds cell).toNat = holders cell s + (process'.phase.holds cell).toNat :=
      countP_set_add (p := fun process : GetProcess => process.phase.holds cell) found process'
    rcases moved cell limit free here with ⟨before, slots, balance⟩ | ⟨new, full, none⟩
    · have sum := kept.slots cell limit before slots
      omega
    · have unused := kept.holders_eq_zero (Nat.le_of_eq new.symm)
      rw [none, unused, Bool.toNat_false] at counted
      omega

theorem slotsKept_getStep (kept : SlotsKept s) {i : Nat} {process process' : GetProcess}
    {state : ManagerState} (found : s.processes[i]? = some process)
    (step : GetStep server s.shared process state process') :
    SlotsKept ⟨state, s.processes.set i process'⟩ := by
  cases step with
  | authorised phase ok =>
      refine kept.of_request found (Nat.le_refl _) (fun cell held => ?_)
        fun cell limit free here => .inl ⟨free, here, ?_⟩
      · simp [GetPhase.holds, holdsSlot, Phase.holdsPermit] at held
      · simp [GetPhase.holds, holdsSlot, Phase.holdsPermit, phase]
  | refused phase failed =>
      refine kept.of_request found (Nat.le_refl _) (fun _ held => absurd held Bool.false_ne_true)
        fun cell limit free here => .inl ⟨free, here, ?_⟩
      simp [GetPhase.holds, phase]
  | panicked phase failed =>
      refine kept.of_request found (Nat.le_refl _) (fun _ held => absurd held Bool.false_ne_true)
        fun cell limit free here => .inl ⟨free, here, ?_⟩
      simp [GetPhase.holds, phase]
  | @bucket verified connection connection' action next phase moved =>
      have after : ∀ cell, (afterBucket verified connection').holds cell =
          holdsSlot cell connection' := by
        intro cell
        unfold afterBucket
        split
        · rename_i rejected
          simp [GetPhase.holds, holdsSlot, rejected, Phase.holdsPermit]
        · rfl
      refine kept.of_request found (frame_of_step moved).grows (fun cell held => ?_)
        fun cell limit free here => ?_
      · dsimp only at held
        rw [after] at held
        rw [phase]
        exact holdsSlot_of_step moved held
      · dsimp only
        rw [after, phase]
        exact slots_of_step moved here
  | @answered verified connection connection' next stored response phase moved ok =>
      have gone : ∀ cell, holdsSlot cell connection' = false := by
        intro cell
        cases moved
        simp [holdsSlot, Phase.holdsPermit]
      refine kept.of_request found (frame_of_step moved).grows (fun _ held => absurd held Bool.false_ne_true)
        fun cell limit free here => ?_
      have balance := slots_of_step moved here
      rw [gone] at balance
      rw [phase]
      exact balance
  | @dropped verified connection connection' next phase moved =>
      have gone : ∀ cell, holdsSlot cell connection' = false := by
        intro cell
        cases moved
        simp [holdsSlot, Phase.holdsPermit]
      refine kept.of_request found (frame_of_step moved).grows (fun _ held => absurd held Bool.false_ne_true)
        fun cell limit free here => ?_
      have balance := slots_of_step moved here
      rw [gone] at balance
      rw [phase]
      exact balance
  | @sent verified connection connection' next stored response phase moved =>
      refine kept.of_request found (frame_of_step moved).grows (fun _ held => absurd held Bool.false_ne_true)
        fun cell limit free here => .inl ⟨free, ?_, ?_⟩
      · cases moved
        exact here
      · simp [GetPhase.holds, phase]

theorem slotsKept_step {action : GatewayAction} (kept : SlotsKept s)
    (step : gatewayStep server s action = some t) : SlotsKept t := by
  cases action with
  | arrive get =>
      cases step
      refine ⟨forall_spawn kept.used nofun, fun cell limit free here => ?_⟩
      have counted := countP_spawn (fun process : GetProcess => process.phase.holds cell)
        s.processes ⟨get, .arrived⟩
      rw [← kept.slots cell limit free here]
      exact congrArg _ counted
  | request i action =>
      obtain ⟨process, process', next, found, moved, rfl⟩ := act_eq_some step
      exact slotsKept_getStep kept found (getStep_cases moved)
  | manager action =>
      obtain ⟨state, moved, rfl⟩ := Option.map_eq_some_iff.mp step
      have same := sameSlots_of_managerStep moved
      refine ⟨fun process member cell held =>
        Nat.lt_of_lt_of_le (kept.used process member cell held) same.grows,
        fun cell limit free here => ?_⟩
      rcases same.slots cell limit free here with old | ⟨new, full⟩
      · exact kept.slots cell limit free old
      · have unused : holders cell s = 0 := kept.holders_eq_zero new
        change free + holders cell s = limit.toNat
        rw [unused, full, Nat.add_zero]

end Keeping

/-- **Slots are neither lost nor doubled**, in every state the server reaches. -/
theorem slots_conserved {server : ExternalServer} {inner : ClaimManagerInner} {s : Gateway}
    (unused : inner.store = .empty)
    (reached : Reachable (gatewayStep server) (gatewayStart inner) s) {cell free : Nat}
    {limit : UInt16} (here : s.shared.inner.store.slots cell = some (limit, free)) :
    free + holders cell s = limit.toNat := by
  have start : SlotsKept (gatewayStart inner) := by
    refine ⟨fun _ member => absurd member List.not_mem_nil, fun cell limit free here => ?_⟩
    rw [gatewayStart, unused] at here
    cases here
  have kept : SlotsKept s := Run.invariant reached start fun kept _ step => slotsKept_step kept step
  exact kept.slots cell limit free here

set_option maxRecDepth 10000 in
/-- While the request is handled, one of its two slots is free. -/
theorem slots_conserved_handled : ∃ s,
    exec (gatewayStep demoServer) anything (gatewayStart singleKeyManager) (playOnce.take 7) =
      some s ∧ s.shared.inner.store.slots 0 = some (2, 1) ∧ 1 + holders 0 s = (2 : UInt16).toNat :=
  ⟨_, rfl, rfl, @slots_conserved demoServer singleKeyManager _ rfl
    (@run_of_exec Gateway _ _ anything (gatewayStart singleKeyManager) _ (playOnce.take 7) rfl)
    0 1 2 rfl⟩

end VideoStorage.Api
