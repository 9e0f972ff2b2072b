import VideoStorage.Claim.BucketStore
import VideoStorage.Library.Concurrent
import VideoStorage.Library.TransitionSystem

/-!
# Requests of a token

A request verifies its token, takes a connection slot, runs its handler and
then sends the response body. Verification ends with `get_or_create_bucket`:
a look-up under the read lock, and, when that misses, a separate insertion under
the write lock. The slot is the guard of `claim_auth_middleware`, which is
dropped when the handler returns the response, before its body is sent.
-/

set_option autoImplicit false

namespace VideoStorage.Claim

open TransitionSystem

/-! ## Requests -/

/-- How far a request is. `cell` is the bucket it holds a clone of, `permit`
whether its guard holds a permit. -/
inductive Phase where
  | arrived
  | missed
  | verified (cell : Nat)
  | admitted (cell : Nat) (permit : Bool)
  | handling (cell : Nat) (permit : Bool)
  | streaming (cell : Nat)
  | finished
  | rejected
  deriving DecidableEq, Repr

/-- The bucket a request uses. -/
def Phase.cell : Phase → Option Nat
  | verified cell => some cell
  | admitted cell _ => some cell
  | handling cell _ => some cell
  | streaming cell => some cell
  | _ => none

/-- The guard of the request holds a permit. -/
def Phase.holdsPermit : Phase → Bool
  | admitted _ permit => permit
  | handling _ permit => permit
  | _ => false

/-- The body of the response is being sent. -/
def Phase.isStreaming : Phase → Bool
  | streaming _ => true
  | _ => false

/-- The request was admitted and its body is not fully sent. -/
def Phase.isActive : Phase → Bool
  | admitted _ _ => true
  | handling _ _ => true
  | streaming _ => true
  | _ => false

/-- Only a request that uses a bucket holds a permit. -/
theorem Phase.holdsPermit_of_cell {phase : Phase} (none : phase.cell = none) :
    phase.holdsPermit = false := by
  cases phase <;> first | rfl | cases none

/-- What `get_or_create_bucket` returned, and in which life of the bucket. -/
structure Returned where
  life : Nat
  cell : Nat
  deriving DecidableEq, Repr

structure Request where
  key : BucketKey
  phase : Phase
  returned : Option Returned
  deriving DecidableEq

/-- The store, and for each token how often clean-up has removed its bucket: the
number of the life its next bucket has. -/
structure Shared where
  store : BucketStore
  lives : BucketKey → Nat

inductive RequestAction where
  | lookup (reading : UInt64)
  | create (reading : UInt64)
  | acquire
  | touch (reading : UInt64)
  | respond
  | sent

/-- `get_or_create_bucket` returns a bucket. -/
def Request.obtains (request : Request) (shared : Shared) (cell : Nat) : Request :=
  { request with
    phase := .verified cell
    returned := some ⟨shared.lives request.key, cell⟩ }

/-- One step of a request. The token determines the terms of its bucket. -/
def requestStep (terms : BucketKey → BucketTerms) (shared : Shared) (request : Request) :
    RequestAction → Option (Shared × Request)
  | .lookup reading =>
      match request.phase with
      | .arrived =>
          match shared.store.getBucket request.key with
          | some cell =>
              some ({ shared with store := shared.store.touch cell reading },
                request.obtains shared cell)
          | none => some (shared, { request with phase := .missed })
      | _ => none
  | .create reading =>
      match request.phase with
      | .missed =>
          let created := shared.store.createBucket request.key (terms request.key) reading
          some ({ shared with store := created.2 }, request.obtains shared created.1)
      | _ => none
  | .acquire =>
      match request.phase with
      | .verified cell =>
          match shared.store.tryAcquireConnection cell with
          | .ok (permit, store) =>
              some ({ shared with store }, { request with phase := .admitted cell permit })
          | .error _ => some (shared, { request with phase := .rejected })
      | _ => none
  | .touch reading =>
      match request.phase with
      | .admitted cell permit =>
          some ({ shared with store := shared.store.touchBucket request.key reading },
            { request with phase := .handling cell permit })
      | _ => none
  | .respond =>
      match request.phase with
      | .handling cell permit =>
          some ({ shared with store := shared.store.dropGuard cell permit },
            { request with phase := .streaming cell })
      | _ => none
  | .sent =>
      match request.phase with
      | .streaming _ => some (shared, { request with phase := .finished })
      | _ => none

/-- What one step of a request can do. -/
inductive RequestStep (terms : BucketKey → BucketTerms) (shared : Shared) (request : Request) :
    RequestAction → Shared → Request → Prop where
  | hit {cell : Nat} (reading : UInt64) (phase : request.phase = .arrived)
      (found : shared.store.getBucket request.key = some cell) :
      RequestStep terms shared request (.lookup reading)
        { shared with store := shared.store.touch cell reading } (request.obtains shared cell)
  | miss (reading : UInt64) (phase : request.phase = .arrived)
      (absent : shared.store.getBucket request.key = none) :
      RequestStep terms shared request (.lookup reading) shared { request with phase := .missed }
  | create (reading : UInt64) (phase : request.phase = .missed) :
      RequestStep terms shared request (.create reading)
        { shared with
          store := (shared.store.createBucket request.key (terms request.key) reading).2 }
        (request.obtains shared shared.store.cells.length)
  | admitted {cell : Nat} {permit : Bool} {store : BucketStore}
      (phase : request.phase = .verified cell)
      (acquired : shared.store.tryAcquireConnection cell = .ok (permit, store)) :
      RequestStep terms shared request .acquire { shared with store }
        { request with phase := .admitted cell permit }
  | reject {cell : Nat} (phase : request.phase = .verified cell) :
      RequestStep terms shared request .acquire shared { request with phase := .rejected }
  | touch {cell : Nat} {permit : Bool} (reading : UInt64)
      (phase : request.phase = .admitted cell permit) :
      RequestStep terms shared request (.touch reading)
        { shared with store := shared.store.touchBucket request.key reading }
        { request with phase := .handling cell permit }
  | respond {cell : Nat} {permit : Bool} (phase : request.phase = .handling cell permit) :
      RequestStep terms shared request .respond
        { shared with store := shared.store.dropGuard cell permit }
        { request with phase := .streaming cell }
  | sent {cell : Nat} (phase : request.phase = .streaming cell) :
      RequestStep terms shared request .sent shared { request with phase := .finished }

theorem requestStep_cases {terms : BucketKey → BucketTerms} {shared next : Shared}
    {request request' : Request} {action : RequestAction}
    (step : requestStep terms shared request action = some (next, request')) :
    RequestStep terms shared request action next request' := by
  cases action with
  | lookup reading =>
      simp only [requestStep] at step
      split at step
      · rename_i phase
        split at step
        · rename_i found
          cases step
          exact .hit reading phase found
        · rename_i absent
          cases step
          exact .miss reading phase absent
      · cases step
  | create reading =>
      simp only [requestStep] at step
      split at step
      · rename_i phase
        cases step
        exact .create reading phase
      · cases step
  | acquire =>
      simp only [requestStep] at step
      split at step
      · rename_i phase
        split at step
        · rename_i acquired
          cases step
          exact .admitted phase acquired
        · cases step
          exact .reject phase
      · cases step
  | touch reading =>
      simp only [requestStep] at step
      split at step
      · rename_i phase
        cases step
        exact .touch reading phase
      · cases step
  | respond =>
      simp only [requestStep] at step
      split at step
      · rename_i phase
        cases step
        exact .respond phase
      · cases step
  | sent =>
      simp only [requestStep] at step
      split at step
      · rename_i phase
        cases step
        exact .sent phase
      · cases step

/-! ## The system -/

abbrev Connections := Concurrent Shared Request

inductive ConnectionAction where
  | arrive (key : BucketKey)
  | request (i : Nat) (action : RequestAction)
  | cleanup (nowMs : UInt64) (nowUnix : UInt32)

/-- `cleanup_expired`; a removed bucket ends a life of its token. -/
def Shared.cleanup (shared : Shared) (nowMs : UInt64) (nowUnix : UInt32) : Shared :=
  let store := shared.store.cleanupExpired nowMs nowUnix
  { store
    lives := fun key =>
      if store.getBucket key = shared.store.getBucket key then shared.lives key
      else shared.lives key + 1 }

def connectionStep (terms : BucketKey → BucketTerms) :
    TransitionSystem Connections ConnectionAction
  | s, .arrive key => some (s.spawn ⟨key, .arrived, none⟩)
  | s, .request i action => s.act (requestStep terms) i action
  | s, .cleanup nowMs nowUnix => some { s with shared := s.shared.cleanup nowMs nowUnix }

/-- No bucket and no request. -/
def noConnections : Connections := ⟨⟨.empty, fun _ => 0⟩, []⟩

/-! ## A token for runs on fixed inputs -/

def demoKey : BucketKey := ⟨List.replicate 28 0, rfl⟩

/-- Terms of one connection for every token. -/
def oneConnection : BucketKey → BucketTerms := fun _ => ⟨⟨0, 4000, 1, []⟩, 2000000000⟩

end VideoStorage.Claim
