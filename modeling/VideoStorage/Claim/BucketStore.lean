import Mathlib.Logic.Function.Basic
import VideoStorage.Claim.Header
import VideoStorage.Claim.TokenBucket

/-!
# The bucket map

The manager maps the bucket key of a token to a bucket. A bucket is shared: the
map and every caller hold clones that point to one semaphore and one token
counter. Here a bucket is a cell of the store and a clone of it is the number of
the cell. Cells are never freed, so a caller can go on using a bucket that the
map has dropped or replaced.
-/

set_option autoImplicit false

namespace VideoStorage.Claim

/-- A `ClaimBucket` with what its clones share. -/
structure ClaimBucket where
  expUnix : UInt32
  maxKbps : UInt16
  maxConcurrency : UInt16
  /-- The free permits of the semaphore. -/
  permits : Nat
  bucket : TokenBucketInner
  lastAccess : UInt64
  deriving DecidableEq, Repr

/-- What a bucket is created from: the limits of a claim and its expiry. -/
structure BucketTerms where
  limits : Limits
  expUnix : UInt32
  deriving DecidableEq, Repr

namespace ClaimBucket

/-- `ClaimBucket::new`, with the clock reading of `ClaimBucketInner::new`. -/
def new (tokenRate : Nat) (expUnix : UInt32) (maxKbps maxConcurrency : UInt16)
    (reading : UInt64) : ClaimBucket where
  expUnix := expUnix
  maxKbps := maxKbps
  maxConcurrency := maxConcurrency
  permits := maxConcurrency.toNat
  bucket := TokenBucketInner.new tokenRate tokenRate
  lastAccess := reading

/-- `touch`. -/
def touch (bucket : ClaimBucket) (reading : UInt64) : ClaimBucket :=
  { bucket with lastAccess := reading }

/-- `is_expired`. -/
def isExpired (bucket : ClaimBucket) (nowUnix : UInt32) : Bool := decide (bucket.expUnix < nowUnix)

/-- `is_idle`. -/
def isIdle (bucket : ClaimBucket) (nowMs idleThresholdMs : UInt64) : Bool :=
  let idleMs := if bucket.lastAccess ≤ nowMs then nowMs - bucket.lastAccess else 0
  decide (idleThresholdMs < idleMs)

end ClaimBucket

/-- The map and the cells. -/
structure BucketStore where
  buckets : BucketKey → Option Nat
  cells : List ClaimBucket

namespace BucketStore

def empty : BucketStore := ⟨fun _ => none, []⟩

/-- `get_bucket`. -/
def getBucket (store : BucketStore) (key : BucketKey) : Option Nat := store.buckets key

/-- Touch a cell. -/
def touch (store : BucketStore) (cell : Nat) (reading : UInt64) : BucketStore :=
  { store with cells := store.cells.modify cell fun bucket => bucket.touch reading }

/-- `touch_bucket`. -/
def touchBucket (store : BucketStore) (key : BucketKey) (reading : UInt64) : BucketStore :=
  match store.buckets key with
  | some cell => store.touch cell reading
  | none => store

/-- The token rate in bytes per second. -/
def tokenRate (maxKbps : UInt16) : Nat := if maxKbps > 0 then maxKbps.toNat * 1024 / 8 else 0

/-- `create_bucket`: a new cell, entered in the map whatever stands there. -/
def createBucket (store : BucketStore) (key : BucketKey) (terms : BucketTerms)
    (reading : UInt64) : Nat × BucketStore :=
  let bucket := ClaimBucket.new (tokenRate terms.limits.maxKbps) terms.expUnix terms.limits.maxKbps
    terms.limits.maxConcurrency reading
  (store.cells.length,
    { buckets := Function.update store.buckets key (some store.cells.length)
      cells := store.cells ++ [bucket] })

/-- `get_or_create_bucket`, run without interruption. -/
def getOrCreateBucket (store : BucketStore) (key : BucketKey) (terms : BucketTerms)
    (reading : UInt64) : Nat × BucketStore :=
  match store.getBucket key with
  | some cell => (cell, store.touch cell reading)
  | none => store.createBucket key terms reading

/-- The idle time after which a bucket is removed, in milliseconds. -/
def idleThresholdMs : UInt64 := 600000

/-- `cleanup_expired` keeps a bucket that is neither expired nor idle. -/
def keeps (store : BucketStore) (nowMs : UInt64) (nowUnix : UInt32) (cell : Nat) : Bool :=
  store.cells[cell]?.all fun bucket =>
    !bucket.isExpired nowUnix && !bucket.isIdle nowMs idleThresholdMs

/-- `cleanup_expired`. -/
def cleanupExpired (store : BucketStore) (nowMs : UInt64) (nowUnix : UInt32) : BucketStore :=
  { store with buckets := fun key => (store.buckets key).filter (store.keeps nowMs nowUnix) }

/-- `try_acquire_connection`: whether a permit was taken, and the store without
it. A token without a connection limit takes none. -/
def tryAcquireConnection (store : BucketStore) (cell : Nat) : Except String (Bool × BucketStore) :=
  match store.cells[cell]? with
  | none => .error "Max concurrency exceeded"
  | some bucket =>
      if bucket.maxConcurrency = 0 then .ok (false, store)
      else if bucket.permits = 0 then .error "Max concurrency exceeded"
      else .ok (true,
        { store with cells := store.cells.set cell { bucket with permits := bucket.permits - 1 } })

/-- Drop the guard of a connection. -/
def dropGuard (store : BucketStore) (cell : Nat) (permit : Bool) : BucketStore :=
  if permit then
    { store with cells := store.cells.modify cell fun bucket =>
        { bucket with permits := bucket.permits + 1 } }
  else store

/-! ## What leaves the map as it is -/

@[simp] theorem buckets_touch (store : BucketStore) (cell : Nat) (reading : UInt64) :
    (store.touch cell reading).buckets = store.buckets := rfl

@[simp] theorem buckets_touchBucket (store : BucketStore) (key : BucketKey) (reading : UInt64) :
    (store.touchBucket key reading).buckets = store.buckets := by
  unfold touchBucket
  split <;> rfl

@[simp] theorem buckets_dropGuard (store : BucketStore) (cell : Nat) (permit : Bool) :
    (store.dropGuard cell permit).buckets = store.buckets := by
  unfold dropGuard
  split <;> rfl

theorem buckets_of_acquired {store next : BucketStore} {cell : Nat} {permit : Bool}
    (acquired : store.tryAcquireConnection cell = .ok (permit, next)) :
    next.buckets = store.buckets := by
  unfold tryAcquireConnection at acquired
  split at acquired
  · cases acquired
  · split at acquired
    · cases acquired
      rfl
    · split at acquired
      · cases acquired
      · cases acquired
        rfl

/-- Clean-up keeps an entry or removes it. -/
theorem buckets_cleanupExpired (store : BucketStore) (nowMs : UInt64) (nowUnix : UInt32)
    (key : BucketKey) :
    (store.cleanupExpired nowMs nowUnix).buckets key = store.buckets key ∨
      (store.cleanupExpired nowMs nowUnix).buckets key = none := by
  change (store.buckets key).filter _ = _ ∨ (store.buckets key).filter _ = none
  cases store.buckets key with
  | none => exact .inl rfl
  | some cell =>
      rw [Option.filter_some]
      split
      · exact .inl rfl
      · exact .inr rfl

@[simp] theorem length_touch (store : BucketStore) (cell : Nat) (reading : UInt64) :
    (store.touch cell reading).cells.length = store.cells.length :=
  List.length_modify ..

@[simp] theorem length_touchBucket (store : BucketStore) (key : BucketKey) (reading : UInt64) :
    (store.touchBucket key reading).cells.length = store.cells.length := by
  unfold touchBucket
  split
  · exact length_touch ..
  · rfl

@[simp] theorem length_dropGuard (store : BucketStore) (cell : Nat) (permit : Bool) :
    (store.dropGuard cell permit).cells.length = store.cells.length := by
  unfold dropGuard
  split
  · exact List.length_modify ..
  · rfl

theorem length_createBucket (store : BucketStore) (key : BucketKey) (terms : BucketTerms)
    (reading : UInt64) :
    (store.createBucket key terms reading).2.cells.length = store.cells.length + 1 :=
  List.length_append

theorem length_of_acquired {store next : BucketStore} {cell : Nat} {permit : Bool}
    (acquired : store.tryAcquireConnection cell = .ok (permit, next)) :
    next.cells.length = store.cells.length := by
  unfold tryAcquireConnection at acquired
  split at acquired
  · cases acquired
  · split at acquired
    · cases acquired
      rfl
    · split at acquired
      · cases acquired
      · cases acquired
        exact List.length_set ..

/-! ## Getting a bucket -/

/-- The bucket that is got is in the map. -/
theorem getBucket_getOrCreateBucket (store : BucketStore) (key : BucketKey) (terms : BucketTerms)
    (reading : UInt64) :
    (store.getOrCreateBucket key terms reading).2.getBucket key =
      some (store.getOrCreateBucket key terms reading).1 := by
  unfold getOrCreateBucket
  split
  · rename_i cell found
    exact found
  · exact Function.update_self ..

/-- A bucket that is created has the terms of its claim. -/
theorem getOrCreateBucket_of_none {store : BucketStore} {key : BucketKey}
    (absent : store.getBucket key = none) (terms : BucketTerms) (reading : UInt64) :
    ∃ bucket, (store.getOrCreateBucket key terms reading).2.cells[
        (store.getOrCreateBucket key terms reading).1]? = some bucket ∧
      bucket.expUnix = terms.expUnix ∧ bucket.maxKbps = terms.limits.maxKbps ∧
      bucket.maxConcurrency = terms.limits.maxConcurrency := by
  rw [getOrCreateBucket, absent]
  exact ⟨_, List.getElem?_concat_length, rfl, rfl, rfl⟩

/-! ## The slots of a bucket -/

/-- The connection limit of a cell and its free permits. -/
def slots (store : BucketStore) (cell : Nat) : Option (UInt16 × Nat) :=
  store.cells[cell]?.map fun bucket => (bucket.maxConcurrency, bucket.permits)

@[simp] theorem slots_touch (store : BucketStore) (cell other : Nat) (reading : UInt64) :
    (store.touch cell reading).slots other = store.slots other := by
  simp only [slots, touch, List.getElem?_modify]
  cases store.cells[other]? with
  | none => rfl
  | some bucket => by_cases same : cell = other <;> simp [same, ClaimBucket.touch]

@[simp] theorem slots_touchBucket (store : BucketStore) (key : BucketKey) (reading : UInt64)
    (other : Nat) : (store.touchBucket key reading).slots other = store.slots other := by
  unfold touchBucket
  split
  · exact slots_touch ..
  · rfl

/-- A new cell has all its slots free; the others stay as they are. -/
theorem slots_createBucket (store : BucketStore) (key : BucketKey) (terms : BucketTerms)
    (reading : UInt64) (cell : Nat) :
    (store.createBucket key terms reading).2.slots cell =
      if cell = store.cells.length then
        some (terms.limits.maxConcurrency, terms.limits.maxConcurrency.toNat)
      else store.slots cell := by
  simp only [slots, createBucket]
  split
  · rename_i last
    subst last
    rw [List.getElem?_concat_length]
    rfl
  · rename_i old
    rcases Nat.lt_or_gt_of_ne old with less | more
    · rw [List.getElem?_append_left less]
    · rw [List.getElem?_eq_none (by rw [List.length_append, List.length_singleton]; omega),
        List.getElem?_eq_none (Nat.le_of_lt more)]

/-- Acquiring takes a free slot, unless the token is unlimited. -/
theorem slots_of_acquired {store next : BucketStore} {cell : Nat} {permit : Bool}
    (acquired : store.tryAcquireConnection cell = .ok (permit, next)) :
    (permit = false ∧ next = store ∧ ∃ free, store.slots cell = some (0, free)) ∨
    permit = true ∧ ∃ limit free, store.slots cell = some (limit, free + 1) ∧
      next.slots cell = some (limit, free) ∧
      ∀ other ≠ cell, next.slots other = store.slots other := by
  unfold tryAcquireConnection at acquired
  split at acquired
  · cases acquired
  · rename_i bucket found
    split at acquired
    · rename_i unlimited
      cases acquired
      exact .inl ⟨rfl, rfl, bucket.permits, by rw [slots, found, Option.map_some, unlimited]⟩
    · split at acquired
      · cases acquired
      · rename_i free
        cases acquired
        obtain ⟨less, -⟩ := List.getElem?_eq_some_iff.mp found
        refine .inr ⟨rfl, bucket.maxConcurrency, bucket.permits - 1, ?_, ?_, fun other differ => ?_⟩
        · rw [slots, found, Option.map_some, Nat.sub_add_cancel (Nat.pos_of_ne_zero free)]
        · rw [slots, List.getElem?_set_self less]
          rfl
        · rw [slots, slots, List.getElem?_set_ne differ.symm]

/-- Dropping a guard frees its slot. -/
theorem slots_dropGuard (store : BucketStore) (cell : Nat) (permit : Bool) (other : Nat) :
    (store.dropGuard cell permit).slots other =
      if permit = true ∧ cell = other then
        (store.slots other).map fun slot => (slot.1, slot.2 + 1)
      else store.slots other := by
  unfold dropGuard
  cases permit with
  | false => simp
  | true =>
      simp only [if_true, true_and, slots, List.getElem?_modify]
      cases store.cells[other]? with
      | none => simp
      | some bucket => by_cases same : cell = other <;> simp [same]

end BucketStore

end VideoStorage.Claim
