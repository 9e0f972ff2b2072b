import Mathlib.Logic.Function.Basic
import VideoStorage.Library.Concurrent
import VideoStorage.Library.TransitionSystem
import VideoStorage.Jobs.Transfer

/-!
# The operators of the buckets

`operator_for_bucket` looks for the operator of a bucket under a read lock, builds
one if there is none, and stores it under the write lock. Between the two locks
other calls can have stored theirs. The call then drops the operator it has built
and returns the one that is there.

So all calls for a bucket share one operator, in every order of their steps, and a
call succeeds exactly when one without the cache does (`operators_shared`): the
other parts of the model can leave the cache out.
-/

set_option autoImplicit false

namespace VideoStorage.Jobs

open RustStd TransitionSystem Concurrent

/-- An operator for a bucket. Each that is built has a number of its own. -/
structure Operator where
  bucket : Str
  number : Nat
  deriving DecidableEq

/-- `s3_operators`, and how many operators were built. -/
structure OperatorCache where
  operators : Str → Option Operator
  built : Nat

/-- Where a call is. -/
inductive OperatorPoint where
  | arrived
  | building
  | storing (operator : Operator)
  | returned (result : Except ErrorChain Operator)

/-- A call of `operator_for_bucket`. -/
structure OperatorCall where
  bucket : Str
  point : OperatorPoint

namespace OperatorCache

/-- The next step of a call: the checks and the look-up, the building, or the
addition of what was built, unless an operator is there. -/
def proceed (manager : StorageManager) (cache : OperatorCache) (call : OperatorCall) (_ : Unit) :
    Option (OperatorCache × OperatorCall) :=
  match call.point with
  | .arrived =>
      if call.bucket.isEmpty || call.bucket.contains '/' then
        some (cache, { call with point := .returned (.error ["Invalid bucket name".toList]) })
      else if manager.isS3 then
        match cache.operators call.bucket with
        | some operator => some (cache, { call with point := .returned (.ok operator) })
        | none => some (cache, { call with point := .building })
      else
        some (cache, { call with
          point := .returned
            (.error ["S3 operator requested but storage backend is not S3".toList]) })
  | .building =>
      match manager.buildS3Operator call.bucket with
      | .ok () =>
          some ({ cache with built := cache.built + 1 },
            { call with point := .storing ⟨call.bucket, cache.built⟩ })
      | .error error => some (cache, { call with point := .returned (.error error) })
  | .storing operator =>
      match cache.operators call.bucket with
      | some other => some (cache, { call with point := .returned (.ok other) })
      | none =>
          some ({ cache with
              operators := Function.update cache.operators call.bucket (some operator) },
            { call with point := .returned (.ok operator) })
  | .returned _ => none

end OperatorCache

abbrev OperatorCalls := Concurrent OperatorCache OperatorCall

inductive OperatorAction where
  | call (bucket : Str)
  | proceed (i : Nat)

def operatorStep (manager : StorageManager) : TransitionSystem OperatorCalls OperatorAction
  | s, .call bucket => some (s.spawn ⟨bucket, .arrived⟩)
  | s, .proceed i => s.act (OperatorCache.proceed manager) i ()

/-- No operator and no call. -/
def noOperators : OperatorCalls := ⟨⟨fun _ => none, 0⟩, []⟩

/-! ## What a call knows -/

/-- The bucket passes the checks, and its operator can be built. -/
structure Buildable (manager : StorageManager) (bucket : Str) : Prop where
  name : (bucket.isEmpty || bucket.contains '/') = false
  isS3 : manager.isS3 = true
  built : manager.buildS3Operator bucket = .ok ()

theorem Buildable.operatorForBucket {manager : StorageManager} {bucket : Str}
    (buildable : Buildable manager bucket) : manager.operatorForBucket bucket = .ok () := by
  rw [StorageManager.operatorForBucket, buildable.name, buildable.isS3, buildable.built]
  rfl

/-- What is so at each point of a call. -/
def OperatorCall.Ok (manager : StorageManager) (cache : OperatorCache) (call : OperatorCall) :
    Prop :=
  match call.point with
  | .arrived => True
  | .building => (call.bucket.isEmpty || call.bucket.contains '/') = false ∧ manager.isS3 = true
  | .storing operator => Buildable manager call.bucket ∧ operator.bucket = call.bucket
  | .returned (.ok operator) => cache.operators call.bucket = some operator
  | .returned (.error error) => manager.operatorForBucket call.bucket = .error error

/-- The cache holds operators of buckets that can be built. -/
structure OperatorCache.Valid (manager : StorageManager) (cache : OperatorCache) : Prop where
  operators : ∀ bucket operator, cache.operators bucket = some operator →
    Buildable manager bucket ∧ operator.bucket = bucket

/-- The operators that are there stay. -/
def OperatorCache.Grows (before after : OperatorCache) : Prop :=
  ∀ bucket operator, before.operators bucket = some operator →
    after.operators bucket = some operator

theorem OperatorCall.Ok.mono {manager : StorageManager} {before after : OperatorCache}
    (grows : before.Grows after) {call : OperatorCall} (ok : call.Ok manager before) :
    call.Ok manager after := by
  obtain ⟨bucket, point⟩ := call
  match point with
  | .arrived => exact ok
  | .building => exact ok
  | .storing _ => exact ok
  | .returned (.ok operator) => exact grows bucket operator ok
  | .returned (.error _) => exact ok

theorem grows_update {cache : OperatorCache} {bucket : Str}
    (absent : cache.operators bucket = none) (operator : Operator) :
    cache.Grows { cache with
      operators := Function.update cache.operators bucket (some operator) } := by
  intro other here found
  have differ : other ≠ bucket := by
    rintro rfl
    rw [absent] at found
    cases found
  exact (Function.update_of_ne differ ..).trans found

/-- One step of a call. -/
theorem proceed_ok {manager : StorageManager} {cache cache' : OperatorCache}
    {call call' : OperatorCall} (valid : cache.Valid manager) (ok : call.Ok manager cache)
    (moved : cache.proceed manager call () = some (cache', call')) :
    cache'.Valid manager ∧ cache.Grows cache' ∧ call'.Ok manager cache' ∧
      call'.bucket = call.bucket := by
  obtain ⟨bucket, point⟩ := call
  have still : cache.Grows cache := fun _ _ found => found
  cases point with
  | arrived =>
      simp only [OperatorCache.proceed] at moved
      split at moved
      · rename_i invalid
        cases moved
        exact ⟨valid, still, if_pos invalid, rfl⟩
      · rename_i named
        have name := Bool.eq_false_iff.mpr named
        split at moved
        · rename_i isS3
          split at moved
          · rename_i operator found
            cases moved
            exact ⟨valid, still, found, rfl⟩
          · cases moved
            exact ⟨valid, still, ⟨name, isS3⟩, rfl⟩
        · rename_i localBackend
          cases moved
          refine ⟨valid, still, ?_, rfl⟩
          change manager.operatorForBucket bucket = _
          rw [StorageManager.operatorForBucket, if_neg named, if_neg localBackend]
  | building =>
      obtain ⟨name, isS3⟩ := ok
      simp only [OperatorCache.proceed] at moved
      split at moved
      · rename_i built
        cases moved
        exact ⟨⟨valid.operators⟩, still, ⟨⟨name, isS3, built⟩, rfl⟩, rfl⟩
      · rename_i error failed
        cases moved
        refine ⟨valid, still, ?_, rfl⟩
        change manager.operatorForBucket bucket = _
        change (bucket.isEmpty || bucket.contains '/') = false at name
        rw [StorageManager.operatorForBucket, name, isS3]
        exact failed
  | storing operator =>
      obtain ⟨buildable, own⟩ := ok
      simp only [OperatorCache.proceed] at moved
      split at moved
      · rename_i other found
        cases moved
        exact ⟨valid, still, found, rfl⟩
      · rename_i absent
        cases moved
        refine ⟨⟨fun other here found => ?_⟩, grows_update absent operator,
          Function.update_self .., rfl⟩
        by_cases same : other = bucket
        · subst same
          change Function.update cache.operators other (some operator) other = _ at found
          rw [Function.update_self] at found
          cases found
          exact ⟨buildable, own⟩
        · change Function.update cache.operators bucket (some operator) other = _ at found
          rw [Function.update_of_ne same] at found
          exact valid.operators other here found
  | returned result => cases moved

/-! ## Runs -/

structure OperatorsValid (manager : StorageManager) (s : OperatorCalls) : Prop where
  cache : s.shared.Valid manager
  calls : ∀ call ∈ s.processes, call.Ok manager s.shared

theorem OperatorsValid.of_operatorStep {manager : StorageManager} {s t : OperatorCalls}
    {action : OperatorAction} (valid : OperatorsValid manager s)
    (moved : operatorStep manager s action = some t) : OperatorsValid manager t := by
  cases action with
  | call bucket =>
      cases moved
      exact ⟨valid.cache, forall_spawn valid.calls trivial⟩
  | proceed i =>
      obtain ⟨call, call', cache, found, stepped, rfl⟩ := act_eq_some moved
      obtain ⟨kept, grows, ok, -⟩ :=
        proceed_ok valid.cache (valid.calls call (List.mem_of_getElem? found)) stepped
      exact ⟨kept, forall_set (fun other member => (valid.calls other member).mono grows) ok⟩

/-- What calls of `operator_for_bucket` return. -/
structure OperatorsShared (manager : StorageManager) (s : OperatorCalls) : Prop where
  /-- A call returns what one without the cache does. -/
  result : ∀ call ∈ s.processes, ∀ result, call.point = .returned result →
    result.map (fun _ => ()) = manager.operatorForBucket call.bucket
  own : ∀ call ∈ s.processes, ∀ operator, call.point = .returned (.ok operator) →
    operator.bucket = call.bucket
  /-- All calls for a bucket have the same operator. -/
  one : ∀ first ∈ s.processes, ∀ second ∈ s.processes, first.bucket = second.bucket →
    ∀ operator operator', first.point = .returned (.ok operator) →
      second.point = .returned (.ok operator') → operator = operator'

/-- **One operator for a bucket**, in every order of the steps of the calls. -/
theorem operators_shared (manager : StorageManager) {s : OperatorCalls}
    (run : Reachable (operatorStep manager) noOperators s) : OperatorsShared manager s := by
  have valid : OperatorsValid manager s :=
    Run.invariant run ⟨⟨nofun⟩, nofun⟩ fun valid _ => valid.of_operatorStep
  have stored : ∀ call ∈ s.processes, ∀ operator, call.point = .returned (.ok operator) →
      s.shared.operators call.bucket = some operator := by
    intro call member operator point
    have ok := valid.calls call member
    rwa [OperatorCall.Ok, point] at ok
  refine ⟨fun call member result point => ?_, fun call member operator point => ?_,
    fun first one second two same operator operator' point point' => ?_⟩
  · cases result with
    | ok operator =>
        have found := stored call member operator point
        exact (valid.cache.operators _ _ found).1.operatorForBucket.symm
    | error error =>
        have ok := valid.calls call member
        rw [OperatorCall.Ok, point] at ok
        exact ok.symm
  · exact (valid.cache.operators _ _ (stored call member operator point)).2
  · have here := stored first one operator point
    rw [same, stored second two operator' point'] at here
    exact (Option.some.inj here).symm

/-- Two calls that both find no operator and both build one. -/
def bothBuild : List OperatorAction :=
  [.call "x".toList, .call "x".toList, .proceed 0, .proceed 1, .proceed 0, .proceed 1,
    .proceed 1, .proceed 0]

theorem operators_shared_both :
    ∃ s, exec (operatorStep ⟨true, fun _ => .ok ()⟩) anything noOperators bothBuild = some s ∧
      s.shared.built = 2 ∧ OperatorsShared ⟨true, fun _ => .ok ()⟩ s :=
  ⟨_, rfl, rfl, operators_shared _
    (@run_of_exec _ _ (operatorStep ⟨true, fun _ => .ok ()⟩) anything _ _ bothBuild rfl)⟩

end VideoStorage.Jobs
