import VideoStorage.Claim.Connections

/-!
# One bucket per live token

A life of a token's bucket ends when clean-up removes it. Within one life all
calls of `get_or_create_bucket` should return the same bucket, so that two
requests of one token draw on one allowance.

The insertion does not look again. It happens under a second lock, and when two
first requests both miss, each inserts a bucket of its own
(`two_first_requests_two_buckets`). Where every insertion finds no bucket in the
map, one bucket per life is an invariant (`oneBucket_of_absent`).
-/

set_option autoImplicit false

namespace VideoStorage.Claim

open TransitionSystem Concurrent

/-- Two calls for one token that returned in one life returned one bucket. -/
def Agrees (request other : Request) : Prop :=
  request.key = other.key → ∀ returned ∈ request.returned, ∀ returned' ∈ other.returned,
    returned.life = returned'.life → returned.cell = returned'.cell

/-- All calls for a token that returned in one life returned the same bucket. -/
def OneBucket (s : Connections) : Prop :=
  ∀ request ∈ s.processes, ∀ other ∈ s.processes, Agrees request other

theorem Agrees.symm {request other : Request} (agree : Agrees request other) :
    Agrees other request :=
  fun key returned here returned' there life => (agree key.symm returned' there returned here
    life.symm).symm

theorem Agrees.refl (request : Request) : Agrees request request := by
  intro _ returned here returned' there _
  cases here.symm.trans there
  rfl

/-- A request that agrees with the others can take the place of one of them. -/
theorem oneBucket_set {processes : List Request} {i : Nat} {request : Request}
    (old : ∀ r ∈ processes, ∀ other ∈ processes, Agrees r other)
    (new : ∀ r ∈ processes, Agrees r request) :
    ∀ r ∈ processes.set i request, ∀ other ∈ processes.set i request, Agrees r other :=
  forall_set (fun r member => forall_set (old r member) (new r member))
    (forall_set (fun r member => (new r member).symm) (.refl request))

/-- An insertion finds no bucket of its token in the map. -/
def createsWhenAbsent (s : Connections) : ConnectionAction → Bool
  | .request i (.create _) =>
      s.processes[i]?.all fun request => (s.shared.store.getBucket request.key).isNone
  | _ => true

/-- What a step of a request does to the map and to what was returned: nothing,
or it returns the bucket that stands in the map, or it inserts one. -/
inductive Returning (shared : Shared) (request : Request) (action : RequestAction) (next : Shared)
    (request' : Request) : Prop where
  | quiet (map : next.store.buckets = shared.store.buckets)
      (returned : request'.returned = request.returned)
  | found {cell : Nat} (map : next.store.buckets = shared.store.buckets)
      (here : shared.store.buckets request.key = some cell)
      (returned : request'.returned = some ⟨shared.lives request.key, cell⟩)
  | inserted (reading : UInt64) (creating : action = .create reading)
      (map : next.store.buckets =
        Function.update shared.store.buckets request.key (some shared.store.cells.length))
      (returned : request'.returned = some ⟨shared.lives request.key, shared.store.cells.length⟩)

theorem returning_of_step {terms : BucketKey → BucketTerms} {shared next : Shared}
    {request request' : Request} {action : RequestAction}
    (step : RequestStep terms shared request action next request') :
    request'.key = request.key ∧ next.lives = shared.lives ∧
      Returning shared request action next request' := by
  cases step with
  | hit reading phase found => exact ⟨rfl, rfl, .found rfl found rfl⟩
  | miss reading phase absent => exact ⟨rfl, rfl, .quiet rfl rfl⟩
  | create reading phase => exact ⟨rfl, rfl, .inserted reading rfl rfl rfl⟩
  | admitted phase acquired =>
      exact ⟨rfl, rfl, .quiet (BucketStore.buckets_of_acquired acquired) rfl⟩
  | reject phase => exact ⟨rfl, rfl, .quiet rfl rfl⟩
  | touch reading phase => exact ⟨rfl, rfl, .quiet (by simp) rfl⟩
  | respond phase => exact ⟨rfl, rfl, .quiet (by simp) rfl⟩
  | sent phase => exact ⟨rfl, rfl, .quiet rfl rfl⟩

/-- What a request was returned belongs to a life that has begun; in the present
life it is the bucket in the map. -/
def UpToDate (shared : Shared) (request : Request) : Prop :=
  ∀ returned ∈ request.returned, returned.life ≤ shared.lives request.key ∧
    (returned.life = shared.lives request.key →
      shared.store.buckets request.key = some returned.cell)

structure OneBucketInvariant (s : Connections) : Prop where
  upToDate : ∀ request ∈ s.processes, UpToDate s.shared request
  oneBucket : OneBucket s

section Requests

variable {s : Connections} {i : Nat} {request request' : Request} {next : Shared}

/-- A request that was returned nothing new keeps the invariant. -/
theorem OneBucketInvariant.quiet (inv : OneBucketInvariant s)
    (found : s.processes[i]? = some request) (key : request'.key = request.key)
    (lives : next.lives = s.shared.lives) (map : next.store.buckets = s.shared.store.buckets)
    (returned : request'.returned = request.returned) :
    OneBucketInvariant ⟨next, s.processes.set i request'⟩ := by
  have member := List.mem_of_getElem? found
  refine ⟨forall_set (fun r inside => ?_) ?_, oneBucket_set inv.oneBucket fun r inside => ?_⟩
  · rw [UpToDate, lives, map]
    exact inv.upToDate r inside
  · rw [UpToDate, key, lives, map, returned]
    exact inv.upToDate request member
  · rw [Agrees, key, returned]
    exact inv.oneBucket r inside request member

/-- A request may be returned the bucket that the map now holds, when all calls
that returned in the present life returned that one. -/
theorem OneBucketInvariant.returns {cell : Nat} (inv : OneBucketInvariant s)
    (key : request'.key = request.key) (lives : next.lives = s.shared.lives)
    (map : next.store.buckets request.key = some cell)
    (others : ∀ other ≠ request.key, next.store.buckets other = s.shared.store.buckets other)
    (returned : request'.returned = some ⟨s.shared.lives request.key, cell⟩)
    (current : ∀ r ∈ s.processes, r.key = request.key → ∀ ret ∈ r.returned,
      ret.life = s.shared.lives request.key → ret.cell = cell) :
    OneBucketInvariant ⟨next, s.processes.set i request'⟩ := by
  refine ⟨forall_set (fun r inside ret held => ?_) ?_,
    oneBucket_set inv.oneBucket fun r inside => ?_⟩
  · rw [lives]
    refine ⟨(inv.upToDate r inside ret held).1, fun life => ?_⟩
    by_cases keys : r.key = request.key
    · rw [keys] at life ⊢
      rw [map, current r inside keys ret held life]
    · rw [others r.key keys]
      exact (inv.upToDate r inside ret held).2 life
  · rw [UpToDate, key, lives, returned]
    rintro _ ⟨⟩
    exact ⟨Nat.le_refl _, fun _ => map⟩
  · rw [Agrees, key, returned]
    rintro keys ret held _ ⟨⟩ life
    exact current r inside keys ret held life

/-- What was returned in the present life is the bucket in the map. -/
theorem OneBucketInvariant.current (inv : OneBucketInvariant s) {r : Request}
    (inside : r ∈ s.processes) (keys : r.key = request.key) {ret : Returned}
    (held : ret ∈ r.returned) (life : ret.life = s.shared.lives request.key) :
    s.shared.store.buckets request.key = some ret.cell := by
  rw [← keys] at life ⊢
  exact (inv.upToDate r inside ret held).2 life

/-- A step of a request keeps the invariant, when an insertion finds no
bucket. -/
theorem invariant_request {terms : BucketKey → BucketTerms} {action : RequestAction}
    (inv : OneBucketInvariant s) (found : s.processes[i]? = some request)
    (allowed : createsWhenAbsent s (.request i action) = true)
    (step : RequestStep terms s.shared request action next request') :
    OneBucketInvariant ⟨next, s.processes.set i request'⟩ := by
  obtain ⟨key, lives, returning⟩ := returning_of_step step
  cases returning with
  | quiet map returned => exact inv.quiet found key lives map returned
  | found map here returned =>
      refine inv.returns key lives (map ▸ here) (fun _ _ => by rw [map]) returned ?_
      intro r inside keys ret held life
      exact Option.some.inj ((inv.current inside keys held life).symm.trans here)
  | inserted reading creating map returned =>
      -- The bucket is inserted where nothing stands, so no call has returned in this life.
      have absent : s.shared.store.buckets request.key = none := by
        simpa [creating, createsWhenAbsent, found, BucketStore.getBucket] using allowed
      refine inv.returns key lives (by rw [map, Function.update_self])
        (fun other differ => by rw [map, Function.update_of_ne differ]) returned ?_
      intro r inside keys ret held life
      cases absent.symm.trans (inv.current inside keys held life)

end Requests

/-- Clean-up keeps the invariant: a removed bucket ends its life. -/
theorem invariant_cleanup {s : Connections} (inv : OneBucketInvariant s) (nowMs : UInt64)
    (nowUnix : UInt32) :
    OneBucketInvariant ⟨s.shared.cleanup nowMs nowUnix, s.processes⟩ := by
  refine ⟨fun request member returned here => ?_, inv.oneBucket⟩
  obtain ⟨past, current⟩ := inv.upToDate request member returned here
  simp only [Shared.cleanup]
  split
  · rename_i kept
    exact ⟨past, fun life => kept.trans (current life)⟩
  · exact ⟨Nat.le_succ_of_le past, fun life => by omega⟩

theorem invariant_step {terms : BucketKey → BucketTerms} {s t : Connections}
    {action : ConnectionAction} (inv : OneBucketInvariant s)
    (allowed : createsWhenAbsent s action = true)
    (step : connectionStep terms s action = some t) : OneBucketInvariant t := by
  cases action with
  | arrive key =>
      cases step
      have nothing : ∀ r : Request, Agrees r ⟨key, .arrived, none⟩ := fun r _ _ _ _ there _ => by
        cases there
      refine ⟨forall_spawn inv.upToDate fun _ here => ?_, ?_⟩
      · cases here
      · exact forall_spawn (fun r member => forall_spawn (inv.oneBucket r member) (nothing r))
          (forall_spawn (fun r member => (nothing r).symm) (nothing _))
  | request i action =>
      obtain ⟨request, request', next, found, moved, rfl⟩ := act_eq_some step
      exact invariant_request inv found allowed (requestStep_cases moved)
  | cleanup nowMs nowUnix =>
      cases step
      exact invariant_cleanup inv nowMs nowUnix

/-- **One bucket per live token**, in every run whose insertions find no bucket
of their token. -/
theorem oneBucket_of_absent {terms : BucketKey → BucketTerms} {s : Connections}
    (run : Run (connectionStep terms) createsWhenAbsent noConnections s) : OneBucket s := by
  have start : OneBucketInvariant noConnections :=
    ⟨fun _ member => (nomatch member), fun _ member => (nomatch member)⟩
  exact (Run.invariant run start invariant_step).oneBucket

/-- A first request that inserts the bucket, and a second one that finds it. -/
def oneAfterTheOther : List ConnectionAction :=
  [.arrive demoKey, .arrive demoKey, .request 0 (.lookup 0), .request 0 (.create 0),
    .request 1 (.lookup 0)]

theorem oneBucket_of_absent_twice :
    ∃ s, exec (connectionStep oneConnection) createsWhenAbsent noConnections oneAfterTheOther =
        some s ∧
      s.processes.map Request.returned = [some ⟨0, 0⟩, some ⟨0, 0⟩] ∧ OneBucket s :=
  ⟨_, rfl, rfl, oneBucket_of_absent
    (@run_of_exec _ _ (connectionStep oneConnection) _ noConnections _ oneAfterTheOther rfl)⟩

/-- Two first requests that both miss draw on two buckets. -/
theorem two_first_requests_two_buckets :
    ∃ s, exec (connectionStep oneConnection) anything noConnections
        [.arrive demoKey, .arrive demoKey, .request 0 (.lookup 0), .request 1 (.lookup 0),
          .request 0 (.create 0), .request 1 (.create 0)] = some s ∧
      s.processes.map Request.returned = [some ⟨0, 0⟩, some ⟨0, 1⟩] ∧ ¬ OneBucket s := by
  refine ⟨_, rfl, rfl, fun one => ?_⟩
  exact absurd (one _ (List.mem_cons_self ..) _ (List.mem_cons_of_mem _ (List.mem_cons_self ..))
    rfl _ rfl _ rfl rfl) (by decide)

end VideoStorage.Claim
