import VideoStorage.Claim.Connections

/-!
# The connection limit of a token

A token with a connection limit should have at most that many requests admitted
whose response body is not fully sent. The slot of a request is freed when its
handler returns, and the body is sent after that, so a request that is still
streaming no longer counts (`streaming_request_frees_slot`). Two more ways lead
past the limit: a second bucket inserted over the first, and clean-up dropping
the bucket of requests that are still running, both of which give the token a
fresh set of slots.

Where none of the three happens, the slots of the token's bucket together with
the permits held make up the limit, and nobody is admitted while a body is being
sent, so the limit holds in every state of the run (`active_le_limit`).
-/

set_option autoImplicit false

namespace VideoStorage.Claim

open TransitionSystem Concurrent

/-! ## Counting the requests of a token -/

/-- The requests of a token in some phases. -/
def countPhase (key : BucketKey) (p : Phase → Bool) (requests : List Request) : Nat :=
  requests.countP fun request => decide (request.key = key) && p request.phase

/-- The requests of a token that are admitted and not fully answered. -/
def active (key : BucketKey) (s : Connections) : Nat := countPhase key Phase.isActive s.processes

section Counting

variable {key : BucketKey} {requests : List Request} {i : Nat} {request : Request}

theorem countPhase_set_own (p : Phase → Bool) (found : requests[i]? = some request)
    (own : request.key = key) (request' : Request) (same : request'.key = request.key) :
    countPhase key p (requests.set i request') + (p request.phase).toNat =
      countPhase key p requests + (p request'.phase).toNat := by
  have counted := countP_set_add (p := fun r : Request => decide (r.key = key) && p r.phase)
    found request'
  rwa [same, decide_eq_true own, Bool.true_and, Bool.true_and] at counted

theorem countPhase_set_foreign (p : Phase → Bool) (found : requests[i]? = some request)
    (foreign : request.key ≠ key) (request' : Request) (same : request'.key = request.key) :
    countPhase key p (requests.set i request') = countPhase key p requests := by
  have counted := countP_set_add (p := fun r : Request => decide (r.key = key) && p r.phase)
    found request'
  rwa [same, decide_eq_false foreign, Bool.false_and, Bool.false_and] at counted

/-- A phase that no request of the token is in counts none. -/
theorem countPhase_eq_zero {p : Phase → Bool}
    (none : ∀ r ∈ requests, r.key = key → p r.phase = false) : countPhase key p requests = 0 := by
  refine List.countP_eq_zero.mpr fun r member => ?_
  by_cases own : r.key = key
  · simp [none r member own]
  · simp [own]

end Counting

/-! ## What the steps may do -/

/-- The conditions under which the limit of a token holds: it admits nobody
while a response body of the token is being sent, it inserts a bucket for the
token only where there is none, and clean-up does not remove the bucket of the
token while a request uses one. -/
def keepsSlots (key : BucketKey) (s : Connections) : ConnectionAction → Bool
  | .request i .acquire => s.processes[i]?.all fun request =>
      decide (request.key ≠ key) || decide (countPhase key Phase.isStreaming s.processes = 0)
  | .request i (.create _) => s.processes[i]?.all fun request =>
      decide (request.key ≠ key) || (s.shared.store.getBucket key).isNone
  | .cleanup nowMs nowUnix =>
      decide ((s.shared.store.cleanupExpired nowMs nowUnix).getBucket key =
        s.shared.store.getBucket key) ||
      s.processes.all fun request => decide (request.key ≠ key) || request.phase.cell.isNone
  | _ => true

/-! ## Whose bucket a cell is -/

/-- Every cell in use belongs to one token. -/
structure Owned (owner : Nat → BucketKey) (s : Connections) : Prop where
  map : ∀ key cell, s.shared.store.buckets key = some cell →
    cell < s.shared.store.cells.length ∧ owner cell = key
  requests : ∀ request ∈ s.processes, ∀ cell, request.phase.cell = some cell →
    cell < s.shared.store.cells.length ∧ owner cell = request.key

/-- What a step of a request leaves alone: the map at other tokens and the slots
of other buckets. Its bucket is the one it had, the one in the map or a new
one. -/
structure Frame (shared next : Shared) (request request' : Request) : Prop where
  key : request'.key = request.key
  others : ∀ key ≠ request.key, next.store.buckets key = shared.store.buckets key
  slots : ∀ cell < shared.store.cells.length, request.phase.cell ≠ some cell →
    next.store.slots cell = shared.store.slots cell
  grows : shared.store.cells.length ≤ next.store.cells.length
  own : next.store.buckets request.key = shared.store.buckets request.key ∨
    next.store.buckets request.key = some shared.store.cells.length ∧
      shared.store.cells.length < next.store.cells.length
  cell : ∀ cell, request'.phase.cell = some cell →
    request.phase.cell = some cell ∨ shared.store.buckets request.key = some cell ∨
      cell = shared.store.cells.length ∧ shared.store.cells.length < next.store.cells.length

theorem frame_of_step {terms : BucketKey → BucketTerms} {shared next : Shared}
    {request request' : Request} {action : RequestAction}
    (step : RequestStep terms shared request action next request') :
    Frame shared next request request' := by
  cases step with
  | @hit cell reading phase found =>
      refine ⟨rfl, fun _ _ => rfl, fun _ _ _ => by simp, by simp, .inl rfl, fun other here => ?_⟩
      cases here
      exact .inr (.inl found)
  | miss reading phase absent =>
      exact ⟨rfl, fun _ _ => rfl, fun _ _ _ => rfl, Nat.le_refl _, .inl rfl, fun _ here => by
        cases here⟩
  | create reading phase =>
      have longer := BucketStore.length_createBucket shared.store request.key (terms request.key)
        reading
      refine ⟨rfl, fun key other => Function.update_of_ne other .., fun cell less _ => ?_, ?_,
        .inr ⟨Function.update_self .., ?_⟩, fun cell here => ?_⟩
      · rw [BucketStore.slots_createBucket, if_neg (Nat.ne_of_lt less)]
      · rw [longer]
        exact Nat.le_succ _
      · rw [longer]
        exact Nat.lt_succ_self _
      · cases here
        exact .inr (.inr ⟨rfl, by rw [longer]; exact Nat.lt_succ_self _⟩)
  | @admitted cell permit store phase acquired =>
      refine ⟨rfl, fun _ _ => by rw [BucketStore.buckets_of_acquired acquired],
        fun other _ differ => ?_, Nat.le_of_eq (BucketStore.length_of_acquired acquired).symm,
        .inl (by rw [BucketStore.buckets_of_acquired acquired]), fun other here => ?_⟩
      · rcases BucketStore.slots_of_acquired acquired with ⟨-, rfl, -⟩ | ⟨-, _, _, -, -, same⟩
        · rfl
        · refine same other fun equal => differ ?_
          rw [phase, equal]
          rfl
      · exact .inl (by rw [phase]; exact here)
  | reject phase =>
      exact ⟨rfl, fun _ _ => rfl, fun _ _ _ => rfl, Nat.le_refl _, .inl rfl, fun _ here => by
        cases here⟩
  | touch reading phase =>
      exact ⟨rfl, fun _ _ => by simp, fun _ _ _ => by simp, by simp, .inl (by simp),
        fun _ here => .inl (by rw [phase]; exact here)⟩
  | @respond cell permit phase =>
      refine ⟨rfl, fun _ _ => by simp, fun other _ differ => ?_, by simp, .inl (by simp),
        fun _ here => .inl (by rw [phase]; exact here)⟩
      rw [BucketStore.slots_dropGuard, if_neg]
      rintro ⟨-, rfl⟩
      exact differ (by rw [phase]; rfl)
  | sent phase =>
      exact ⟨rfl, fun _ _ => rfl, fun _ _ _ => rfl, Nat.le_refl _, .inl rfl, fun _ here => by
        cases here⟩

/-- Cells keep their owners; a new cell belongs to the token it is created
for. -/
theorem owned_request {owner : Nat → BucketKey} {s : Connections} {i : Nat}
    {request request' : Request} {next : Shared} (owned : Owned owner s)
    (found : s.processes[i]? = some request) (frame : Frame s.shared next request request') :
    Owned (Function.update owner s.shared.store.cells.length request.key)
      ⟨next, s.processes.set i request'⟩ := by
  have old : ∀ cell key, cell < s.shared.store.cells.length ∧ owner cell = key →
      cell < next.store.cells.length ∧
        Function.update owner s.shared.store.cells.length request.key cell = key := by
    rintro cell key ⟨less, rfl⟩
    exact ⟨Nat.lt_of_lt_of_le less frame.grows, Function.update_of_ne (Nat.ne_of_lt less) ..⟩
  have new : s.shared.store.cells.length < next.store.cells.length →
      s.shared.store.cells.length < next.store.cells.length ∧
        Function.update owner s.shared.store.cells.length request.key
          s.shared.store.cells.length = request.key :=
    fun longer => ⟨longer, Function.update_self ..⟩
  refine ⟨fun key cell here => ?_, forall_set (fun r member cell here => ?_) fun cell here => ?_⟩
  · by_cases own : key = request.key
    · subst own
      rcases frame.own with same | ⟨inserted, longer⟩
      · exact old cell _ (owned.map _ cell (same ▸ here))
      · cases inserted.symm.trans here
        exact new longer
    · exact old cell key (owned.map key cell (frame.others key own ▸ here))
  · exact old cell r.key (owned.requests r member cell here)
  · rw [frame.key]
    rcases frame.cell cell here with same | inMap | ⟨rfl, longer⟩
    · exact old cell _ (owned.requests request (List.mem_of_getElem? found) cell same)
    · exact old cell _ (owned.map _ cell inMap)
    · exact new longer

/-! ## The limit -/

/-- The limit of a token. -/
def limitOf (terms : BucketKey → BucketTerms) (key : BucketKey) : UInt16 :=
  (terms key).limits.maxConcurrency

/-- The requests of the token use the bucket in the map, its free slots and the
permits held make up the limit, and with the bodies being sent the permits do
not exceed it. -/
structure LimitInvariant (terms : BucketKey → BucketTerms) (key : BucketKey) (s : Connections) :
    Prop where
  holds : ∀ request ∈ s.processes, request.key = key → ∀ cell, request.phase.cell = some cell →
    s.shared.store.buckets key = some cell
  permitted : ∀ request ∈ s.processes, request.key = key →
    request.phase.isActive = (request.phase.holdsPermit || request.phase.isStreaming)
  slots : ∀ cell, s.shared.store.buckets key = some cell → ∃ free,
    s.shared.store.slots cell = some (limitOf terms key, free) ∧
      free + countPhase key Phase.holdsPermit s.processes = (limitOf terms key).toNat
  bound : countPhase key Phase.holdsPermit s.processes +
    countPhase key Phase.isStreaming s.processes ≤ (limitOf terms key).toNat

section Limit

variable {terms : BucketKey → BucketTerms} {key : BucketKey} {s : Connections} {next : Shared}
  {i : Nat} {request request' : Request}

theorem active_le_of_invariant (inv : LimitInvariant terms key s) :
    active key s ≤ (limitOf terms key).toNat := by
  refine Nat.le_trans (countP_le_add fun r member busy => ?_) inv.bound
  simp only [Bool.and_eq_true, decide_eq_true_eq] at busy ⊢
  have covered := inv.permitted r member busy.1
  rw [busy.2, eq_comm, Bool.or_eq_true] at covered
  exact covered.imp (⟨busy.1, ·⟩) (⟨busy.1, ·⟩)

/-- A step that leaves the bucket of the token, its slots and the permits alone
and starts no body keeps the invariant. -/
theorem LimitInvariant.keep {processes : List Request} (inv : LimitInvariant terms key s)
    (map : next.store.buckets key = s.shared.store.buckets key)
    (slots : ∀ cell, s.shared.store.buckets key = some cell →
      next.store.slots cell = s.shared.store.slots cell)
    (holds : ∀ r ∈ processes, r.key = key → ∀ cell, r.phase.cell = some cell →
      s.shared.store.buckets key = some cell)
    (permitted : ∀ r ∈ processes, r.key = key →
      r.phase.isActive = (r.phase.holdsPermit || r.phase.isStreaming))
    (permits : countPhase key Phase.holdsPermit processes =
      countPhase key Phase.holdsPermit s.processes)
    (bodies : countPhase key Phase.isStreaming processes ≤
      countPhase key Phase.isStreaming s.processes) :
    LimitInvariant terms key ⟨next, processes⟩ where
  holds r member own cell here := map.trans (holds r member own cell here)
  permitted := permitted
  slots cell here := by
    rw [map] at here
    rw [slots cell here, permits]
    exact inv.slots cell here
  bound := by
    rw [permits]
    exact Nat.le_trans (Nat.add_le_add_left bodies _) inv.bound

/-- A step of another token's request does not touch the bucket of the token. -/
theorem limit_foreign {owner : Nat → BucketKey} (owned : Owned owner s)
    (inv : LimitInvariant terms key s) (found : s.processes[i]? = some request)
    (foreign : request.key ≠ key) (frame : Frame s.shared next request request') :
    LimitInvariant terms key ⟨next, s.processes.set i request'⟩ := by
  have foreign' : request'.key ≠ key := frame.key ▸ foreign
  refine inv.keep (frame.others key foreign.symm) (fun cell here => ?_)
    (forall_set inv.holds fun own => absurd own foreign')
    (forall_set inv.permitted fun own => absurd own foreign')
    (countPhase_set_foreign _ found foreign request' frame.key)
    (Nat.le_of_eq (countPhase_set_foreign _ found foreign request' frame.key))
  obtain ⟨less, mine⟩ := owned.map key cell here
  refine frame.slots cell less fun same => foreign ?_
  exact (owned.requests request (List.mem_of_getElem? found) cell same).2.symm.trans mine

/-- A step of a request of the token that only changes how far the request is
keeps the invariant. -/
theorem LimitInvariant.keep_own (inv : LimitInvariant terms key s)
    (found : s.processes[i]? = some request) (own : request.key = key)
    (same : request'.key = request.key)
    (map : next.store.buckets = s.shared.store.buckets)
    (slots : ∀ cell, next.store.slots cell = s.shared.store.slots cell)
    (cell : ∀ cell, request'.phase.cell = some cell → s.shared.store.buckets key = some cell)
    (permitted : request'.phase.isActive =
      (request'.phase.holdsPermit || request'.phase.isStreaming))
    (permit : request'.phase.holdsPermit = request.phase.holdsPermit)
    (body : request'.phase.isStreaming.toNat ≤ request.phase.isStreaming.toNat) :
    LimitInvariant terms key ⟨next, s.processes.set i request'⟩ := by
  have permits := countPhase_set_own Phase.holdsPermit found own request' same
  have bodies := countPhase_set_own Phase.isStreaming found own request' same
  rw [permit] at permits
  refine inv.keep (congrFun map key) (fun cell _ => slots cell) (forall_set inv.holds fun _ => cell)
    (forall_set inv.permitted fun _ => permitted) (Nat.add_right_cancel permits) ?_
  omega

/-- Where the map holds no bucket of the token, an insertion gives the token all
its slots. -/
theorem limit_create {reading : UInt64} (inv : LimitInvariant terms request.key s)
    (found : s.processes[i]? = some request) (phase : request.phase = .missed)
    (absent : s.shared.store.buckets request.key = none) :
    LimitInvariant terms request.key
      ⟨{ s.shared with
          store := (s.shared.store.createBucket request.key (terms request.key) reading).2 },
        s.processes.set i (request.obtains s.shared s.shared.store.cells.length)⟩ := by
  have permits := countPhase_set_own Phase.holdsPermit found rfl
    (request.obtains s.shared s.shared.store.cells.length) rfl
  have bodies := countPhase_set_own Phase.isStreaming found rfl
    (request.obtains s.shared s.shared.store.cells.length) rfl
  rw [phase] at permits bodies
  have unused : ∀ r ∈ s.processes, r.key = request.key → r.phase.cell = none := by
    intro r inside keys
    refine Option.eq_none_iff_forall_ne_some.mpr fun cell here => ?_
    cases absent.symm.trans (inv.holds r inside keys cell here)
  have noPermit : countPhase request.key Phase.holdsPermit s.processes = 0 :=
    countPhase_eq_zero fun r inside keys => Phase.holdsPermit_of_cell (unused r inside keys)
  refine ⟨forall_set (fun r inside keys cell here => ?_) fun _ cell here => ?_,
    forall_set inv.permitted fun _ => rfl, fun cell here => ?_, ?_⟩
  · cases (unused r inside keys).symm.trans here
  · cases here
    exact Function.update_self ..
  · cases (Function.update_self ..).symm.trans here
    refine ⟨_, (BucketStore.slots_createBucket ..).trans (if_pos rfl), ?_⟩
    exact (congrArg _ (permits.trans noPermit)).trans (Nat.add_zero _)
  · exact Nat.le_trans (Nat.add_le_add (Nat.le_of_eq permits) (Nat.le_of_eq bodies)) inv.bound

/-- An admission takes a free slot. While no body is being sent the permits are
all that counts. -/
theorem limit_admitted {cell : Nat} {permit : Bool} {store : BucketStore}
    (limited : limitOf terms request.key ≠ 0) (inv : LimitInvariant terms request.key s)
    (found : s.processes[i]? = some request) (phase : request.phase = .verified cell)
    (quiet : countPhase request.key Phase.isStreaming s.processes = 0)
    (acquired : s.shared.store.tryAcquireConnection cell = .ok (permit, store)) :
    LimitInvariant terms request.key ⟨{ s.shared with store },
      s.processes.set i { request with phase := .admitted cell permit }⟩ := by
  have holdsCell := inv.holds request (List.mem_of_getElem? found) rfl cell (by rw [phase]; rfl)
  have permits := countPhase_set_own Phase.holdsPermit found rfl
    { request with phase := .admitted cell permit } rfl
  have bodies := countPhase_set_own Phase.isStreaming found rfl
    { request with phase := .admitted cell permit } rfl
  rw [phase] at permits bodies
  obtain ⟨free, slots, sum⟩ := inv.slots cell holdsCell
  rcases BucketStore.slots_of_acquired acquired with
    ⟨-, -, _, unlimited⟩ | ⟨rfl, limit, free', before, after, -⟩
  · rw [slots, Option.some.injEq, Prod.mk.injEq] at unlimited
    exact absurd unlimited.1 limited
  · cases slots.symm.trans before
    simp only [Phase.holdsPermit, Phase.isStreaming, Bool.toNat_true, Bool.toNat_false,
      Nat.add_zero, quiet] at permits bodies
    have map := BucketStore.buckets_of_acquired acquired
    refine ⟨?_, forall_set inv.permitted fun _ => rfl, fun other here => ?_, ?_⟩
    · rw [map]
      exact forall_set inv.holds fun _ other here => by cases here; exact holdsCell
    · rw [map] at here
      cases holdsCell.symm.trans here
      exact ⟨free', after, by dsimp only; omega⟩
    · dsimp only
      omega

/-- A response frees the slot of its request and starts a body. -/
theorem limit_respond {cell : Nat} {permit : Bool} (inv : LimitInvariant terms request.key s)
    (found : s.processes[i]? = some request) (phase : request.phase = .handling cell permit) :
    LimitInvariant terms request.key
      ⟨{ s.shared with store := s.shared.store.dropGuard cell permit },
        s.processes.set i { request with phase := .streaming cell }⟩ := by
  have member := List.mem_of_getElem? found
  have holdsCell := inv.holds request member rfl cell (by rw [phase]; rfl)
  have held : permit = true := by
    have active := inv.permitted request member rfl
    rw [phase] at active
    simpa [Phase.isActive, Phase.holdsPermit, Phase.isStreaming] using active.symm
  subst held
  have permits := countPhase_set_own Phase.holdsPermit found rfl
    { request with phase := .streaming cell } rfl
  have bodies := countPhase_set_own Phase.isStreaming found rfl
    { request with phase := .streaming cell } rfl
  rw [phase] at permits bodies
  simp only [Phase.holdsPermit, Phase.isStreaming, Bool.toNat_true, Bool.toNat_false,
    Nat.add_zero] at permits bodies
  refine ⟨?_, forall_set inv.permitted fun _ => rfl, fun other here => ?_, ?_⟩
  · rw [BucketStore.buckets_dropGuard]
    exact forall_set inv.holds fun _ other here => by cases here; exact holdsCell
  · rw [BucketStore.buckets_dropGuard] at here
    cases holdsCell.symm.trans here
    obtain ⟨free, slots, sum⟩ := inv.slots cell here
    refine ⟨free + 1, ?_, by dsimp only; omega⟩
    rw [BucketStore.slots_dropGuard, if_pos ⟨rfl, rfl⟩, slots]
    rfl
  · have bound := inv.bound
    dsimp only
    omega

/-- A step of a request of the token keeps the invariant, under the conditions
on admissions and insertions. -/
theorem limit_own {action : RequestAction} (limited : limitOf terms key ≠ 0)
    (inv : LimitInvariant terms key s) (found : s.processes[i]? = some request)
    (own : request.key = key) (allowed : keepsSlots key s (.request i action) = true)
    (step : RequestStep terms s.shared request action next request') :
    LimitInvariant terms key ⟨next, s.processes.set i request'⟩ := by
  subst own
  have member := List.mem_of_getElem? found
  have holdsCell := inv.holds request member rfl
  have activeHere := inv.permitted request member rfl
  cases step with
  | hit reading phase here =>
      refine inv.keep_own found rfl rfl rfl (fun _ => by simp) (fun cell other => ?_) rfl
        (by rw [phase]; rfl) (Nat.zero_le _)
      cases other
      exact here
  | miss reading phase absent =>
      exact inv.keep_own found rfl rfl rfl (fun _ => rfl) nofun rfl (by rw [phase]; rfl)
        (Nat.zero_le _)
  | create reading phase =>
      refine limit_create inv found phase ?_
      simpa [keepsSlots, found, BucketStore.getBucket] using allowed
  | admitted phase acquired =>
      refine limit_admitted limited inv found phase ?_ acquired
      simpa [keepsSlots, found] using allowed
  | reject phase =>
      exact inv.keep_own found rfl rfl rfl (fun _ => rfl) nofun rfl (by rw [phase]; rfl)
        (Nat.zero_le _)
  | touch reading phase =>
      rw [phase] at activeHere holdsCell
      exact inv.keep_own found rfl rfl (by simp) (fun _ => by simp) holdsCell activeHere
        (by rw [phase]; rfl) (Nat.zero_le _)
  | respond phase => exact limit_respond inv found phase
  | sent phase =>
      exact inv.keep_own found rfl rfl rfl (fun _ => rfl) nofun rfl (by rw [phase]; rfl)
        (Nat.zero_le _)

/-- Clean-up keeps the invariant when it does not drop a bucket that is used. -/
theorem limit_cleanup {nowMs : UInt64} {nowUnix : UInt32} (inv : LimitInvariant terms key s)
    (allowed : keepsSlots key s (.cleanup nowMs nowUnix) = true) :
    LimitInvariant terms key ⟨s.shared.cleanup nowMs nowUnix, s.processes⟩ := by
  simp only [keepsSlots, Bool.or_eq_true, decide_eq_true_eq, List.all_eq_true,
    Option.isNone_iff_eq_none] at allowed
  rcases allowed with kept | unused
  · exact inv.keep kept (fun _ _ => rfl) inv.holds inv.permitted rfl (Nat.le_refl _)
  · refine ⟨fun r member own cell here => ?_, inv.permitted, fun cell here => ?_, inv.bound⟩
    · rcases unused r member with other | none
      · exact absurd own other
      · cases none.symm.trans here
    · rcases BucketStore.buckets_cleanupExpired s.shared.store nowMs nowUnix key with same | gone
      · exact inv.slots cell (same.symm.trans here)
      · cases gone.symm.trans here

theorem owned_cleanup {owner : Nat → BucketKey} {nowMs : UInt64} {nowUnix : UInt32}
    (owned : Owned owner s) : Owned owner ⟨s.shared.cleanup nowMs nowUnix, s.processes⟩ := by
  refine ⟨fun other cell here => owned.map other cell ?_, owned.requests⟩
  rcases BucketStore.buckets_cleanupExpired s.shared.store nowMs nowUnix other with same | gone
  · exact same.symm.trans here
  · cases gone.symm.trans here

end Limit

/-- The invariant is kept by every step under the conditions. -/
theorem limit_step {terms : BucketKey → BucketTerms} {key : BucketKey} {s t : Connections}
    {action : ConnectionAction} (limited : limitOf terms key ≠ 0)
    (inv : (∃ owner, Owned owner s) ∧ LimitInvariant terms key s)
    (allowed : keepsSlots key s action = true) (step : connectionStep terms s action = some t) :
    (∃ owner, Owned owner t) ∧ LimitInvariant terms key t := by
  obtain ⟨⟨owner, owned⟩, inv⟩ := inv
  cases action with
  | arrive other =>
      cases step
      refine ⟨⟨owner, owned.map, forall_spawn owned.requests fun cell here => ?_⟩, ?_⟩
      · cases here
      · have permits := countP_spawn
          (fun r : Request => decide (r.key = key) && r.phase.holdsPermit) s.processes
          ⟨other, .arrived, none⟩
        have bodies := countP_spawn
          (fun r : Request => decide (r.key = key) && r.phase.isStreaming) s.processes
          ⟨other, .arrived, none⟩
        refine inv.keep rfl (fun _ _ => rfl) (forall_spawn inv.holds fun _ cell here => ?_)
          (forall_spawn inv.permitted fun _ => rfl) (permits.trans ?_)
          (Nat.le_of_eq (bodies.trans ?_))
        · cases here
        · simp [Phase.holdsPermit, countPhase]
        · simp [Phase.isStreaming, countPhase]
  | request i action =>
      obtain ⟨request, request', next, found, moved, rfl⟩ := act_eq_some step
      have cases' := requestStep_cases moved
      have frame := frame_of_step cases'
      refine ⟨⟨_, owned_request owned found frame⟩, ?_⟩
      by_cases own : request.key = key
      · exact limit_own limited inv found own allowed cases'
      · exact limit_foreign owned inv found own frame
  | cleanup nowMs nowUnix =>
      cases step
      exact ⟨⟨owner, owned_cleanup owned⟩, limit_cleanup inv allowed⟩

/-- **The connection limit over whole connections.** In every run that keeps the
slots of a limited token, the requests of the token that are admitted and not
fully answered never exceed its limit. -/
theorem active_le_limit {terms : BucketKey → BucketTerms} {key : BucketKey} {s : Connections}
    (limited : 0 < (terms key).limits.maxConcurrency)
    (run : Run (connectionStep terms) (keepsSlots key) noConnections s) :
    active key s ≤ (terms key).limits.maxConcurrency.toNat := by
  have start : (∃ owner, Owned owner noConnections) ∧ LimitInvariant terms key noConnections := by
    refine ⟨⟨fun _ => key, nofun, nofun⟩, nofun, nofun, nofun, Nat.zero_le _⟩
  have ne : limitOf terms key ≠ 0 := fun zero => by
    rw [limitOf] at zero
    rw [zero] at limited
    exact absurd limited (by decide)
  exact active_le_of_invariant (Run.invariant run start (limit_step ne)).2

/-- A request of one connection, answered in full, and then another one. -/
def answeredThenAdmitted : List ConnectionAction :=
  [.arrive demoKey, .request 0 (.lookup 0), .request 0 (.create 0), .request 0 .acquire,
    .request 0 (.touch 0), .request 0 .respond, .request 0 .sent, .arrive demoKey,
    .request 1 (.lookup 0), .request 1 .acquire]

theorem active_le_limit_answered :
    ∃ s, exec (connectionStep oneConnection) (keepsSlots demoKey) noConnections
        answeredThenAdmitted = some s ∧ active demoKey s = 1 ∧
      active demoKey s ≤ (oneConnection demoKey).limits.maxConcurrency.toNat :=
  ⟨_, rfl, rfl, active_le_limit (by decide)
    (@run_of_exec _ _ (connectionStep oneConnection) _ noConnections _ answeredThenAdmitted rfl)⟩

/-- The second request of a token for one connection is admitted while the body
of the first is still being sent. -/
theorem streaming_request_frees_slot :
    ∃ s, exec (connectionStep oneConnection) anything noConnections
        [.arrive demoKey, .request 0 (.lookup 0), .request 0 (.create 0), .request 0 .acquire,
          .request 0 (.touch 0), .request 0 .respond, .arrive demoKey, .request 1 (.lookup 0),
          .request 1 .acquire] = some s ∧
      (oneConnection demoKey).limits.maxConcurrency.toNat = 1 ∧ active demoKey s = 2 :=
  ⟨_, rfl, rfl, rfl⟩

end VideoStorage.Claim
