import Mathlib.Data.List.Dedup
import Mathlib.Data.List.Perm.Subperm
import VideoStorage.Claim.Connections

/-!
# Cleaning up the bucket map

`cleanup_expired` is to remove the buckets whose claim has expired and those that
nobody has used for ten minutes. Every operation takes its time from
`Instant::now().elapsed()`: the time from a clock reading to the next one, and not
the time of either. What a touch stores and what a clean-up compares it with have no
common base.

After every run, a clean-up removes exactly the expired and the idle buckets if and
only if, for each bucket that has not expired, these readings say what the clock says
(`removesExactly_iff`). As long as the clean-up does not take ten minutes from one
reading to the next, they say that no bucket is idle (`readsTheTime_iff_of_prompt`):
then it is right exactly when there is none.
-/

set_option autoImplicit false

namespace VideoStorage.Claim

open TransitionSystem

/-! ## Operations on the map -/

/-- Two clock readings, one after the other, in nanoseconds. -/
structure Elapsed where
  now : Nat
  next : Nat
  deriving DecidableEq

/-- `Instant::now().elapsed().as_millis() as u64`. -/
def Elapsed.ms (elapsed : Elapsed) : UInt64 := UInt64.ofNat ((elapsed.next - elapsed.now) / 1000000)

/-- A bucket is created or touched. -/
structure BucketUse where
  key : BucketKey
  cell : Nat
  atNanos : Nat

/-- The map, with the clock and the uses of its buckets, the latest first. -/
structure TimedStore where
  store : BucketStore
  clock : Nat
  uses : List BucketUse

inductive StoreAction where
  | getOrCreate (key : BucketKey) (terms : BucketTerms) (elapsed : Elapsed)
  /-- `create_bucket`, when the bucket was not there. -/
  | create (key : BucketKey) (terms : BucketTerms) (elapsed : Elapsed)
  /-- `touch`, of a bucket that was got before. -/
  | touch (key : BucketKey) (cell : Nat) (elapsed : Elapsed)
  | touchBucket (key : BucketKey) (elapsed : Elapsed)
  | cleanup (elapsed : Elapsed) (nowUnix : UInt32)

def StoreAction.elapsed : StoreAction → Elapsed
  | getOrCreate _ _ elapsed | create _ _ elapsed | touch _ _ elapsed | touchBucket _ elapsed
  | cleanup elapsed _ => elapsed

namespace TimedStore

def start : TimedStore := ⟨.empty, 0, []⟩

/-- The store after an action, and the use that it is. -/
def act (s : TimedStore) : StoreAction → BucketStore × List BucketUse
  | .getOrCreate key terms elapsed =>
      let (cell, store) := s.store.getOrCreateBucket key terms elapsed.ms
      (store, ⟨key, cell, elapsed.now⟩ :: s.uses)
  | .create key terms elapsed =>
      let (cell, store) := s.store.createBucket key terms elapsed.ms
      (store, ⟨key, cell, elapsed.now⟩ :: s.uses)
  | .touch key cell elapsed =>
      (s.store.touch cell elapsed.ms, ⟨key, cell, elapsed.now⟩ :: s.uses)
  | .touchBucket key elapsed =>
      (s.store.touchBucket key elapsed.ms,
        match s.store.getBucket key with
        | some cell => ⟨key, cell, elapsed.now⟩ :: s.uses
        | none => s.uses)
  | .cleanup elapsed nowUnix => (s.store.cleanupExpired elapsed.ms nowUnix, s.uses)

/-- A bucket is touched by who has got it. -/
def got (s : TimedStore) : StoreAction → Bool
  | .touch key cell _ => s.uses.any fun use => decide (use.key = key ∧ use.cell = cell)
  | _ => true

/-- The clock is monotone. -/
def step : TransitionSystem TimedStore StoreAction := fun s action =>
  if s.clock ≤ action.elapsed.now ∧ action.elapsed.now ≤ action.elapsed.next ∧ s.got action then
    some ⟨(s.act action).1, action.elapsed.next, (s.act action).2⟩
  else none

/-- The latest use of a bucket. -/
def lastUse (s : TimedStore) (cell : Nat) : Option BucketUse :=
  s.uses.find? fun use => decide (use.cell = cell)

/-- Ten minutes, in nanoseconds. -/
def tenMinutes : Nat := 600000 * 1000000

/-- The tokens that were used in the ten minutes before a time. -/
def recentKeys (s : TimedStore) (nanos : Nat) : List BucketKey :=
  ((s.uses.filter fun use => decide (nanos - use.atNanos ≤ tenMinutes)).map BucketUse.key).dedup

/-- What a clean-up is to do: keep the buckets of claims that have not expired and
that were used in the last ten minutes, and no others. -/
structure RemovesExactly (s : TimedStore) (nanos : Nat) (nowUnix : UInt32) (t : TimedStore) :
    Prop where
  present : ∀ key cell, t.store.buckets key = some cell ↔ s.store.buckets key = some cell ∧
    (∃ bucket, s.store.cells[cell]? = some bucket ∧ nowUnix ≤ bucket.expUnix) ∧
    ∃ use, s.lastUse cell = some use ∧ nanos - use.atNanos ≤ tenMinutes
  bounded : ∀ keys : List BucketKey, keys.Nodup → (∀ key ∈ keys, t.store.buckets key ≠ none) →
    keys.length ≤ (s.recentKeys nanos).length

/-- For each bucket that has not expired, the readings say what the clock says: the
clean-up's is more than ten minutes above the stored one exactly when the bucket was
last used more than ten minutes before. -/
def ReadsTheTime (s : TimedStore) (elapsed : Elapsed) (nowUnix : UInt32) : Prop :=
  ∀ key cell bucket use, s.store.buckets key = some cell → s.store.cells[cell]? = some bucket →
    nowUnix ≤ bucket.expUnix → s.lastUse cell = some use →
    (600000 < elapsed.ms.toNat - bucket.lastAccess.toNat ↔
      tenMinutes < elapsed.now - use.atNanos)

/-- No bucket of the map is idle, unless it has expired. -/
def NoneIdle (s : TimedStore) (nanos : Nat) (nowUnix : UInt32) : Prop :=
  ∀ key cell bucket use, s.store.buckets key = some cell → s.store.cells[cell]? = some bucket →
    nowUnix ≤ bucket.expUnix → s.lastUse cell = some use → nanos - use.atNanos ≤ tenMinutes

/-! ## What every run keeps -/

/-- Every bucket has been used, and the buckets in the map under their own keys. -/
structure Recorded (s : TimedStore) : Prop where
  used : ∀ cell < s.store.cells.length, ∃ use ∈ s.uses, use.cell = cell
  inside : ∀ use ∈ s.uses, use.cell < s.store.cells.length
  own : ∀ use ∈ s.uses, ∀ use' ∈ s.uses, use.cell = use'.cell → use.key = use'.key
  mapped : ∀ key cell, s.store.buckets key = some cell →
    ∃ use ∈ s.uses, use.key = key ∧ use.cell = cell

variable {s t : TimedStore}

/-- A use of a bucket that was got for the key. -/
theorem Recorded.use {store : BucketStore} {key : BucketKey} {cell : Nat} {nanos clock : Nat}
    (inv : s.Recorded) (got : ∃ use ∈ s.uses, use.key = key ∧ use.cell = cell)
    (buckets : store.buckets = s.store.buckets)
    (cells : store.cells.length = s.store.cells.length) :
    Recorded ⟨store, clock, ⟨key, cell, nanos⟩ :: s.uses⟩ := by
  obtain ⟨use, member, rfl, rfl⟩ := got
  refine ⟨fun other less => ?_, ?_, ?_, fun other cell found => ?_⟩
  · obtain ⟨use', member', is⟩ := inv.used other (cells ▸ less)
    exact ⟨use', List.mem_cons_of_mem _ member', is⟩
  · refine List.forall_mem_cons.mpr ⟨?_, fun use' member' => ?_⟩
    · exact cells ▸ inv.inside use member
    · exact cells ▸ inv.inside use' member'
  · refine List.forall_mem_cons.mpr ⟨?_, fun use' member' => ?_⟩
    · exact List.forall_mem_cons.mpr ⟨fun _ => rfl, fun use' member' same =>
        inv.own use member use' member' same⟩
    · exact List.forall_mem_cons.mpr ⟨fun same => inv.own use' member' use member same,
        fun use'' member'' same => inv.own use' member' use'' member'' same⟩
  · rw [buckets] at found
    obtain ⟨use', member', is⟩ := inv.mapped other cell found
    exact ⟨use', List.mem_cons_of_mem _ member', is⟩

/-- A bucket is created. -/
theorem Recorded.create (inv : s.Recorded) (key : BucketKey) (terms : BucketTerms)
    (reading : UInt64) (nanos clock : Nat) :
    Recorded ⟨(s.store.createBucket key terms reading).2, clock,
      ⟨key, (s.store.createBucket key terms reading).1, nanos⟩ :: s.uses⟩ := by
  have length := BucketStore.length_createBucket s.store key terms reading
  have fresh : ∀ use ∈ s.uses, use.cell ≠ s.store.cells.length := fun use member =>
    Nat.ne_of_lt (inv.inside use member)
  refine ⟨fun cell less => ?_, ?_, ?_, fun other cell found => ?_⟩
  · rw [length] at less
    rcases Nat.lt_succ_iff_lt_or_eq.mp less with before | rfl
    · obtain ⟨use, member, is⟩ := inv.used cell before
      exact ⟨use, List.mem_cons_of_mem _ member, is⟩
    · exact ⟨_, List.mem_cons_self, rfl⟩
  · rw [length]
    exact List.forall_mem_cons.mpr ⟨Nat.lt_succ_self _, fun use member =>
      Nat.lt_succ_of_lt (inv.inside use member)⟩
  · refine List.forall_mem_cons.mpr ⟨?_, fun use member => ?_⟩
    · exact List.forall_mem_cons.mpr ⟨fun _ => rfl, fun use member same =>
        absurd same.symm (fresh use member)⟩
    · exact List.forall_mem_cons.mpr ⟨fun same => absurd same (fresh use member),
        fun use' member' same => inv.own use member use' member' same⟩
  · change Function.update s.store.buckets key (some s.store.cells.length) other = _ at found
    by_cases same : other = key
    · rw [same, Function.update_self] at found
      obtain rfl := Option.some.inj found
      exact ⟨_, List.mem_cons_self, same.symm, rfl⟩
    · rw [Function.update_of_ne same] at found
      obtain ⟨use, member, is⟩ := inv.mapped other cell found
      exact ⟨use, List.mem_cons_of_mem _ member, is⟩

theorem Recorded.step {action : StoreAction} (inv : s.Recorded)
    (moved : TimedStore.step s action = some t) : t.Recorded := by
  unfold TimedStore.step at moved
  split at moved
  · rename_i possible
    obtain rfl := Option.some.inj moved
    cases action with
    | getOrCreate key terms elapsed =>
        simp only [act, BucketStore.getOrCreateBucket]
        split
        · rename_i cell found
          exact inv.use (inv.mapped key cell found) rfl (BucketStore.length_touch ..)
        · exact inv.create key terms ..
    | create key terms elapsed => exact inv.create key terms ..
    | touch key cell elapsed =>
        obtain ⟨use, member, is⟩ := List.any_eq_true.mp possible.2.2
        exact inv.use ⟨use, member, of_decide_eq_true is⟩ rfl (BucketStore.length_touch ..)
    | touchBucket key elapsed =>
        simp only [act]
        cases found : s.store.getBucket key with
        | none =>
            have same : s.store.touchBucket key elapsed.ms = s.store := by
              change s.store.buckets key = none at found
              rw [BucketStore.touchBucket, found]
            rw [same]
            exact ⟨inv.used, inv.inside, inv.own, inv.mapped⟩
        | some cell =>
            exact inv.use (inv.mapped key cell found) (BucketStore.buckets_touchBucket ..)
              (BucketStore.length_touchBucket ..)
    | cleanup elapsed nowUnix =>
        refine ⟨inv.used, inv.inside, inv.own, fun key cell found => ?_⟩
        rcases s.store.buckets_cleanupExpired elapsed.ms nowUnix key with kept | removed
        · exact inv.mapped key cell (kept ▸ found)
        · exact absurd (removed.symm.trans found) (Option.some_ne_none cell).symm
  · cases moved

theorem start_recorded : start.Recorded :=
  ⟨fun _ less => absurd less (Nat.not_lt_zero _), nofun, nofun, nofun⟩

theorem recorded_of_reachable (run : Reachable TimedStore.step start s) : s.Recorded := by
  induction run with
  | refl => exact start_recorded
  | tail _ last inv =>
      obtain ⟨action, -, moved⟩ := last
      exact inv.step moved

/-! ## A clean-up -/

/-- A bucket of the map: its cell and its latest use. -/
theorem Recorded.latest (inv : s.Recorded) {key : BucketKey} {cell : Nat}
    (found : s.store.buckets key = some cell) : ∃ bucket use, s.store.cells[cell]? = some bucket ∧
      s.lastUse cell = some use ∧ use ∈ s.uses ∧ use.key = key := by
  obtain ⟨first, member, own, rfl⟩ := inv.mapped key cell found
  have listed : (s.lastUse first.cell).isSome :=
    List.find?_isSome.mpr ⟨first, member, decide_eq_true rfl⟩
  obtain ⟨use, latest⟩ := Option.isSome_iff_exists.mp listed
  have is : use.cell = first.cell := by simpa using List.find?_some latest
  have among := List.mem_of_find?_eq_some latest
  exact ⟨_, use, List.getElem?_eq_getElem (inv.inside first member), latest, among,
    (inv.own use among first member is).trans own⟩

/-- `is_idle` compares the readings. -/
theorem isIdle_iff {bucket : ClaimBucket} {reading : UInt64} :
    bucket.isIdle reading BucketStore.idleThresholdMs = true ↔
      600000 < reading.toNat - bucket.lastAccess.toNat := by
  have threshold : BucketStore.idleThresholdMs.toNat = 600000 := rfl
  simp only [ClaimBucket.isIdle, decide_eq_true_eq, UInt64.lt_iff_toNat_lt, threshold]
  split
  · rename_i later
    rw [UInt64.toNat_sub_of_le _ _ later]
  · rename_i before
    have before := UInt64.lt_iff_toNat_lt.mp (UInt64.not_le.mp before)
    rw [Nat.sub_eq_zero_of_le (Nat.le_of_lt before), UInt64.toNat_zero]

/-- What a clean-up keeps. -/
theorem kept_iff (inv : s.Recorded) {elapsed : Elapsed} {nowUnix : UInt32} {key : BucketKey}
    {cell : Nat} :
    (s.store.cleanupExpired elapsed.ms nowUnix).buckets key = some cell ↔
      s.store.buckets key = some cell ∧ ∃ bucket, s.store.cells[cell]? = some bucket ∧
        nowUnix ≤ bucket.expUnix ∧
        bucket.isIdle elapsed.ms BucketStore.idleThresholdMs = false := by
  change (s.store.buckets key).filter _ = _ ↔ _
  rw [Option.filter_eq_some_iff]
  refine and_congr_right fun found => ?_
  obtain ⟨bucket, -, here, -⟩ := inv.latest found
  simp [BucketStore.keeps, here, ClaimBucket.isExpired]

theorem kept_le_recent (inv : s.Recorded) {nanos : Nat} {keys : List BucketKey}
    (nodup : keys.Nodup) (recent : ∀ key ∈ keys, ∃ cell use, s.store.buckets key = some cell ∧
      s.lastUse cell = some use ∧ nanos - use.atNanos ≤ tenMinutes) :
    keys.length ≤ (s.recentKeys nanos).length := by
  refine (nodup.subperm fun key member => ?_).length_le
  obtain ⟨cell, use, found, latest, near⟩ := recent key member
  obtain ⟨-, use', -, latest', among, own⟩ := inv.latest found
  obtain rfl := Option.some.inj (latest.symm.trans latest')
  refine List.mem_dedup.mpr (List.mem_map.mpr ⟨use, ?_, own⟩)
  exact List.mem_filter.mpr ⟨among, decide_eq_true near⟩

/-- The readings of a prompt clean-up say that no bucket is idle. -/
theorem readsTheTime_iff_of_prompt {elapsed : Elapsed} {nowUnix : UInt32}
    (prompt : elapsed.ms.toNat ≤ 600000) :
    s.ReadsTheTime elapsed nowUnix ↔ s.NoneIdle elapsed.now nowUnix := by
  refine forall₄_congr fun key cell bucket use => ?_
  have small : ¬ 600000 < elapsed.ms.toNat - bucket.lastAccess.toNat := by omega
  simp only [small, false_iff, Nat.not_lt]

/-- A clean-up is exact if and only if its readings say what the clock says. -/
theorem Recorded.exact_iff (inv : s.Recorded) {elapsed : Elapsed} {nowUnix : UInt32}
    (cleaned : t.store = s.store.cleanupExpired elapsed.ms nowUnix) :
    s.RemovesExactly elapsed.now nowUnix t ↔ s.ReadsTheTime elapsed nowUnix := by
  have kept : ∀ {key cell}, t.store.buckets key = some cell ↔ _ := cleaned ▸ kept_iff inv
  constructor
  · intro exactly key cell bucket use found here valid latest
    have idle : bucket.isIdle elapsed.ms BucketStore.idleThresholdMs = false ↔
        elapsed.now - use.atNanos ≤ tenMinutes := by
      simpa [found, here, valid, latest] using kept.symm.trans (exactly.present key cell)
    rw [← isIdle_iff, ← Bool.not_eq_false, idle, Nat.not_le]
  · intro reads
    have present : ∀ key cell, t.store.buckets key = some cell ↔ s.store.buckets key = some cell ∧
        (∃ bucket, s.store.cells[cell]? = some bucket ∧ nowUnix ≤ bucket.expUnix) ∧
        ∃ use, s.lastUse cell = some use ∧ elapsed.now - use.atNanos ≤ tenMinutes := by
      intro key cell
      rw [kept]
      refine and_congr_right fun found => ?_
      obtain ⟨bucket, use, here, latest, -⟩ := inv.latest found
      have idle (valid : nowUnix ≤ bucket.expUnix) :
          bucket.isIdle elapsed.ms BucketStore.idleThresholdMs = false ↔
            elapsed.now - use.atNanos ≤ tenMinutes := by
        rw [← Bool.not_eq_true, isIdle_iff, reads key cell bucket use found here valid latest,
          Nat.not_lt]
      simp only [here, latest, Option.some.injEq, exists_eq_left']
      exact and_congr_right idle
    refine ⟨present, fun keys nodup all => kept_le_recent inv nodup fun key member => ?_⟩
    obtain ⟨cell, found⟩ := Option.ne_none_iff_exists'.mp (all key member)
    obtain ⟨before, -, use, latest, near⟩ := (present key cell).mp found
    exact ⟨cell, use, before, latest, near⟩

theorem cleaned_of_step {elapsed : Elapsed} {nowUnix : UInt32}
    (moved : TimedStore.step s (.cleanup elapsed nowUnix) = some t) :
    t.store = s.store.cleanupExpired elapsed.ms nowUnix := by
  unfold TimedStore.step at moved
  split at moved
  · obtain rfl := Option.some.inj moved
    rfl
  · cases moved

/-- **A clean-up** after any run removes exactly the expired and the idle buckets if and
only if its readings say what the clock says; when it is prompt, if and only if there
are no idle ones. -/
theorem removesExactly_iff {elapsed : Elapsed} {nowUnix : UInt32}
    (run : Reachable TimedStore.step start s)
    (moved : TimedStore.step s (.cleanup elapsed nowUnix) = some t) :
    (s.RemovesExactly elapsed.now nowUnix t ↔ s.ReadsTheTime elapsed nowUnix) ∧
      (elapsed.ms.toNat ≤ 600000 →
        (s.RemovesExactly elapsed.now nowUnix t ↔ s.NoneIdle elapsed.now nowUnix)) := by
  have exact' := (recorded_of_reachable run).exact_iff (cleaned_of_step moved)
  exact ⟨exact', fun prompt => exact'.trans (readsTheTime_iff_of_prompt prompt)⟩

/-- A bucket is created at the start. -/
def usedOnce : List StoreAction :=
  [.getOrCreate demoKey ⟨⟨0, 4000, 1, []⟩, 2000000000⟩ ⟨0, 70⟩]

/-- The clean-up comes five minutes later. -/
theorem removesExactly_soon : ∃ s t : TimedStore,
    exec TimedStore.step anything start usedOnce = some s ∧
    TimedStore.step s (.cleanup ⟨300000000000, 300000000070⟩ 1700000000) = some t ∧
    (s.RemovesExactly 300000000000 1700000000 t ↔
      s.NoneIdle 300000000000 1700000000) := by
  refine ⟨_, _, rfl, rfl, ?_⟩
  exact (@removesExactly_iff _ _ ⟨300000000000, 300000000070⟩ 1700000000
    (@run_of_exec _ _ TimedStore.step anything start _ usedOnce rfl) rfl).2 (by decide)

/-- A bucket that nobody uses for eleven minutes stays. -/
theorem idle_bucket_stays : ∃ s t : TimedStore,
    exec TimedStore.step anything start usedOnce = some s ∧
    TimedStore.step s (.cleanup ⟨660000000000, 660000000070⟩ 1700000000) = some t ∧
    t.store.buckets demoKey = some 0 ∧ ¬ s.RemovesExactly 660000000000 1700000000 t := by
  refine ⟨_, _, rfl, rfl, rfl, fun exactly => ?_⟩
  obtain ⟨-, -, use, latest, near⟩ := (exactly.present demoKey 0).mp rfl
  obtain rfl := Option.some.inj latest
  exact absurd near (by decide)

end TimedStore

end VideoStorage.Claim
