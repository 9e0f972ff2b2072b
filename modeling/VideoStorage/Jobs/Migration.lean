import VideoStorage.Jobs.Migrate

/-!
# Migrations

A run of a migrate job may stop at any request, and it may leave the object that it
was writing in any state. Still every run keeps the source and touches nothing but
the keys of the job in the destination (`Between`), and a run that succeeds
overwrites all of these (`Migrated`). So it makes up for the runs before it, and what
it leaves does not depend on them (`migrates_exactly`).
-/

set_option autoImplicit false

namespace VideoStorage.Jobs

open RustStd Str Api

/-! ## One copy -/

@[simp] theorem put_self (buckets : Buckets) (bucket key : Str) (object : Option StoredObject) :
    buckets.put bucket key object bucket key = object := by
  simp [Buckets.put]

theorem put_of_ne {buckets : Buckets} {bucket key bucket' key' : Str}
    {object : Option StoredObject} (other : ¬ (bucket' = bucket ∧ key' = key)) :
    buckets.put bucket key object bucket' key' = buckets bucket' key' := by
  unfold Buckets.put
  by_cases same : bucket' = bucket
  · subst same
    rw [Function.update_self, Function.update_of_ne fun here => other ⟨rfl, here⟩]
  · rw [Function.update_of_ne same]

/-- A failed copy of an object onto itself leaves it whole. -/
def MigrateIo.Whole (io : MigrateIo) (job : MigrateJob) : Prop :=
  job.srcBucket = job.dstBucket → ∀ key cause left, io.copy key ≠ .failed cause (.torn left)

/-- What the loop over the keys does with the first of them: it stops there, or it
copies the object and goes on. -/
inductive CopyStep (job : MigrateJob) (io : MigrateIo) (stats : MigrateStats) (buckets : Buckets)
    (key : Str) (rest : List Str) : MigrateResult → Prop where
  | stopped (error : ErrorChain) {copies : List Str} {left : Option StoredObject}
      (started : copies <+: [key]) (kept : job.srcBucket = job.dstBucket →
        left = buckets job.srcBucket key)
      (disturbed : io.stat key ≠ none ∨ buckets job.srcBucket key = none ∨ io.copy key ≠ .copied) :
      CopyStep job io stats buckets key rest
        ⟨.error error, buckets.put job.dstBucket key left, copies⟩
  | copied {object : StoredObject} (found : buckets job.srcBucket key = some object)
      (stats' : MigrateStats) (one : stats'.objectsCopied = stats.objectsCopied + 1)
      (total : stats'.objectsTotal = stats.objectsTotal) :
      CopyStep job io stats buckets key rest
        { job.copyKeys io stats' (buckets.put job.dstBucket key (some object)) rest with
          copies := key ::
            (job.copyKeys io stats' (buckets.put job.dstBucket key (some object)) rest).copies }

theorem put_same (buckets : Buckets) (bucket key : Str) :
    buckets.put bucket key (buckets bucket key) = buckets := by
  simp [Buckets.put]

theorem copyKeys_cons {job : MigrateJob} {io : MigrateIo} (whole : io.Whole job)
    (stats : MigrateStats) (buckets : Buckets) (key : Str) (rest : List Str) :
    CopyStep job io stats buckets key rest (job.copyKeys io stats buckets (key :: rest)) := by
  have untouched : ∀ error copies, copies <+: [key] →
      (io.stat key ≠ none ∨ buckets job.srcBucket key = none ∨ io.copy key ≠ .copied) →
      CopyStep job io stats buckets key rest ⟨.error error, buckets, copies⟩ := by
    intro error copies started disturbed
    have stopped : CopyStep job io stats buckets key rest ⟨.error error,
        buckets.put job.dstBucket key (buckets job.dstBucket key), copies⟩ :=
      .stopped error started (fun same => congrFun (congrArg buckets same.symm) key) disturbed
    rwa [put_same] at stopped
  have ends : [key] <+: [key] := List.prefix_rfl
  unfold MigrateJob.copyKeys
  cases answer : io.stat key with
  | some cause =>
      simp only [statObject, answer, withContext]
      exact untouched _ _ List.nil_prefix (.inl (by rw [answer]; exact Option.some_ne_none _))
  | none =>
      cases found : buckets job.srcBucket key with
      | none =>
          simp only [statObject, answer, found, withContext]
          exact untouched _ _ List.nil_prefix (.inr (.inl found))
      | some object =>
          simp only [statObject, answer, found, withContext, copyObjectStreaming]
          cases outcome : io.copy key with
          | copied => exact .copied found _ rfl rfl
          | failed cause left =>
              have failed : io.copy key ≠ .copied := by
                intro copied
                rw [outcome] at copied
                cases copied
              cases left with
              | untouched => exact untouched _ _ ends (.inr (.inr failed))
              | complete => exact .stopped _ ends (fun _ => found.symm) (.inr (.inr failed))
              | torn left =>
                  have torn : job.srcBucket = job.dstBucket → left = buckets job.srcBucket key :=
                    fun same => absurd outcome (whole same key cause left)
                  exact .stopped _ ends torn (.inr (.inr failed))

/-! ## Runs -/

/-- The buckets during a migration: the source is as before, and so is everything but
the keys of the job in the destination. -/
structure Between (job : MigrateJob) (own : Str → Prop) (before after : Buckets) : Prop where
  elsewhere : ∀ bucket key, ¬ (bucket = job.dstBucket ∧ own key) →
    after bucket key = before bucket key
  source : ∀ key, after job.srcBucket key = before job.srcBucket key

/-- The buckets after a migration: the destination has the objects of the source. -/
structure Migrated (job : MigrateJob) (own : Str → Prop) (before after : Buckets) : Prop where
  elsewhere : ∀ bucket key, ¬ (bucket = job.dstBucket ∧ own key) →
    after bucket key = before bucket key
  copied : ∀ key, own key → after job.dstBucket key = before job.srcBucket key

/-- A migration has one outcome. -/
theorem Migrated.unique {job : MigrateJob} {own : Str → Prop} {before after after' : Buckets}
    (migrated : Migrated job own before after) (migrated' : Migrated job own before after') :
    after = after' := by
  funext bucket key
  by_cases touched : bucket = job.dstBucket ∧ own key
  · obtain ⟨rfl, owned⟩ := touched
    rw [migrated.copied key owned, migrated'.copied key owned]
  · rw [migrated.elsewhere bucket key touched, migrated'.elsewhere bucket key touched]

theorem Between.start (job : MigrateJob) (own : Str → Prop) (before : Buckets) :
    Between job own before before :=
  ⟨fun _ _ _ => rfl, fun _ => rfl⟩

section Runs

variable {job : MigrateJob} {own : Str → Prop} {before buckets : Buckets}

theorem Between.put (between : Between job own before buckets) {key : Str} (owned : own key)
    {left : Option StoredObject}
    (kept : job.srcBucket = job.dstBucket → left = buckets job.srcBucket key) :
    Between job own before (buckets.put job.dstBucket key left) := by
  constructor
  · intro bucket key' outside
    rw [← between.elsewhere bucket key' outside]
    exact put_of_ne fun same => outside ⟨same.1, same.2 ▸ owned⟩
  · intro key'
    rw [← between.source key']
    by_cases same : job.srcBucket = job.dstBucket ∧ key' = key
    · obtain ⟨bucket, rfl⟩ := same
      rw [kept bucket, bucket, put_self]
    · exact put_of_ne same

variable {io : MigrateIo} (whole : io.Whole job)
include whole

/-- However the loop ends, it copied keys from the first one on, and touched nothing
else. -/
theorem copyKeys_between (stats : MigrateStats) (between : Between job own before buckets)
    {keys : List Str} (owned : ∀ key ∈ keys, own key) :
    Between job own before (job.copyKeys io stats buckets keys).buckets ∧
      (job.copyKeys io stats buckets keys).copies <+: keys := by
  induction keys generalizing stats buckets with
  | nil => exact ⟨between, List.prefix_rfl⟩
  | cons key rest ih =>
      have here := owned key List.mem_cons_self
      have step := copyKeys_cons whole stats buckets key rest
      generalize job.copyKeys io stats buckets (key :: rest) = result at step
      cases step with
      | stopped error started kept disturbed =>
          exact ⟨between.put here kept, started.trans ⟨rest, rfl⟩⟩
      | @copied object found stats' one total =>
          have onto : Between job own before (buckets.put job.dstBucket key (some object)) :=
            between.put here fun _ => found.symm
          obtain ⟨after, copies⟩ :=
            ih stats' onto fun key' member => owned key' (List.mem_cons_of_mem _ member)
          exact ⟨after, (List.prefix_cons_inj key).mpr copies⟩

/-- A loop that succeeds has copied every key. -/
theorem copyKeys_ok {stats final : MigrateStats} (between : Between job own before buckets)
    {keys : List Str} (owned : ∀ key ∈ keys, own key)
    (ok : (job.copyKeys io stats buckets keys).result = .ok final) :
    (∀ key, key ∈ keys ∨ buckets job.dstBucket key = before job.srcBucket key →
        (job.copyKeys io stats buckets keys).buckets job.dstBucket key =
          before job.srcBucket key) ∧
      (job.copyKeys io stats buckets keys).copies = keys ∧
      final.objectsCopied = stats.objectsCopied + keys.length ∧
      final.objectsTotal = stats.objectsTotal := by
  induction keys generalizing stats buckets with
  | nil =>
      cases ok
      exact ⟨fun key already => already.resolve_left List.not_mem_nil, rfl, rfl, rfl⟩
  | cons key rest ih =>
      have here := owned key List.mem_cons_self
      have step := copyKeys_cons whole stats buckets key rest
      generalize job.copyKeys io stats buckets (key :: rest) = result at step ok
      cases step with
      | stopped error started kept disturbed => cases ok
      | @copied object found stats' one total =>
          have onto : Between job own before (buckets.put job.dstBucket key (some object)) :=
            between.put here fun _ => found.symm
          obtain ⟨copied, copies, count, total'⟩ :=
            ih onto (fun key' member => owned key' (List.mem_cons_of_mem _ member)) ok
          refine ⟨fun key' already => copied key' ?_, congrArg (key :: ·) copies, ?_, ?_⟩
          · by_cases same : key' = key
            · subst same
              rw [put_self, ← between.source, found]
              exact .inr rfl
            · rw [put_of_ne fun both => same both.2]
              exact already.imp_left fun member => (List.mem_cons.mp member).resolve_left same
          · rw [count, one, List.length_cons]
            omega
          · rw [total', total]

/-- The loop succeeds when nothing disturbs it. -/
theorem copyKeys_completes (stats : MigrateStats) (between : Between job own before buckets)
    {keys : List Str} (owned : ∀ key ∈ keys, own key)
    (stored : ∀ key ∈ keys, (before job.srcBucket key).isSome = true)
    (answers : ∀ key, io.stat key = none ∧ io.copy key = .copied) :
    ∃ final, (job.copyKeys io stats buckets keys).result = .ok final := by
  induction keys generalizing stats buckets with
  | nil => exact ⟨stats, rfl⟩
  | cons key rest ih =>
      have step := copyKeys_cons whole stats buckets key rest
      generalize job.copyKeys io stats buckets (key :: rest) = result at step
      cases step with
      | stopped error started kept disturbed =>
          have present := stored key List.mem_cons_self
          rw [← between.source] at present
          rcases disturbed with stat | absent | copy
          · exact absurd (answers key).1 stat
          · rw [absent] at present
            cases present
          · exact absurd (answers key).2 copy
      | @copied object found stats' one total =>
          have onto : Between job own before (buckets.put job.dstBucket key (some object)) :=
            between.put (owned key List.mem_cons_self) fun _ => found.symm
          exact ih stats' onto (fun key' member => owned key' (List.mem_cons_of_mem _ member))
            fun key' member => stored key' (List.mem_cons_of_mem _ member)

end Runs

/-- What the services answer is true: a lister that does not fail lists what is stored,
and an object is not torn by a copy onto itself. -/
structure MigrateIo.Honest (io : MigrateIo) (job : MigrateJob)
    (objects : Str → Option StoredObject) : Prop where
  lists : Lists (fun key => (objects key).isSome = true) io.lister
  whole : io.Whole job

/-- No request of a run fails. -/
structure MigrateIo.Undisturbed (io : MigrateIo) (job : MigrateJob) : Prop where
  operators : io.manager.operatorForBucket job.srcBucket = .ok () ∧
    io.manager.operatorForBucket job.dstBucket = .ok ()
  lister : ∀ objectPrefix, ∃ entries : List ObjectEntry,
    io.lister objectPrefix = .ok (entries.map .ok)
  objects : ∀ key, io.stat key = none ∧ io.copy key = .copied

/-- The buckets after a job was run again and again. -/
def MigrateJob.replay (job : MigrateJob) (attempts : List MigrateIo) (buckets : Buckets) :
    Buckets :=
  attempts.foldl (fun buckets io => (job.run io buckets).buckets) buckets

/-- How a run ends that comes after other runs, which found the buckets as they were
`before`. -/
structure RunsExactly (job : MigrateJob) (files : Str → OutputFile → Prop) (before : Buckets)
    (io : MigrateIo) (result : MigrateResult) : Prop where
  once : result.copies.Nodup ∧ ∀ key ∈ result.copies, job.Owns files key
  complete : ∀ stats, result.result = .ok stats →
    stats.objectsCopied = stats.objectsTotal ∧
      (∀ key, job.Owns files key → key ∈ result.copies) ∧
      Migrated job (job.Owns files) before result.buckets
  succeeds : io.Undisturbed job → ∃ stats, result.result = .ok stats

/-- A job copies its own objects and no others, each once, and an interrupted run is
made up for. -/
structure MigratesExactly (job : MigrateJob) (files : Str → OutputFile → Prop)
    (before : Buckets) : Prop where
  listed : ∀ lister, Lists (fun key => (before job.srcBucket key).isSome = true) lister →
    ∀ keys, job.listObjectKeys lister = .ok keys → ∀ key, key ∈ keys ↔ job.Owns files key
  lists : ∀ lister, (∀ objectPrefix, ∃ entries : List ObjectEntry,
    lister objectPrefix = .ok (entries.map .ok)) → ∃ keys, job.listObjectKeys lister = .ok keys
  /-- No object of another job is among them. -/
  own : ∀ key, job.Owns files key → ∀ other file, files other file →
    key = s3Key (file.path other) → other = job.id
  runs : ∀ attempts, (∀ io ∈ attempts, io.Honest job (before job.srcBucket)) →
    ∀ io, io.Honest job (before job.srcBucket) →
      RunsExactly job files before io (job.run io (job.replay attempts before))
  /-- A run that succeeds after others leaves what one run alone leaves. -/
  retried : ∀ attempts, (∀ io ∈ attempts, io.Honest job (before job.srcBucket)) →
    ∀ io io' stats stats', io.Honest job (before job.srcBucket) →
      io'.Honest job (before job.srcBucket) →
      (job.run io (job.replay attempts before)).result = .ok stats →
      (job.run io' before).result = .ok stats' →
      (job.run io (job.replay attempts before)).buckets = (job.run io' before).buckets

theorem keysToCopy_ok {job : MigrateJob} {io : MigrateIo} {keys : Finset Str}
    (ok : job.keysToCopy io = .ok keys) : job.listObjectKeys io.lister = .ok keys := by
  unfold MigrateJob.keysToCopy at ok
  cases src : io.manager.operatorForBucket job.srcBucket with
  | error cause =>
      rw [src] at ok
      cases ok
  | ok _ =>
      rw [src] at ok
      cases dst : io.manager.operatorForBucket job.dstBucket with
      | error cause =>
          rw [dst] at ok
          cases ok
      | ok _ =>
          rw [dst] at ok
          exact ok

section Claim

variable {job : MigrateJob} {files : Str → OutputFile → Prop} {before : Buckets}
  (valid : ValidJobId job.id) (stores : StoresFiles files (before job.srcBucket))
include valid stores

theorem runsExactly {io : MigrateIo} {buckets : Buckets}
    (honest : io.Honest job (before job.srcBucket))
    (between : Between job (job.Owns files) before buckets) :
    RunsExactly job files before io (job.run io buckets) ∧
      Between job (job.Owns files) before (job.run io buckets).buckets := by
  unfold MigrateJob.run
  cases found : job.keysToCopy io with
  | error error =>
      refine ⟨⟨⟨List.nodup_nil, fun _ member => absurd member List.not_mem_nil⟩, fun _ ok => ?_,
        fun undisturbed => ?_⟩, between⟩
      · cases ok
      · obtain ⟨keys, listed⟩ := MigrateJob.collectPrefixes_isOk undisturbed.lister
          job.objectPrefixes ∅
        unfold MigrateJob.keysToCopy MigrateJob.listObjectKeys at found
        rw [undisturbed.operators.1, undisturbed.operators.2, listed] at found
        cases found
  | ok keys =>
      have members := mem_listObjectKeys valid stores honest.lists (keysToCopy_ok found)
      have owned : ∀ key ∈ keys.sort, job.Owns files key := fun key member =>
        (members key).mp ((Finset.mem_sort _).mp member)
      obtain ⟨after, copies⟩ := copyKeys_between honest.whole ⟨keys.card, 0, 0⟩ between owned
      refine ⟨⟨⟨?_, ?_⟩, ?_, ?_⟩, after⟩
      · exact copies.sublist.nodup (Finset.sort_nodup ..)
      · exact fun key member => owned key (copies.subset member)
      · intro stats ok
        obtain ⟨copied, all, count, total⟩ := copyKeys_ok honest.whole between owned ok
        refine ⟨?_, fun key own => ?_, after.elsewhere, fun key own => copied key (.inl ?_)⟩
        · rw [count, total, Finset.length_sort]
          exact Nat.zero_add _
        · rw [all, Finset.mem_sort, members]
          exact own
        · rw [Finset.mem_sort, members]
          exact own
      · intro undisturbed
        refine copyKeys_completes honest.whole _ between owned (fun key member => ?_)
          undisturbed.objects
        obtain ⟨file, held, -, rfl⟩ := owned key member
        exact (stores.stored _).mpr ⟨job.id, file, held, rfl⟩

/-- Runs one after the other touch nothing but the keys of the job. -/
theorem between_replay {attempts : List MigrateIo}
    (honest : ∀ io ∈ attempts, io.Honest job (before job.srcBucket)) {buckets : Buckets}
    (between : Between job (job.Owns files) before buckets) :
    Between job (job.Owns files) before (job.replay attempts buckets) := by
  induction attempts generalizing buckets with
  | nil => exact between
  | cons io rest ih =>
      have first := (runsExactly valid stores (honest io List.mem_cons_self) between).2
      exact ih (fun io' member => honest io' (List.mem_cons_of_mem _ member)) first

end Claim

/-- **A migration copies exactly the objects of its job.** -/
theorem migrates_exactly {job : MigrateJob} {files : Str → OutputFile → Prop} {before : Buckets}
    (valid : isValidJobId job.id = true) (stores : StoresFiles files (before job.srcBucket)) :
    MigratesExactly job files before := by
  have valid := validJobId_of valid
  have start := Between.start job (job.Owns files) before
  constructor
  · intro lister lists keys ok
    exact mem_listObjectKeys valid stores lists ok
  · intro lister answers
    exact MigrateJob.collectPrefixes_isOk answers job.objectPrefixes ∅
  · rintro key ⟨file, held, covers, rfl⟩ other file' held' same
    exact (jobId_of_key valid (validJobId_of (stores.valid other file' held')) same).symm
  · intro attempts honest io honest'
    exact (runsExactly valid stores honest' (between_replay valid stores honest start)).1
  · intro attempts honest io io' stats stats' honest₁ honest₂ ok ok'
    have again := runsExactly valid stores honest₁ (between_replay valid stores honest start)
    have once := runsExactly valid stores honest₂ start
    exact (again.1.complete stats ok).2.2.unique (once.1.complete stats' ok').2.2

/-- The files of two jobs whose ids start alike and read as a width. -/
def numericIds : List (Str × OutputFile) :=
  [("720".toList, .master), ("720".toList, .playlist .vp9 720), ("72".toList, .playlist .h264 720)]

/-- A service whose only bucket holds these files. -/
def numericBuckets : Buckets := fun bucket key =>
  if bucket = "src".toList ∧ key ∈ numericIds.map fun stored => s3Key (stored.2.path stored.1) then
    some ⟨[], none⟩
  else none

theorem migrates_exactly_numericIds :
    MigratesExactly (.new "720".toList "src".toList "dst".toList [720, 720])
      (fun jobId file => (jobId, file) ∈ numericIds) numericBuckets := by
  refine migrates_exactly (by decide) ⟨fun jobId file held => ?_, fun key => ?_⟩
  · have valid : ∀ stored ∈ numericIds, isValidJobId stored.1 = true := by decide
    exact valid (jobId, file) held
  · have present : (numericBuckets "src".toList key).isSome = true ↔
        key ∈ numericIds.map fun stored => s3Key (stored.2.path stored.1) := by
      unfold numericBuckets
      split
      · rename_i here
        exact iff_of_true rfl here.2
      · rename_i absent
        exact iff_of_false nofun fun member => absent ⟨rfl, member⟩
    refine present.trans (List.mem_map.trans ?_)
    constructor
    · rintro ⟨⟨jobId, file⟩, held, rfl⟩
      exact ⟨jobId, file, held, rfl⟩
    · rintro ⟨jobId, file, held, rfl⟩
      exact ⟨(jobId, file), held, rfl⟩

end VideoStorage.Jobs
