import Mathlib.Data.Char
import Mathlib.Data.Finset.Sort
import Mathlib.Data.List.Lex
import VideoStorage.Api.Naming
import VideoStorage.Jobs.Transfer

/-!
# Migration

A migrate job copies the files of one video from a bucket to another. It lists the
source under string prefixes, `videos/{id}` and `videos/{width}/{id}`, and keeps
the keys that go on with a dot or a dash. Ids have neither, so a key is kept
exactly when it belongs to the job and to one of its widths (`selected_iff`),
whatever else the bucket holds: ids that start alike, or that read as a width.
-/

set_option autoImplicit false

namespace VideoStorage.Jobs

open RustStd Str Api

/-! ## Buckets -/

structure StoredObject where
  content : Bytes
  contentType : Option Str
  deriving DecidableEq

/-- The objects of each bucket under their keys. -/
abbrev Buckets := Str → Str → Option StoredObject

def Buckets.put (buckets : Buckets) (bucket key : Str) (object : Option StoredObject) : Buckets :=
  Function.update buckets bucket (Function.update (buckets bucket) key object)

inductive EntryMode where
  | file
  | dir
  | unknown
  deriving DecidableEq

/-- What a lister gives. -/
structure ObjectEntry where
  path : Str
  mode : EntryMode

/-- What a copy that fails leaves of the object it writes. -/
inductive Residue where
  | untouched
  | complete
  | torn (object : Option StoredObject)

inductive CopyOutcome where
  | copied
  | failed (cause : ErrorChain) (left : Residue)

/-- The answers of the services during one run. -/
structure MigrateIo where
  manager : StorageManager
  lister : Str → Except ErrorChain (List (Except ErrorChain ObjectEntry))
  stat : Str → Option ErrorChain
  copy : Str → CopyOutcome

/-! ## The run -/

structure MigrateStats where
  objectsTotal : Nat
  objectsCopied : Nat
  bytesCopied : Nat
  deriving DecidableEq

/-- How a run ends: its result, the buckets, and the keys of which a copy was made or
started, in order. -/
structure MigrateResult where
  result : Except ErrorChain MigrateStats
  buckets : Buckets
  copies : List Str

/-- Where a run stands: in the errors of `stat` and of a copy. -/
def MigrateStats.progress (stats : MigrateStats) : Str :=
  " after copying ".toList ++ decimal stats.objectsCopied ++ '/' :: decimal stats.objectsTotal ++
    " objects (".toList ++ decimal stats.bytesCopied ++ " bytes)".toList

/-- The content type of an object. -/
def statObject (io : MigrateIo) (buckets : Buckets) (bucket key : Str) :
    Except ErrorChain (Option Str) :=
  match io.stat key, buckets bucket key with
  | some cause, _ => .error cause
  | none, some object => .ok object.contentType
  | none, none => .error ["NotFound".toList]

/-- The bytes that were copied, and the buckets behind it. -/
def copyObjectStreaming (io : MigrateIo) (src dst key : Str) (contentType : Option Str)
    (buckets : Buckets) : Except ErrorChain Nat × Buckets :=
  match buckets src key with
  | none => (.error ["NotFound".toList], buckets)
  | some object =>
      let copy : StoredObject := { content := object.content, contentType }
      match io.copy key with
      | .copied => (.ok object.content.length, buckets.put dst key (some copy))
      | .failed cause .untouched => (.error cause, buckets)
      | .failed cause .complete => (.error cause, buckets.put dst key (some copy))
      | .failed cause (.torn left) => (.error cause, buckets.put dst key left)

namespace MigrateJob

def objectPrefixes (job : MigrateJob) : List Str :=
  ("videos/".toList ++ job.id) ::
    job.widths.map fun width => "videos/".toList ++ decimal width.toNat ++ '/' :: job.id

/-- The rest of a key behind a prefix of the job starts with a dot or a dash. -/
def startsTail (rest : Str) : Bool := rest.head? == some '.' || rest.head? == some '-'

/-- An entry that `list_object_keys` keeps. -/
def selected (objectPrefix : Str) (entry : ObjectEntry) : Bool :=
  entry.mode = .file && (entry.path.dropPrefix? objectPrefix).any startsTail

/-- The loop over the entries under a prefix. -/
def collectEntries (objectPrefix : Str) :
    List (Except ErrorChain ObjectEntry) → Finset Str → Except ErrorChain (Finset Str)
  | [], keys => .ok keys
  | .error cause :: _, _ =>
      .error (("iterate source prefix `".toList ++ objectPrefix ++ "`".toList) :: cause)
  | .ok entry :: rest, keys =>
      collectEntries objectPrefix rest
        (if selected objectPrefix entry then insert entry.path keys else keys)

/-- The loop over the prefixes. -/
def collectPrefixes (lister : Str → Except ErrorChain (List (Except ErrorChain ObjectEntry))) :
    List Str → Finset Str → Except ErrorChain (Finset Str)
  | [], keys => .ok keys
  | objectPrefix :: rest, keys => do
      let entries ← withContext ("list source prefix `".toList ++ objectPrefix ++ "`".toList)
        (lister objectPrefix)
      let keys ← collectEntries objectPrefix entries keys
      collectPrefixes lister rest keys

def listObjectKeys (job : MigrateJob)
    (lister : Str → Except ErrorChain (List (Except ErrorChain ObjectEntry))) :
    Except ErrorChain (Finset Str) :=
  collectPrefixes lister job.objectPrefixes ∅

/-- The loop over the keys. -/
def copyKeys (job : MigrateJob) (io : MigrateIo) (stats : MigrateStats) (buckets : Buckets) :
    List Str → MigrateResult
  | [] => ⟨.ok stats, buckets, []⟩
  | key :: rest =>
      let context (action : String) : Str :=
        action.toList ++ " source object `".toList ++ key ++ '\x60' :: stats.progress
      match withContext (context "stat") (statObject io buckets job.srcBucket key) with
      | .error error => ⟨.error error, buckets, []⟩
      | .ok contentType =>
          let (copied, buckets) :=
            copyObjectStreaming io job.srcBucket job.dstBucket key contentType buckets
          match withContext (context "copy") copied with
          | .error error => ⟨.error error, buckets, [key]⟩
          | .ok copied =>
              let stats := { stats with
                objectsCopied := stats.objectsCopied + 1
                bytesCopied := stats.bytesCopied + copied }
              let result := job.copyKeys io stats buckets rest
              { result with copies := key :: result.copies }

/-- The errors before the first copy, or the keys to copy. -/
def keysToCopy (job : MigrateJob) (io : MigrateIo) : Except ErrorChain (Finset Str) := do
  withContext ("build source operator for bucket `".toList ++ job.srcBucket ++ "`".toList)
    (io.manager.operatorForBucket job.srcBucket)
  withContext
    ("build destination operator for bucket `".toList ++ job.dstBucket ++ "`".toList)
    (io.manager.operatorForBucket job.dstBucket)
  job.listObjectKeys io.lister

/-- `MigrateJob::run`. The set of keys is walked in ascending order. -/
def run (job : MigrateJob) (io : MigrateIo) (buckets : Buckets) : MigrateResult :=
  match job.keysToCopy io with
  | .error error => ⟨.error error, buckets, []⟩
  | .ok keys => job.copyKeys io ⟨keys.card, 0, 0⟩ buckets keys.sort

end MigrateJob

/-! ## Which keys are kept -/

/-- A character that no job id and no width has, and every name behind its job
id. -/
def startsRest (c : Char) : Bool := c == '.' || c == '-'

/-- What stands before the first such character of a string. -/
def stemOf (text : Str) : Str := text.takeWhile fun c => !startsRest c

theorem stemOf_append {stem rest : Str} (plain : ∀ c ∈ stem, startsRest c = false)
    (starts : MigrateJob.startsTail rest = true) : stemOf (stem ++ rest) = stem := by
  have front : ∀ c ∈ stem, (!startsRest c) = true := fun c member => by
    rw [plain c member]
    rfl
  cases rest with
  | nil => cases starts
  | cons c more =>
      have stops : startsRest c = true := by
        simpa [MigrateJob.startsTail, startsRest] using starts
      rw [stemOf, List.takeWhile_append_of_pos front, List.takeWhile_cons, stops]
      exact List.append_nil stem

/-- The job id of a path, below its width. -/
def stem (jobId : Str) : Option Nat → Str
  | none => jobId
  | some width => decimal width ++ '/' :: jobId

section Stem

variable {jobId other : Str} (valid : ValidJobId jobId) (valid' : ValidJobId other)
include valid

theorem stem_plain (width : Option Nat) : ∀ c ∈ stem jobId width, startsRest c = false := by
  have ofId : ∀ c ∈ jobId, startsRest c = false := by
    intro c member
    have noDot : c ≠ '.' := fun same => valid.noDot (same ▸ member)
    have noDash : c ≠ '-' := fun same => valid.noDash (same ▸ member)
    simp [startsRest, noDot, noDash]
  cases width with
  | none => exact ofId
  | some width =>
      intro c member
      rcases List.mem_append.mp member with digit | behind
      · have noDot := notMem_decimal (c := '.') (by decide) width
        have noDash := notMem_decimal (c := '-') (by decide) width
        have notDot : c ≠ '.' := fun same => noDot (same ▸ digit)
        have notDash : c ≠ '-' := fun same => noDash (same ▸ digit)
        simp [startsRest, notDot, notDash]
      · rcases List.mem_cons.mp behind with rfl | inId
        · rfl
        · exact ofId c inId

include valid'

/-- A stem has one job id and one width. -/
theorem stem_inj {width width' : Option Nat} :
    stem jobId width = stem other width' ↔ jobId = other ∧ width = width' := by
  have slash : ∀ width id, '/' ∈ stem id (some width) := fun width id =>
    List.mem_append_right _ List.mem_cons_self
  constructor
  · intro same
    cases width with
    | none =>
        cases width' with
        | none => exact ⟨same, rfl⟩
        | some width' =>
            have inId : '/' ∈ stem jobId none := by
              rw [same]
              exact slash width' other
            exact absurd inId valid.noSlash
    | some width =>
        cases width' with
        | none =>
            have inId : '/' ∈ stem other none := by
              rw [← same]
              exact slash width jobId
            exact absurd inId valid'.noSlash
        | some width' =>
            have digits : ∀ n, '/' ∉ decimal n := notMem_decimal (by decide)
            have pieces := congrArg (splitOnce '/') same
            rw [stem, stem, splitOnce_append (digits _), splitOnce_append (digits _),
              Option.some.injEq, Prod.mk.injEq] at pieces
            have sameWidth := congrArg decimalValue pieces.1
            rw [decimalValue_decimal, decimalValue_decimal] at sameWidth
            exact ⟨pieces.2, congrArg some sameWidth⟩
  · rintro ⟨rfl, rfl⟩
    rfl

end Stem

/-- The width of a file as a number. -/
def OutputFile.widthNat (file : OutputFile) : Option Nat := file.width.map UInt32.toNat

theorem path_eq_stem (jobId : Str) (file : OutputFile) :
    ∃ rest, file.path jobId = stem jobId file.widthNat ++ rest ∧
      MigrateJob.startsTail rest = true := by
  refine ⟨nameTail file ++ '.' :: nameExtension file, ?_, ?_⟩
  · unfold OutputFile.path OutputFile.widthNat
    rw [name_eq, List.append_assoc]
    cases file.width with
    | none => rfl
    | some width => simp [stem]
  · rcases (nameTail_dashes file).2 with empty | ⟨more, equal⟩
    · rw [empty]
      rfl
    · rw [equal]
      rfl

theorem any_dropPrefix_iff {text objectPrefix : Str} {p : Str → Bool} :
    (text.dropPrefix? objectPrefix).any p = true ↔
      ∃ rest, text = objectPrefix ++ rest ∧ p rest = true := by
  rw [Option.any_eq_true]
  refine exists_congr fun rest => and_congr_left' ?_
  rw [List.dropPrefix?_eq_some_iff]
  constructor
  · rintro ⟨front, equal, same⟩
    rw [equal, eq_of_beq same]
  · intro equal
    exact ⟨objectPrefix, equal, beq_self_eq_true _⟩

/-- Of the keys of files, a prefix selects those of its job id and its width. -/
theorem selected_iff {jobId other : Str} (valid : ValidJobId jobId) (valid' : ValidJobId other)
    (width : Option Nat) (file : OutputFile) :
    MigrateJob.selected (s3Key (stem jobId width)) ⟨s3Key (file.path other), .file⟩ = true ↔
      jobId = other ∧ width = file.widthNat := by
  obtain ⟨rest, path, starts⟩ := path_eq_stem other file
  unfold MigrateJob.selected
  rw [Bool.and_eq_true, any_dropPrefix_iff, ← stem_inj valid valid']
  unfold s3Key
  constructor
  · rintro ⟨-, rest', equal, starts'⟩
    rw [path, List.append_assoc, List.append_cancel_left_eq] at equal
    have stems := congrArg stemOf equal
    rw [stemOf_append (stem_plain valid' _) starts, stemOf_append (stem_plain valid _) starts']
      at stems
    exact stems.symm
  · intro same
    refine ⟨rfl, rest, ?_, starts⟩
    rw [path, same, List.append_assoc]

/-! ## What is listed -/

/-- A lister that does not fail gives the objects under a prefix as files. -/
def Lists (objects : Str → Prop)
    (lister : Str → Except ErrorChain (List (Except ErrorChain ObjectEntry))) : Prop :=
  ∀ objectPrefix entries, lister objectPrefix = .ok entries → (∀ cause, .error cause ∉ entries) →
    ∀ key, .ok ⟨key, .file⟩ ∈ entries ↔ objects key ∧ objectPrefix <+: key

/-- The width of a file that a job migrates: none for the master playlist. -/
def MigrateJob.Covers (job : MigrateJob) (width : Option Nat) : Prop :=
  width = none ∨ ∃ listed ∈ job.widths, width = some listed.toNat

namespace MigrateJob

theorem collectEntries_ok {objectPrefix : Str} {entries : List (Except ErrorChain ObjectEntry)}
    {keys keys' : Finset Str} (ok : collectEntries objectPrefix entries keys = .ok keys') :
    (∀ cause, .error cause ∉ entries) ∧ ∀ key, key ∈ keys' ↔ key ∈ keys ∨
      .ok ⟨key, .file⟩ ∈ entries ∧ selected objectPrefix ⟨key, .file⟩ = true := by
  induction entries generalizing keys with
  | nil =>
      cases ok
      exact ⟨fun cause => List.not_mem_nil, fun key => by simp⟩
  | cons answer rest ih =>
      cases answer with
      | error cause => cases ok
      | ok entry =>
          obtain ⟨noError, members⟩ := ih ok
          refine ⟨fun cause member => ?_, fun key => ?_⟩
          · rcases List.mem_cons.mp member with same | later
            · cases same
            · exact noError cause later
          · have here :
                key ∈ (if selected objectPrefix entry then insert entry.path keys else keys) ↔
                key ∈ keys ∨ entry = ⟨key, .file⟩ ∧ selected objectPrefix ⟨key, .file⟩ = true := by
              obtain ⟨path, mode⟩ := entry
              split
              · rename_i keep
                have file : mode = .file := by
                  unfold selected at keep
                  rw [Bool.and_eq_true] at keep
                  exact of_decide_eq_true keep.1
                subst file
                rw [Finset.mem_insert, or_comm, ObjectEntry.mk.injEq]
                refine or_congr_right ⟨?_, ?_⟩
                · rintro rfl
                  exact ⟨⟨rfl, rfl⟩, keep⟩
                · exact fun same => same.1.1.symm
              · rename_i skip
                refine (or_iff_left ?_).symm
                rintro ⟨same, keep⟩
                exact skip (same ▸ keep)
            rw [members, here, List.mem_cons, Except.ok.injEq, or_assoc, eq_comm, ← or_and_right]

/-- The entries under a prefix are read to their end when none of them is an error. -/
theorem collectEntries_isOk {objectPrefix : Str} {entries : List ObjectEntry} (keys : Finset Str) :
    ∃ keys', collectEntries objectPrefix (entries.map .ok) keys = .ok keys' := by
  induction entries generalizing keys with
  | nil => exact ⟨keys, rfl⟩
  | cons entry rest ih => exact ih _

variable {objects : Str → Prop}
  {lister : Str → Except ErrorChain (List (Except ErrorChain ObjectEntry))}

theorem collectPrefixes_ok (lists : Lists objects lister) {prefixes : List Str}
    {keys keys' : Finset Str} (ok : collectPrefixes lister prefixes keys = .ok keys') :
    ∀ key, key ∈ keys' ↔ key ∈ keys ∨
      objects key ∧ ∃ objectPrefix ∈ prefixes, selected objectPrefix ⟨key, .file⟩ = true := by
  induction prefixes generalizing keys with
  | nil =>
      cases ok
      simp
  | cons objectPrefix rest ih =>
      intro key
      unfold collectPrefixes at ok
      cases answer : lister objectPrefix with
      | error cause =>
          rw [answer] at ok
          cases ok
      | ok entries =>
          rw [answer] at ok
          cases collected : collectEntries objectPrefix entries keys with
          | error cause =>
              simp only [withContext, bind, Except.bind, collected] at ok
              cases ok
          | ok keys'' =>
              simp only [withContext, bind, Except.bind, collected] at ok
              obtain ⟨noError, members⟩ := collectEntries_ok collected
              have under : selected objectPrefix ⟨key, .file⟩ = true → objectPrefix <+: key := by
                intro keep
                unfold selected at keep
                rw [Bool.and_eq_true, any_dropPrefix_iff] at keep
                obtain ⟨-, more, equal, -⟩ := keep
                exact ⟨more, equal.symm⟩
              rw [ih ok, members, lists objectPrefix entries answer noError, or_assoc]
              refine or_congr_right ?_
              simp only [List.mem_cons, exists_eq_or_imp]
              constructor
              · rintro (⟨⟨object, -⟩, keep⟩ | ⟨object, later⟩)
                · exact ⟨object, .inl keep⟩
                · exact ⟨object, .inr later⟩
              · rintro ⟨object, keep | later⟩
                · exact .inl ⟨⟨object, under keep⟩, keep⟩
                · exact .inr ⟨object, later⟩

theorem collectPrefixes_isOk
    (answers : ∀ objectPrefix, ∃ entries : List ObjectEntry,
      lister objectPrefix = .ok (entries.map .ok))
    (prefixes : List Str) (keys : Finset Str) :
    ∃ keys', collectPrefixes lister prefixes keys = .ok keys' := by
  induction prefixes generalizing keys with
  | nil => exact ⟨keys, rfl⟩
  | cons objectPrefix rest ih =>
      obtain ⟨entries, answer⟩ := answers objectPrefix
      obtain ⟨keys', collected⟩ : ∃ keys',
          collectEntries objectPrefix (entries.map .ok) keys = .ok keys' :=
        collectEntries_isOk keys
      obtain ⟨keys'', final⟩ := ih keys'
      refine ⟨keys'', ?_⟩
      unfold collectPrefixes
      simp only [answer, withContext, bind, Except.bind, collected]
      exact final

theorem mem_objectPrefixes {job : MigrateJob} {objectPrefix : Str} :
    objectPrefix ∈ job.objectPrefixes ↔
      ∃ width, job.Covers width ∧ objectPrefix = s3Key (stem job.id width) := by
  unfold objectPrefixes
  rw [List.mem_cons, List.mem_map]
  constructor
  · rintro (rfl | ⟨width, member, rfl⟩)
    · exact ⟨none, .inl rfl, rfl⟩
    · exact ⟨some width.toNat, .inr ⟨width, member, rfl⟩, List.append_assoc ..⟩
  · rintro ⟨_, rfl | ⟨width, member, rfl⟩, rfl⟩
    · exact .inl rfl
    · exact .inr ⟨width, member, List.append_assoc ..⟩

end MigrateJob

/-- The objects of a bucket are files of jobs with valid ids. -/
structure StoresFiles (files : Str → OutputFile → Prop) (objects : Str → Option StoredObject) :
    Prop where
  valid : ∀ jobId file, files jobId file → isValidJobId jobId = true
  stored : ∀ key, (objects key).isSome = true ↔
    ∃ jobId file, files jobId file ∧ key = s3Key (file.path jobId)

/-- The keys a job migrates: of its master playlist and of its files below the widths
it lists. -/
def MigrateJob.Owns (job : MigrateJob) (files : Str → OutputFile → Prop) (key : Str) : Prop :=
  ∃ file, files job.id file ∧ job.Covers file.widthNat ∧ key = s3Key (file.path job.id)

/-- A key has one job id. -/
theorem jobId_of_key {jobId other : Str} (valid : ValidJobId jobId) (valid' : ValidJobId other)
    {file file' : OutputFile} (same : s3Key (file.path jobId) = s3Key (file'.path other)) :
    jobId = other := by
  have keep := (selected_iff valid valid file.widthNat file).mpr ⟨rfl, rfl⟩
  rw [same] at keep
  exact ((selected_iff valid valid' file.widthNat file').mp keep).1

section Listing

variable {job : MigrateJob} {files : Str → OutputFile → Prop}
  {objects : Str → Option StoredObject}
  {lister : Str → Except ErrorChain (List (Except ErrorChain ObjectEntry))}
  (valid : ValidJobId job.id) (stores : StoresFiles files objects)
  (lists : Lists (fun key => (objects key).isSome = true) lister)
include valid stores lists

/-- The files of the job under its widths are listed, and nothing else. -/
theorem mem_listObjectKeys {keys : Finset Str} (ok : job.listObjectKeys lister = .ok keys)
    (key : Str) : key ∈ keys ↔ job.Owns files key := by
  rw [MigrateJob.collectPrefixes_ok lists ok key, stores.stored]
  constructor
  · rintro (none | ⟨⟨other, file, held, rfl⟩, objectPrefix, member, keep⟩)
    · exact absurd none (Finset.notMem_empty key)
    · obtain ⟨width, covers, rfl⟩ := MigrateJob.mem_objectPrefixes.mp member
      have valid' := validJobId_of (stores.valid other file held)
      obtain ⟨rfl, rfl⟩ := (selected_iff valid valid' width file).mp keep
      exact ⟨file, held, covers, rfl⟩
  · rintro ⟨file, held, covers, rfl⟩
    refine .inr ⟨⟨job.id, file, held, rfl⟩, s3Key (stem job.id file.widthNat), ?_, ?_⟩
    · exact MigrateJob.mem_objectPrefixes.mpr ⟨file.widthNat, covers, rfl⟩
    · exact (selected_iff valid valid file.widthNat file).mpr ⟨rfl, rfl⟩

end Listing

end VideoStorage.Jobs
