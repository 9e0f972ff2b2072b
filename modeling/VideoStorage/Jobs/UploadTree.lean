import VideoStorage.Api.Naming
import VideoStorage.Library.DirectoryTree
import VideoStorage.Library.TransitionSystem
import VideoStorage.Jobs.Transfer

/-!
# Uploading a directory tree

`upload_tree_streaming` walks a local directory breadth first and uploads the files it
meets, a number of them at the same time. The walk stops at its first error; every
error is counted, and the upload is a success when none was.

The steps of the walk and of the uploads come in any order, and each request may
succeed or fail. A file is stored under its path relative to the root, which is made
without an error, and different files have different keys (`toS3Key_pathOf`,
`objectKey_inj`).
-/

set_option autoImplicit false

namespace VideoStorage.Jobs

open RustStd Str Path Api DirectoryTree TransitionSystem

/-! ## The walk -/

abbrev FileTree := Directory Str Bytes

/-- Where `walk_files_stream` stands. Paths are the names below the local root. -/
inductive Walker where
  /-- Before the next directory is taken from the queue. -/
  | next (queue : List (List Str))
  /-- Before the next entry of a directory. -/
  | reading (dir : List Str) (entries : FileTree) (queue : List (List Str))
  /-- Before the file type of the entry that was read. -/
  | typing (dir : List Str) (entries : FileTree) (queue : List (List Str))
  | ended
  deriving DecidableEq

/-- What the stream yields. -/
inductive WalkItem where
  | path (file : List Str)
  | error
  deriving DecidableEq

/-- A request of the walk succeeds or fails. -/
def walkStep (tree : FileTree) (ok : Bool) : Walker → Option (Walker × Option WalkItem)
  -- The end of the walk asks for nothing.
  | .next [] => if ok then some (.ended, none) else none
  | .next (dir :: queue) =>
      if ok then
        match tree.find dir with
        | some (.dir entries) => some (.reading dir entries queue, none)
        | _ => none
      else some (.ended, some .error)
  | .reading dir entries queue =>
      if ok then
        match entries with
        | .empty => some (.next queue, none)
        | _ => some (.typing dir entries queue, none)
      else some (.ended, some .error)
  | .typing dir entries queue =>
      if ok then
        match entries with
        | .empty => none
        | .dir name _ rest => some (.reading dir rest (queue ++ [dir ++ [name]]), none)
        | .file name _ rest => some (.reading dir rest queue, some (.path (dir ++ [name])))
      else some (.ended, some .error)
  | .ended => none

/-! ## One upload -/

/-- The arguments of `upload_tree_streaming`, and the tree below the local root. -/
structure UploadCall where
  localRoot : Str
  remotePrefix : Str
  concurrency : Nat
  tree : FileTree

/-- The path of a file below the local root. -/
def UploadCall.pathOf (call : UploadCall) (file : List Str) : Str := file.foldl join call.localRoot

/-- Which request of `upload_one` is next. -/
inductive UploadStage where
  | opening
  | creating (key : Str) (content : Bytes)
  | copying (key : Str) (content : Bytes)
  | closing (key : Str) (content : Bytes)
  deriving DecidableEq

inductive UploadProgress where
  | goes (stage : UploadStage)
  | failed
  | written (key : Str) (content : Bytes)

/-- A request of `upload_one` succeeds or fails. The key is made before the first
one. -/
def uploadOne (call : UploadCall) (ok : Bool) (file : List Str) :
    UploadStage → Option UploadProgress
  | .opening =>
      match toS3Key call.localRoot (call.pathOf file) call.remotePrefix with
      | .error _ => some .failed
      | .ok key =>
          if ok then
            match call.tree.find file with
            | some (.file content) => some (.goes (.creating key content))
            | _ => none
          else some .failed
  | .creating key content => some (if ok then .goes (.copying key content) else .failed)
  | .copying key content => some (if ok then .goes (.closing key content) else .failed)
  | .closing key content => some (if ok then .written key content else .failed)

/-! ## All uploads -/

/-- A future of `for_each_concurrent`. -/
inductive UploadFuture where
  | walkError
  | upload (file : List Str) (stage : UploadStage)
  deriving DecidableEq

def UploadFuture.ofItem : WalkItem → UploadFuture
  | .error => .walkError
  | .path file => .upload file .opening

structure WrittenObject where
  file : List Str
  key : Str
  content : Bytes
  deriving DecidableEq

/-- The upload of a tree, with the objects that were written so far. -/
structure TreeUpload where
  walker : Walker
  futures : List UploadFuture
  written : List WrittenObject
  successCount : Nat
  errorCount : Nat
  deriving DecidableEq

inductive UploadAction where
  | walk (ok : Bool)
  | poll (i : Nat) (ok : Bool)
  deriving DecidableEq

/-- The request of a step fails. -/
def UploadAction.failed : UploadAction → Bool
  | walk ok | poll _ ok => !ok

namespace TreeUpload

def start : TreeUpload := ⟨.next [[]], [], [], 0, 0⟩

/-- The walk goes on while there is room for another future. -/
def room (call : UploadCall) (s : TreeUpload) : Bool :=
  call.concurrency = 0 || decide (s.futures.length < call.concurrency)

/-- A future is done. -/
def leave (s : TreeUpload) (i : Nat) : TreeUpload := { s with futures := s.futures.eraseIdx i }

def poll (call : UploadCall) (s : TreeUpload) (i : Nat) (ok : Bool) :
    UploadFuture → Option TreeUpload
  | .walkError =>
      if ok then some { s.leave i with errorCount := s.errorCount + 1 } else none
  | .upload file stage =>
      match uploadOne call ok file stage with
      | none => none
      | some (.goes stage) => some { s with futures := s.futures.set i (.upload file stage) }
      | some .failed => some { s.leave i with errorCount := s.errorCount + 1 }
      | some (.written key content) =>
          some { s.leave i with
            written := s.written ++ [⟨file, key, content⟩]
            successCount := s.successCount + 1 }

def step (call : UploadCall) : TransitionSystem TreeUpload UploadAction
  | s, .walk ok =>
      if s.room call then
        (walkStep call.tree ok s.walker).map fun (walker, item) =>
          { s with walker, futures := s.futures ++ (item.map UploadFuture.ofItem).toList }
      else none
  | s, .poll i ok => s.futures[i]?.bind (s.poll call i ok)

theorem step_walk (call : UploadCall) (s : TreeUpload) (ok : Bool) :
    step call s (.walk ok) =
      if s.room call then
        (walkStep call.tree ok s.walker).map fun (walker, item) =>
          { s with walker, futures := s.futures ++ (item.map UploadFuture.ofItem).toList }
      else none :=
  rfl

theorem step_poll (call : UploadCall) (s : TreeUpload) (i : Nat) (ok : Bool) :
    step call s (.poll i ok) = s.futures[i]?.bind (s.poll call i ok) :=
  rfl

/-- What `upload_tree_streaming` returns, when the walk and all uploads are done. -/
def returned (s : TreeUpload) : Option (Except ErrorChain Unit) :=
  if s.walker = .ended ∧ s.futures = [] then
    some (if 0 < s.errorCount then
      .error ["Upload failed with ".toList ++ decimal s.errorCount ++ " errors".toList]
    else .ok ())
  else none

end TreeUpload

/-! ## The key of a file -/

/-- A name that a directory entry can have, without a backslash. -/
structure EntryName (name : Str) : Prop where
  nonempty : name ≠ []
  noSlash : '/' ∉ name
  notDots : name ≠ ['.'] ∧ name ≠ ['.', '.']
  noBackslash : '\\' ∉ name

instance (name : Str) : Decidable (EntryName name) :=
  decidable_of_iff (name ≠ [] ∧ '/' ∉ name ∧ (name ≠ ['.'] ∧ name ≠ ['.', '.']) ∧ '\\' ∉ name)
    ⟨fun ⟨nonempty, noSlash, notDots, noBackslash⟩ => ⟨nonempty, noSlash, notDots, noBackslash⟩,
      fun ⟨nonempty, noSlash, notDots, noBackslash⟩ => ⟨nonempty, noSlash, notDots, noBackslash⟩⟩

/-- The path of a file relative to the root. -/
def relativePath (file : List Str) : Str := ['/'].intercalate file

/-- The key of a file: its relative path below the remote prefix. -/
def objectKey (remotePrefix : Str) (file : List Str) : Str :=
  if remotePrefix.isEmpty then relativePath file
  else trimEndMatches remotePrefix ['/'] ++ '/' :: relativePath file

theorem relativePath_cons (name next : Str) (rest : List Str) :
    relativePath (name :: next :: rest) = name ++ '/' :: relativePath (next :: rest) := by
  simp [relativePath, List.intercalate]

section Names

variable {file : List Str} (nonempty : file ≠ []) (names : ∀ name ∈ file, EntryName name)
include nonempty names

theorem split_relativePath : split '/' (relativePath file) = file :=
  List.splitOn_intercalate '/' (fun name member => (names name member).noSlash) nonempty

theorem isAbsolute_relativePath : isAbsolute (relativePath file) = false := by
  cases file with
  | nil => exact absurd rfl nonempty
  | cons name rest =>
      obtain ⟨nonempty, noSlash, -, -⟩ := names name List.mem_cons_self
      cases name with
      | nil => exact absurd rfl nonempty
      | cons c more =>
          have first : c ≠ '/' := fun same => noSlash (same ▸ List.mem_cons_self)
          cases rest with
          | nil => simp [relativePath, isAbsolute_cons, first]
          | cons next rest =>
              rw [relativePath_cons, List.cons_append, isAbsolute_cons]
              exact beq_eq_false_iff_ne.mpr first

/-- The names one below the other are the relative path below the root. -/
theorem pathOf_eq (base : Str) : file.foldl join base = join base (relativePath file) := by
  induction file generalizing base with
  | nil => exact absurd rfl nonempty
  | cons name rest ih =>
      cases rest with
      | nil => simp [relativePath]
      | cons next rest =>
          have later : ∀ other ∈ next :: rest, EntryName other := fun other member =>
            names other (List.mem_cons_of_mem _ member)
          obtain ⟨filled, noSlash, -, -⟩ := names name List.mem_cons_self
          have relative : isAbsolute name = false := by
            have single : isAbsolute (relativePath [name]) = false :=
              isAbsolute_relativePath nofun fun other member =>
                names other (List.mem_singleton.mp member ▸ List.mem_cons_self)
            simpa [relativePath] using single
          have ends := List.getLast?_eq_getLast_of_ne_nil filled
          rw [List.foldl_cons, ih nofun later, relativePath_cons]
          exact join_join relative ends (fun same => noSlash (same ▸ List.getLast_mem filled))
            (isAbsolute_relativePath nofun later)

theorem allNamed_relativePath : AllNamed (relativePath file) := by
  intro piece member
  rw [split_relativePath nonempty names] at member
  obtain ⟨filled, -, notDots, -⟩ := names piece member
  exact component_isNone filled notDots.1

/-- The key of a file is made without an error. -/
theorem toS3Key_pathOf {root remotePrefix : Str} (rooted : root ≠ []) :
    toS3Key root (file.foldl join root) remotePrefix = .ok (objectKey remotePrefix file) := by
  have stripped := stripPrefix_join (isAbsolute_relativePath nonempty names) rooted
    (allNamed_relativePath nonempty names)
  have kept : replaceBackslash (relativePath file) = relativePath file := by
    refine replaceBackslash_eq_self.mpr fun member => ?_
    have other : '\\' ≠ '/' := by decide
    obtain ⟨piece, inside, here⟩ := exists_mem_split member other
    rw [split_relativePath nonempty names] at inside
    exact (names piece inside).noBackslash here
  unfold toS3Key objectKey
  rw [pathOf_eq nonempty names, stripped]
  simp only [kept]
  split <;> rfl

end Names

/-- Files have different keys. -/
theorem objectKey_inj {remotePrefix : Str} {file file' : List Str} (nonempty : file ≠ [])
    (nonempty' : file' ≠ []) (names : ∀ name ∈ file, EntryName name)
    (names' : ∀ name ∈ file', EntryName name)
    (same : objectKey remotePrefix file = objectKey remotePrefix file') : file = file' := by
  have relative : relativePath file = relativePath file' := by
    unfold objectKey at same
    split at same
    · exact same
    · exact (List.cons.inj (List.append_cancel_left same)).2
  rw [← split_relativePath nonempty names, relative, split_relativePath nonempty' names']

end VideoStorage.Jobs
