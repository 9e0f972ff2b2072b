import VideoStorage.Jobs.UploadTree

/-!
# Runs of an upload

Whatever the order of the steps, the files that are written, in flight and still
ahead of the walk are the files of the tree, each once, as long as no request failed
(`UploadInv`). So an upload that returns without an error has written all of them, and
it returns an error when any request failed (`uploadsAll`).
-/

set_option autoImplicit false

namespace VideoStorage.Jobs

open RustStd Str Path Api DirectoryTree TransitionSystem

/-! ## What is ahead of the walk -/

/-- The files below a directory of the tree. -/
def filesBelow (tree : FileTree) (dir : List Str) : List (List Str) :=
  match tree.find dir with
  | some (.dir entries) => entries.paths.map (dir ++ ·)
  | _ => []

/-- The files that the walk has still to yield. -/
def Walker.ahead (tree : FileTree) : Walker → List (List Str)
  | next queue => queue.flatMap (filesBelow tree)
  | reading dir entries queue | typing dir entries queue =>
      entries.paths.map (dir ++ ·) ++ queue.flatMap (filesBelow tree)
  | ended => []

def WalkItem.file : WalkItem → Option (List Str)
  | path file => some file
  | error => none

/-- The queue holds directories of the tree. -/
def Queued (tree : FileTree) (queue : List (List Str)) : Prop :=
  ∀ dir ∈ queue, ∃ entries, tree.find dir = some (.dir entries)

/-- What is left of a directory that is read. -/
structure Remains (tree : FileTree) (dir : List Str) (entries : FileTree) : Prop where
  valid : entries.Valid EntryName
  found : ∀ name node, entries.child name = some node → tree.find (dir ++ [name]) = some node

/-- The walk reads what is there. -/
def Walker.Formed (tree : FileTree) : Walker → Prop
  | next queue => Queued tree queue
  | reading dir entries queue | typing dir entries queue =>
      Remains tree dir entries ∧ Queued tree queue
  | ended => True

section Walk

variable {tree : FileTree}

theorem remains_of_find (valid : tree.Valid EntryName) {dir : List Str} {entries : FileTree}
    (leads : tree.find dir = some (.dir entries)) : Remains tree dir entries := by
  refine ⟨(valid.find leads).2 entries rfl, fun name node entry => ?_⟩
  rw [Directory.find_append leads, Directory.find_singleton]
  exact entry

/-- The entries behind the first one. -/
theorem Remains.behind {dir : List Str} {name : Str} {entries rest : FileTree}
    (remains : Remains tree dir entries) (valid : rest.Valid EntryName) (absent : name ∉ rest.names)
    (others : ∀ other, name ≠ other → entries.child other = rest.child other) :
    Remains tree dir rest := by
  refine ⟨valid, fun other node entry => remains.found other node ?_⟩
  have differ : name ≠ other := by
    rintro rfl
    rw [Directory.child_eq_none absent] at entry
    cases entry
  rw [others other differ, entry]

theorem Remains.file {dir : List Str} {name : Str} {content : Bytes} {rest : FileTree}
    (remains : Remains tree dir (.file name content rest)) :
    tree.find (dir ++ [name]) = some (.file content) ∧ Remains tree dir rest := by
  obtain ⟨-, absent, later⟩ := remains.valid
  exact ⟨remains.found name _ (if_pos rfl),
    remains.behind later absent fun other differ => if_neg differ⟩

theorem Remains.dir {dir : List Str} {name : Str} {inside rest : FileTree}
    (remains : Remains tree dir (.dir name inside rest)) :
    tree.find (dir ++ [name]) = some (.dir inside) ∧ Remains tree dir rest := by
  obtain ⟨-, absent, -, later⟩ := remains.valid
  exact ⟨remains.found name _ (if_pos rfl),
    remains.behind later absent fun other differ => if_neg differ⟩

/-- What a step of the walk does: a request that fails ends it with an error, and one
that succeeds leaves what is ahead, but for the file that it yields. -/
inductive WalkStep (tree : FileTree) (walker : Walker) :
    Bool → Walker → Option WalkItem → Prop where
  | failed : WalkStep tree walker false .ended (some .error)
  | goes {walker' : Walker} (formed : walker'.Formed tree)
      (ahead : (walker.ahead tree).Perm (walker'.ahead tree)) :
      WalkStep tree walker true walker' none
  | yields {walker' : Walker} {file : List Str} (formed : walker'.Formed tree)
      (ahead : walker.ahead tree = file :: walker'.ahead tree)
      (found : ∃ content, tree.find file = some (.file content)) :
      WalkStep tree walker true walker' (some (.path file))

/-- A request that fails ends the walk with an error. -/
theorem walkStep_failed {walker walker' : Walker} {item : Option WalkItem}
    (moved : walkStep tree false walker = some (walker', item)) :
    walker' = .ended ∧ item = some .error := by
  cases walker with
  | next queue =>
      cases queue with
      | nil => cases moved
      | cons dir queue =>
          cases moved
          exact ⟨rfl, rfl⟩
  | reading dir entries queue =>
      cases moved
      exact ⟨rfl, rfl⟩
  | typing dir entries queue =>
      cases moved
      exact ⟨rfl, rfl⟩
  | ended => cases moved

theorem walkStep_cases (valid : tree.Valid EntryName) {walker walker' : Walker} {ok : Bool}
    {item : Option WalkItem} (formed : walker.Formed tree)
    (moved : walkStep tree ok walker = some (walker', item)) :
    WalkStep tree walker ok walker' item := by
  cases ok with
  | false =>
      obtain ⟨rfl, rfl⟩ := walkStep_failed moved
      exact .failed
  | true =>
      cases walker with
      | ended => cases moved
      | next queue =>
          cases queue with
          | nil =>
              cases moved
              exact .goes trivial List.Perm.rfl
          | cons dir queue =>
              obtain ⟨entries, leads⟩ := formed dir List.mem_cons_self
              simp only [walkStep, leads, if_true] at moved
              cases moved
              refine .goes ⟨remains_of_find valid leads, fun other member =>
                formed other (List.mem_cons_of_mem _ member)⟩ ?_
              rw [Walker.ahead, List.flatMap_cons, filesBelow, leads]
              exact List.Perm.rfl
      | reading dir entries queue =>
          obtain ⟨remains, queued⟩ := formed
          cases entries with
          | empty =>
              cases moved
              exact .goes queued List.Perm.rfl
          | file name content rest =>
              cases moved
              exact .goes ⟨remains, queued⟩ List.Perm.rfl
          | dir name inside rest =>
              cases moved
              exact .goes ⟨remains, queued⟩ List.Perm.rfl
      | typing dir entries queue =>
          obtain ⟨remains, queued⟩ := formed
          cases entries with
          | empty => cases moved
          | file name content rest =>
              obtain ⟨found, later⟩ := remains.file
              cases moved
              exact .yields ⟨later, queued⟩ rfl ⟨content, found⟩
          | dir name inside rest =>
              obtain ⟨found, later⟩ := remains.dir
              cases moved
              refine .goes ⟨later, fun other member => ?_⟩ ?_
              · rcases List.mem_append.mp member with before | last
                · exact queued other before
                · exact ⟨inside, List.mem_singleton.mp last ▸ found⟩
              · have below : filesBelow tree (dir ++ [name]) =
                    (inside.paths.map (name :: ·)).map (dir ++ ·) := by
                  rw [filesBelow, found, List.map_map]
                  simp
                rw [Walker.ahead, Walker.ahead, Directory.paths, List.flatMap_append,
                  List.flatMap_singleton, below, List.map_append, List.append_assoc]
                exact List.perm_append_comm.trans (List.append_assoc .. ▸ List.Perm.rfl)

end Walk

/-! ## What is in flight -/

/-- The file that a future uploads. -/
def UploadFuture.file : UploadFuture → Option (List Str)
  | upload file _ => some file
  | walkError => none

def UploadFuture.isWalkError : UploadFuture → Bool
  | walkError => true
  | upload .. => false

/-- An upload has the key and the content of its file. -/
def UploadStage.Formed (call : UploadCall) (file : List Str) : UploadStage → Prop
  | opening => ∃ content, call.tree.find file = some (.file content)
  | creating key content | copying key content | closing key content =>
      call.tree.find file = some (.file content) ∧ key = objectKey call.remotePrefix file

def UploadFuture.Formed (call : UploadCall) : UploadFuture → Prop
  | walkError => True
  | upload file stage => stage.Formed call file

/-- What an upload does at a request: it fails, or it comes nearer to its object. -/
inductive UploadStep (call : UploadCall) (file : List Str) : Bool → UploadProgress → Prop where
  | goes {stage : UploadStage} (formed : stage.Formed call file) :
      UploadStep call file true (.goes stage)
  | failed : UploadStep call file false .failed
  | written {key : Str} {content : Bytes} (found : call.tree.find file = some (.file content))
      (named : key = objectKey call.remotePrefix file) :
      UploadStep call file true (.written key content)

/-- A tree below a root whose names are entry names. -/
structure UploadCall.Valid (call : UploadCall) : Prop where
  rooted : call.localRoot ≠ []
  valid : call.tree.Valid EntryName

theorem file_ne_nil {tree : FileTree} {file : List Str} {content : Bytes}
    (found : tree.find file = some (.file content)) : file ≠ [] := by
  rintro rfl
  cases found

/-- A request that fails ends the upload. -/
theorem uploadOne_failed (call : UploadCall) (file : List Str) (stage : UploadStage) :
    uploadOne call false file stage = some .failed := by
  cases stage with
  | opening =>
      simp only [uploadOne, Bool.false_eq_true, if_false]
      split <;> rfl
  | creating key content => rfl
  | copying key content => rfl
  | closing key content => rfl

theorem uploadOne_cases {call : UploadCall} (valid : call.Valid) {ok : Bool} {file : List Str}
    {stage : UploadStage} {progress : UploadProgress} (formed : stage.Formed call file)
    (moved : uploadOne call ok file stage = some progress) : UploadStep call file ok progress := by
  cases ok with
  | false =>
      rw [uploadOne_failed] at moved
      cases moved
      exact .failed
  | true =>
      cases stage with
      | opening =>
          obtain ⟨content, found⟩ := formed
          have named : toS3Key call.localRoot (call.pathOf file) call.remotePrefix =
              .ok (objectKey call.remotePrefix file) :=
            toS3Key_pathOf (file_ne_nil found) (valid.valid.find found).1 valid.rooted
          simp only [uploadOne, named, found] at moved
          cases moved
          exact .goes ⟨found, rfl⟩
      | creating key content =>
          cases moved
          exact .goes formed
      | copying key content =>
          cases moved
          exact .goes formed
      | closing key content =>
          cases moved
          exact .written formed.1 formed.2

/-! ## The invariant -/

/-- An object has the content of its file, and the key that goes with it. -/
def WrittenObject.Stores (call : UploadCall) (object : WrittenObject) : Prop :=
  call.tree.find object.file = some (.file object.content) ∧
    object.key = objectKey call.remotePrefix object.file

/-- A file has one object. -/
theorem WrittenObject.Stores.unique {call : UploadCall} {object object' : WrittenObject}
    (stores : object.Stores call) (stores' : object'.Stores call)
    (same : object.file = object'.file) : object = object' := by
  obtain ⟨file, key, content⟩ := object
  obtain ⟨file', key', content'⟩ := object'
  obtain ⟨found, named⟩ := stores
  obtain ⟨found', named'⟩ := stores'
  simp only at found found' named named' same
  subst same
  rw [found, Option.some.injEq, Node.file.injEq] at found'
  rw [named, named', found']

/-- The number of requests that failed. -/
def failures (past : List UploadAction) : Nat := past.countP UploadAction.failed

/-- What holds of an upload after some steps. -/
structure UploadInv (call : UploadCall) (past : List UploadAction) (s : TreeUpload) : Prop where
  walker : s.walker.Formed call.tree
  futures : ∀ future ∈ s.futures, future.Formed call
  /-- There is room for the futures. -/
  room : call.concurrency ≠ 0 → s.futures.length ≤ call.concurrency
  written : ∀ object ∈ s.written, object.Stores call
  /-- Failed requests are counted, except for a failed walk that is not counted yet. -/
  counted : s.errorCount + s.futures.countP UploadFuture.isWalkError = failures past
  /-- No file is lost or met twice. -/
  complete : failures past = 0 →
    (s.written.map WrittenObject.file ++ s.futures.filterMap UploadFuture.file ++
      s.walker.ahead call.tree).Perm call.tree.paths

theorem failures_concat (past : List UploadAction) (action : UploadAction) :
    failures (past ++ [action]) = failures past + if action.failed then 1 else 0 := by
  rw [failures, List.countP_append, List.countP_singleton]
  rfl

theorem uploadInv_start (call : UploadCall) :
    UploadInv call [] TreeUpload.start where
  walker := by
    intro dir member
    cases List.mem_singleton.mp member
    exact ⟨call.tree, rfl⟩
  futures _ member := nomatch member
  room _ := Nat.zero_le _
  written _ member := nomatch member
  counted := rfl
  complete _ := by
    have root : filesBelow call.tree [] = call.tree.paths := by
      rw [filesBelow, Directory.find]
      exact List.map_id _
    change ([] ++ [] ++ [[]].flatMap (filesBelow call.tree)).Perm call.tree.paths
    rw [List.flatMap_singleton, root]
    exact List.Perm.rfl

section Steps

variable {call : UploadCall} {past : List UploadAction} {s : TreeUpload}

theorem UploadInv.walk {t : TreeUpload} {ok : Bool} (inv : UploadInv call past s)
    (valid : call.Valid) (moved : TreeUpload.step call s (.walk ok) = some t) :
    UploadInv call (past ++ [.walk ok]) t := by
  rw [TreeUpload.step_walk] at moved
  split at moved
  · rename_i room
    obtain ⟨⟨walker, item⟩, walked, rfl⟩ := Option.map_eq_some_iff.mp moved
    have fits : ∀ future : UploadFuture, call.concurrency ≠ 0 →
        (s.futures ++ [future]).length ≤ call.concurrency := by
      intro future limited
      simp only [TreeUpload.room, Bool.or_eq_true, decide_eq_true_eq] at room
      rw [List.length_append, List.length_singleton]
      exact Nat.succ_le_of_lt (room.resolve_left limited)
    have step := walkStep_cases valid.valid inv.walker walked
    cases step with
    | failed =>
        refine ⟨trivial, ?_, fits .walkError, inv.written, ?_, ?_⟩
        · intro future member
          rcases List.mem_append.mp member with before | last
          · exact inv.futures future before
          · cases List.mem_singleton.mp last
            trivial
        · have counted := inv.counted
          rw [failures_concat, ← counted]
          change s.errorCount + (s.futures ++ [UploadFuture.walkError]).countP _ = _
          rw [List.countP_append]
          rfl
        · intro none
          rw [failures_concat] at none
          cases none
    | goes formed ahead =>
        refine ⟨formed, ?_, ?_, inv.written, ?_, fun none => ?_⟩
        · simpa using inv.futures
        · simpa using inv.room
        · rw [failures_concat, ← inv.counted]
          simp [UploadAction.failed]
        · rw [failures_concat] at none
          have complete := inv.complete none
          simp only [Option.map_none, Option.toList_none, List.append_nil]
          exact (ahead.symm.append_left _).trans complete
    | @yields walker file formed ahead found =>
        refine ⟨formed, ?_, fits (.upload file .opening), inv.written, ?_, fun none => ?_⟩
        · intro future member
          rcases List.mem_append.mp member with before | last
          · exact inv.futures future before
          · cases List.mem_singleton.mp last
            exact found
        · rw [failures_concat, ← inv.counted]
          change s.errorCount + (s.futures ++ [UploadFuture.upload file .opening]).countP _ = _
          rw [List.countP_append]
          rfl
        · rw [failures_concat] at none
          have complete := inv.complete none
          rw [ahead] at complete
          simpa [UploadFuture.ofItem, UploadFuture.file] using complete
  · cases moved

/-- A future among others. -/
theorem perm_eraseIdx {futures : List UploadFuture} {i : Nat} {future : UploadFuture}
    (here : futures[i]? = some future) : futures.Perm (future :: futures.eraseIdx i) := by
  obtain ⟨less, rfl⟩ := List.getElem?_eq_some_iff.mp here
  exact (List.getElem_cons_eraseIdx_perm less).symm

theorem perm_set {futures : List UploadFuture} {i : Nat} {future : UploadFuture}
    (here : futures[i]? = some future) (next : UploadFuture) :
    (futures.set i next).Perm (next :: futures.eraseIdx i) := by
  obtain ⟨less, -⟩ := List.getElem?_eq_some_iff.mp here
  exact List.set_perm_cons_eraseIdx less next

theorem UploadInv.poll {t : TreeUpload} {i : Nat} {ok : Bool} (inv : UploadInv call past s)
    (valid : call.Valid) (moved : TreeUpload.step call s (.poll i ok) = some t) :
    UploadInv call (past ++ [.poll i ok]) t := by
  rw [TreeUpload.step_poll] at moved
  obtain ⟨future, here, moved⟩ := Option.bind_eq_some_iff.mp moved
  have among := perm_eraseIdx here
  have rest : ∀ other ∈ s.futures.eraseIdx i, other.Formed call := fun other member =>
    inv.futures other (List.mem_of_mem_eraseIdx member)
  have fewer : call.concurrency ≠ 0 → (s.futures.eraseIdx i).length ≤ call.concurrency :=
    fun limited => (List.length_eraseIdx_le ..).trans (inv.room limited)
  have counted := inv.counted
  rw [among.countP_eq, List.countP_cons] at counted
  have formed := inv.futures future (List.mem_of_getElem? here)
  cases future with
  | walkError =>
      simp only [UploadFuture.isWalkError, if_true] at counted
      cases ok with
      | false => cases moved
      | true =>
          cases moved
          refine ⟨inv.walker, rest, fewer, inv.written, ?_, fun none => ?_⟩
          · rw [failures_concat, ← counted]
            simp only [TreeUpload.leave, UploadAction.failed, Bool.not_true, Bool.false_eq_true,
              if_false]
            omega
          · rw [failures_concat, ← counted] at none
            omega
  | upload file stage =>
      simp only [UploadFuture.isWalkError, Bool.false_eq_true, if_false] at counted
      simp only [TreeUpload.poll] at moved
      cases progressed : uploadOne call ok file stage with
      | none =>
          rw [progressed] at moved
          cases moved
      | some progress =>
          rw [progressed] at moved
          have step := uploadOne_cases valid formed progressed
          have files := among.filterMap UploadFuture.file
          cases step with
          | @goes stage' formed' =>
              cases moved
              have among' := perm_set here (.upload file stage')
              refine ⟨inv.walker, fun other member => ?_, fun limited => ?_, inv.written, ?_,
                fun none => ?_⟩
              · rcases List.mem_cons.mp (among'.subset member) with rfl | later
                · exact formed'
                · exact rest other later
              · rw [List.length_set]
                exact inv.room limited
              · rw [failures_concat, ← counted, among'.countP_eq, List.countP_cons]
                rfl
              · rw [failures_concat] at none
                have same := (among'.filterMap UploadFuture.file).trans files.symm
                exact ((same.append_left _).append_right _).trans (inv.complete none)
          | failed =>
              cases moved
              refine ⟨inv.walker, rest, fewer, inv.written, ?_, fun none => ?_⟩
              · rw [failures_concat, ← counted]
                simp only [TreeUpload.leave, UploadAction.failed, Bool.not_false, if_true]
                omega
              · rw [failures_concat] at none
                cases none
          | @written key content found named =>
              cases moved
              refine ⟨inv.walker, rest, fewer, fun object member => ?_, ?_, fun none => ?_⟩
              · rcases List.mem_append.mp member with before | last
                · exact inv.written object before
                · cases List.mem_singleton.mp last
                  exact ⟨found, named⟩
              · rw [failures_concat, ← counted]
                rfl
              · rw [failures_concat] at none
                have moved : ((s.written.map WrittenObject.file ++ [file]) ++
                      (s.futures.eraseIdx i).filterMap UploadFuture.file).Perm
                    (s.written.map WrittenObject.file ++
                      s.futures.filterMap UploadFuture.file) := by
                  rw [List.append_assoc]
                  exact files.symm.append_left _
                have complete := (moved.append_right _).trans (inv.complete none)
                simpa [TreeUpload.leave] using complete

theorem UploadInv.step {t : TreeUpload} {action : UploadAction} (inv : UploadInv call past s)
    (valid : call.Valid) (moved : TreeUpload.step call s action = some t) :
    UploadInv call (past ++ [action]) t := by
  cases action with
  | walk ok => exact inv.walk valid moved
  | poll i ok => exact inv.poll valid moved

end Steps

/-! ## What a run has uploaded -/

/-- Every file of the tree is written once, under its own key. -/
structure AllUploaded (call : UploadCall) (s : TreeUpload) : Prop where
  once : (s.written.map WrittenObject.key).Nodup
  written : ∀ object, object ∈ s.written ↔ object.Stores call
  distinct : ∀ file file' content content', call.tree.find file = some (.file content) →
    call.tree.find file' = some (.file content') →
    objectKey call.remotePrefix file = objectKey call.remotePrefix file' → file = file'

/-- How an upload ends: with no error when no request failed, and then with every
file. -/
structure UploadsAll (call : UploadCall) (actions : List UploadAction) (s : TreeUpload) : Prop where
  result : ∀ result, s.returned = some result →
    (result = .ok () ↔ ∀ action ∈ actions, action.failed = false)
  uploaded : s.returned = some (.ok ()) → AllUploaded call s
  concurrent : call.concurrency ≠ 0 → s.futures.length ≤ call.concurrency

theorem failures_eq_zero {actions : List UploadAction} :
    failures actions = 0 ↔ ∀ action ∈ actions, action.failed = false := by
  rw [failures, List.countP_eq_zero]
  exact forall₂_congr fun action _ => Bool.eq_false_iff.symm

section Runs

variable {call : UploadCall} {actions : List UploadAction} {s : TreeUpload}

/-- The result tells whether a request failed. -/
theorem UploadInv.returned (inv : UploadInv call actions s) {result : Except ErrorChain Unit}
    (ends : s.returned = some result) :
    s.walker = .ended ∧ s.futures = [] ∧ (result = .ok () ↔ failures actions = 0) := by
  unfold TreeUpload.returned at ends
  split at ends
  · rename_i done
    refine ⟨done.1, done.2, ?_⟩
    have counted := inv.counted
    rw [done.2, List.countP_nil, Nat.add_zero] at counted
    rw [← counted]
    cases ends
    split
    · rename_i failed
      exact iff_of_false nofun (Nat.ne_of_gt failed)
    · rename_i none
      exact iff_of_true rfl (Nat.eq_zero_of_not_pos none)
  · cases ends

/-- What a run without a failed request has written. -/
theorem UploadInv.allUploaded (inv : UploadInv call actions s) (valid : call.Valid)
    (ends : s.returned = some (.ok ())) : AllUploaded call s := by
  obtain ⟨walked, idle, success⟩ := inv.returned ends
  have complete := inv.complete (success.mp rfl)
  rw [walked, idle, Walker.ahead, List.filterMap_nil, List.append_nil, List.append_nil] at complete
  have names : ∀ {file content}, call.tree.find file = some (.file content) →
      file ≠ [] ∧ ∀ name ∈ file, EntryName name := fun found =>
    ⟨file_ne_nil found, (valid.valid.find found).1⟩
  have distinct : ∀ file file' content content', call.tree.find file = some (.file content) →
      call.tree.find file' = some (.file content') →
      objectKey call.remotePrefix file = objectKey call.remotePrefix file' → file = file' := by
    intro file file' content content' found found' same
    exact objectKey_inj (names found).1 (names found').1 (names found).2 (names found').2 same
  refine ⟨?_, fun object => ⟨inv.written object, ?_⟩, distinct⟩
  · have files := complete.nodup_iff.mpr (Directory.nodup_paths valid.valid)
    refine List.Nodup.map_on (fun object member object' member' same => ?_) files.of_map
    have stores := inv.written object member
    have stores' := inv.written object' member'
    rw [stores.2, stores'.2] at same
    exact stores.unique stores' (distinct _ _ _ _ stores.1 stores'.1 same)
  · intro stores
    have listed := (Directory.mem_paths valid.valid).mpr ⟨object.content, stores.1⟩
    obtain ⟨object', member, same⟩ := List.mem_map.mp (complete.mem_iff.mpr listed)
    exact (inv.written object' member).unique stores same ▸ member

theorem uploadInv_exec (valid : call.Valid)
    (ran : exec (TreeUpload.step call) anything .start actions = some s) :
    UploadInv call actions s :=
  exec_invariant ran (uploadInv_start call) fun inv _ moved => inv.step valid moved

theorem uploadsAll (valid : call.Valid)
    (ran : exec (TreeUpload.step call) anything .start actions = some s) :
    UploadsAll call actions s := by
  have inv := uploadInv_exec valid ran
  refine ⟨fun result ends => ?_, inv.allUploaded valid, inv.room⟩
  rw [(inv.returned ends).2.2, failures_eq_zero]

end Runs

end VideoStorage.Jobs
