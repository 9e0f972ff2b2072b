import Mathlib.Data.List.AList
import Mathlib.Data.List.Rotate
import VideoStorage.Library.TransitionSystem

/-!
# The stream map

`StreamMap` runs futures under an index, one at a time for each index. A future
that is pushed while another of its index is in progress waits in a queue, and
takes its turn when that one is finished.

What the map is for is said by `TasksStep`: every index has its own list of
tasks, new ones go to the end, and a poll takes a finished one from the head of
some list. The map behaves so (`WellFormed.perform`), and in every run the
futures of an index give their results once, in the order they were accepted
(`runs_in_order`).
-/

set_option autoImplicit false

namespace VideoStorage.Jobs

open TransitionSystem

inductive Poll (α : Type) where
  | pending
  | ready (value : α)
  deriving DecidableEq

variable {Index F R : Type} [DecidableEq Index]

/-- What is listed under an index. -/
def ofIndex {α : Type} (index : Index) (entries : List (Index × α)) : List α :=
  entries.filterMap fun entry => if entry.1 = index then some entry.2 else none

/-! ## Tokio's stream map -/

abbrev TokioStreamMap (Index F : Type) := List (Index × F)

namespace TokioStreamMap

def containsKey (entries : TokioStreamMap Index F) (index : Index) : Bool :=
  entries.any fun entry => entry.1 = index

def remove (entries : TokioStreamMap Index F) (index : Index) : TokioStreamMap Index F :=
  entries.eraseP fun entry => entry.1 = index

def insert (entries : TokioStreamMap Index F) (index : Index) (fut : F) : TokioStreamMap Index F :=
  remove entries index ++ [(index, fut)]

/-- The entries are polled in turn, from an arbitrary one on. The first one that
is ready gives its result. -/
def pollNext (output : F → R) (ready : F → Bool) (start : Nat) (entries : TokioStreamMap Index F) :
    Poll (Option (Index × R)) :=
  if entries.isEmpty then .ready none
  else
    match (entries.rotate start).find? fun entry => ready entry.2 with
    | some (index, fut) => .ready (some (index, output fut))
    | none => .pending

end TokioStreamMap

/-! ## The map -/

structure StreamMap (Index F : Type) where
  inProgress : TokioStreamMap Index F
  queue : AList fun _ : Index => List F

namespace StreamMap

/-- `StreamMap::default`. -/
def empty : StreamMap Index F := ⟨[], ∅⟩

def push (map : StreamMap Index F) (index : Index) (fut : F) : StreamMap Index F :=
  if map.inProgress.containsKey index then
    { map with queue := map.queue.insert index ((map.queue.lookup index).getD [] ++ [fut]) }
  else { map with inProgress := map.inProgress.insert index fut }

def addIfNotInProgress (map : StreamMap Index F) (index : Index) (fut : F) :
    Bool × StreamMap Index F :=
  if map.inProgress.containsKey index then (false, map)
  else (true, { map with inProgress := map.inProgress.insert index fut })

def processQueue (map : StreamMap Index F) (index : Index) : StreamMap Index F :=
  match map.queue.lookup index with
  | some [] => { map with queue := map.queue.erase index }
  | some (fut :: rest) =>
      { inProgress := map.inProgress.insert index fut
        queue := if rest.isEmpty then map.queue.erase index else map.queue.insert index rest }
  | none => map

/-- The answer and the map after a poll; `none` is the failed assertion that no
future is queued when none is in progress. -/
def pollNextEntry (output : F → R) (ready : F → Bool) (start : Nat) (map : StreamMap Index F) :
    Option (Poll (Option (Index × R)) × StreamMap Index F) :=
  match map.inProgress.pollNext output ready start with
  | .pending => some (.pending, map)
  | .ready (some (index, res)) =>
      let map := { map with inProgress := map.inProgress.remove index }
      some (.ready (some (index, res)), map.processQueue index)
  | .ready none => if map.queue.entries.isEmpty then some (.ready none, map) else none

def isTerminated (map : StreamMap Index F) : Bool :=
  map.inProgress.isEmpty && map.queue.entries.isEmpty

/-- The futures of an index that are not finished, the one in progress first. -/
def tasks (map : StreamMap Index F) (index : Index) : List F :=
  ofIndex index map.inProgress ++ (map.queue.lookup index).getD []

end StreamMap

/-! ## What the map is for -/

inductive StreamAction (Index F : Type) where
  | push (index : Index) (fut : F)
  | addIfNotInProgress (index : Index) (fut : F)
  | poll (ready : F → Bool) (start : Nat)

inductive StreamEvent (Index R : Type) where
  | pushed
  | added (accepted : Bool)
  | polled (answer : Poll (Option (Index × R)))

/-- Lists of tasks, one for each index, and what may happen to them. A poll
finishes some task that is ready at the head of its list. It answers that nothing
is ready only when no head is, and that all is done only when all lists are
empty. -/
inductive TasksStep (output : F → R) (tasks : Index → List F) :
    StreamAction Index F → StreamEvent Index R → (Index → List F) → Prop where
  | push (index : Index) (fut : F) :
      TasksStep output tasks (.push index fut) .pushed
        (Function.update tasks index (tasks index ++ [fut]))
  | add {index : Index} (fut : F) (idle : tasks index = []) :
      TasksStep output tasks (.addIfNotInProgress index fut) (.added true)
        (Function.update tasks index [fut])
  | reject {index : Index} (fut : F) (busy : tasks index ≠ []) :
      TasksStep output tasks (.addIfNotInProgress index fut) (.added false) tasks
  | finish {ready : F → Bool} {index : Index} {fut : F} {rest : List F} (start : Nat)
      (head : tasks index = fut :: rest) (done : ready fut = true) :
      TasksStep output tasks (.poll ready start) (.polled (.ready (some (index, output fut))))
        (Function.update tasks index rest)
  | wait {ready : F → Bool} (start : Nat) (busy : ∃ index, tasks index ≠ [])
      (waits : ∀ index fut rest, tasks index = fut :: rest → ready fut = false) :
      TasksStep output tasks (.poll ready start) (.polled .pending) tasks
  | finished {ready : F → Bool} (start : Nat) (idle : ∀ index, tasks index = []) :
      TasksStep output tasks (.poll ready start) (.polled (.ready none)) tasks

namespace StreamMap

/-- One operation, with its answer. -/
def perform (output : F → R) (map : StreamMap Index F) :
    StreamAction Index F → Option (StreamEvent Index R × StreamMap Index F)
  | .push index fut => some (.pushed, map.push index fut)
  | .addIfNotInProgress index fut =>
      let (accepted, map) := map.addIfNotInProgress index fut
      some (.added accepted, map)
  | .poll ready start =>
      (map.pollNextEntry output ready start).map fun (answer, map) => (.polled answer, map)

/-! ## Entries -/

section Entries

variable {α : Type} {entries : List (Index × α)} {index : Index}

@[simp] theorem ofIndex_append (more : List (Index × α)) :
    ofIndex index (entries ++ more) = ofIndex index entries ++ ofIndex index more :=
  List.filterMap_append

@[simp] theorem ofIndex_self (value : α) : ofIndex index [(index, value)] = [value] := by
  simp [ofIndex]

@[simp] theorem ofIndex_other {other : Index} (differ : index ≠ other) (value : α) :
    ofIndex index [(other, value)] = [] := by
  simp [ofIndex, Ne.symm differ]

end Entries

variable {entries : TokioStreamMap Index F} {index : Index} {fut : F}

theorem ofIndex_eq_nil : ofIndex index entries = [] ↔ entries.containsKey index = false := by
  unfold ofIndex TokioStreamMap.containsKey
  rw [List.filterMap_eq_nil_iff, List.any_eq_false]
  refine forall₂_congr fun entry _ => ?_
  by_cases same : entry.1 = index <;> simp [same]

/-- Where the indices are distinct, an index has the one future of its entry. -/
theorem ofIndex_of_mem (distinct : (entries.map Prod.fst).Nodup)
    (member : (index, fut) ∈ entries) : ofIndex index entries = [fut] := by
  induction entries with
  | nil => cases member
  | cons entry rest ih =>
      rw [List.map_cons, List.nodup_cons] at distinct
      rcases List.mem_cons.mp member with rfl | later
      · have alone : ofIndex index rest = [] := by
          refine List.filterMap_eq_nil_iff.mpr fun other inside => if_neg ?_
          exact fun same => distinct.1 (List.mem_map.mpr ⟨other, inside, same⟩)
        rw [← List.singleton_append, ofIndex_append, ofIndex_self, alone]
        rfl
      · have differ : index ≠ entry.1 := fun same =>
          distinct.1 (List.mem_map.mpr ⟨(index, fut), later, same⟩)
        rw [← List.singleton_append, ofIndex_append]
        exact congrArg₂ (· ++ ·) (ofIndex_other differ entry.2) (ih distinct.2 later)

theorem remove_of_absent (absent : entries.containsKey index = false) :
    entries.remove index = entries := by
  refine List.eraseP_of_forall_not fun entry member here => ?_
  exact List.any_eq_false.mp absent entry member here

theorem ofIndex_remove_of_ne {other : Index} (differ : other ≠ index) :
    ofIndex other (entries.remove index) = ofIndex other entries := by
  induction entries with
  | nil => rfl
  | cons entry rest ih =>
      unfold TokioStreamMap.remove at ih ⊢
      by_cases same : entry.1 = index
      · rw [List.eraseP_cons_of_pos (by simpa using same), ofIndex, ofIndex,
          List.filterMap_cons_none]
        rw [if_neg fun here => differ (here.symm.trans same)]
      · rw [List.eraseP_cons_of_neg (by simpa using same), ← List.singleton_append, ofIndex_append,
          ih, ← ofIndex_append]
        rfl

theorem keys_remove :
    ((entries.remove index).map Prod.fst) = (entries.map Prod.fst).erase index := by
  induction entries with
  | nil => rfl
  | cons entry rest ih =>
      unfold TokioStreamMap.remove at ih ⊢
      rw [List.map_cons, List.erase_cons]
      by_cases same : entry.1 = index
      · rw [List.eraseP_cons_of_pos (by simpa using same), if_pos (by simpa using same)]
      · rw [List.eraseP_cons_of_neg (by simpa using same), if_neg (by simpa using same),
          List.map_cons, ih]

theorem containsKey_iff : entries.containsKey index = true ↔ index ∈ entries.map Prod.fst := by
  simp [TokioStreamMap.containsKey]

theorem insert_of_absent (absent : entries.containsKey index = false) (fut : F) :
    entries.insert index fut = entries ++ [(index, fut)] := by
  rw [TokioStreamMap.insert, remove_of_absent absent]

/-- A poll answers `none` when there is no entry, and otherwise with the result
of some entry that is ready, if any is. -/
inductive PollsNext (output : F → R) (ready : F → Bool) (entries : TokioStreamMap Index F) :
    Poll (Option (Index × R)) → Prop where
  | ended (empty : entries = []) : PollsNext output ready entries (.ready none)
  | pending (nonempty : entries ≠ []) (waits : ∀ entry ∈ entries, ready entry.2 = false) :
      PollsNext output ready entries .pending
  | result {index : Index} {fut : F} (member : (index, fut) ∈ entries) (done : ready fut = true) :
      PollsNext output ready entries (.ready (some (index, output fut)))

omit [DecidableEq Index] in
theorem pollNext_cases (output : F → R) (ready : F → Bool) (start : Nat)
    (entries : TokioStreamMap Index F) :
    PollsNext output ready entries (entries.pollNext output ready start) := by
  unfold TokioStreamMap.pollNext
  split
  · rename_i empty
    exact .ended (List.isEmpty_iff.mp empty)
  · rename_i nonempty
    split
    · rename_i index fut found
      exact .result (List.mem_rotate.mp (List.mem_of_find?_eq_some found))
        (List.find?_some (p := fun entry : Index × F => ready entry.2) found)
    · rename_i absent
      refine .pending (fun empty => nonempty (List.isEmpty_iff.mpr empty)) fun entry member => ?_
      exact Bool.eq_false_iff.mpr (List.find?_eq_none.mp absent entry (List.mem_rotate.mpr member))

omit [DecidableEq Index] in
/-- Every entry that is ready can be the one whose result is given. -/
theorem pollNext_of_ready {ready : F → Bool} (output : F → R) (member : (index, fut) ∈ entries)
    (done : ready fut = true) :
    ∃ start, entries.pollNext output ready start = .ready (some (index, output fut)) := by
  obtain ⟨before, after, rfl⟩ := List.append_of_mem member
  have first : ((index, fut) :: (after ++ before)).find? (fun entry => ready entry.2) =
      some (index, fut) := List.find?_cons_of_pos done
  refine ⟨before.length, ?_⟩
  unfold TokioStreamMap.pollNext
  rw [if_neg (by simp), List.rotate_append_length_eq, List.cons_append, first]

/-! ## The invariant -/

/-- One future of an index is in progress, and futures are queued only behind it. -/
structure WellFormed (map : StreamMap Index F) : Prop where
  distinct : (map.inProgress.map Prod.fst).Nodup
  queued : ∀ index futs, map.queue.lookup index = some futs →
    futs ≠ [] ∧ map.inProgress.containsKey index = true

namespace WellFormed

variable {map : StreamMap Index F}

theorem start : WellFormed (empty : StreamMap Index F) where
  distinct := List.nodup_nil
  queued index futs found := by
    rw [empty, AList.lookup_empty] at found
    cases found

theorem lookup_of_absent (formed : WellFormed map)
    (absent : map.inProgress.containsKey index = false) : map.queue.lookup index = none := by
  cases found : map.queue.lookup index with
  | none => rfl
  | some futs => exact absurd (formed.queued index futs found).2 (by rw [absent]; nofun)

/-- An index is idle when no future of it is in progress. -/
theorem tasks_eq_nil (formed : WellFormed map) :
    map.tasks index = [] ↔ map.inProgress.containsKey index = false := by
  rw [tasks, List.append_eq_nil_iff, ofIndex_eq_nil]
  refine ⟨And.left, fun absent => ⟨absent, ?_⟩⟩
  rw [formed.lookup_of_absent absent]
  rfl

/-- No future is queued when none is in progress. -/
theorem queue_eq_nil (formed : WellFormed map) (idle : map.inProgress = []) :
    map.queue.entries = [] := by
  refine List.eq_nil_iff_forall_not_mem.mpr fun entry member => ?_
  have found : map.queue.lookup entry.1 = some entry.2 := AList.mem_lookup_iff.mpr member
  have here := (formed.queued entry.1 entry.2 found).2
  rw [idle] at here
  cases here

theorem isTerminated_eq (formed : WellFormed map) :
    map.isTerminated = map.inProgress.isEmpty := by
  unfold isTerminated
  cases idle : map.inProgress with
  | nil => rw [formed.queue_eq_nil idle]; rfl
  | cons entry rest => rfl

/-- A future of an index that is idle is put in progress. -/
theorem insert (formed : WellFormed map) (absent : map.inProgress.containsKey index = false)
    (fut : F) : WellFormed { map with inProgress := map.inProgress.insert index fut } where
  distinct := by
    rw [insert_of_absent absent, List.map_append, List.map_singleton, List.nodup_append]
    refine ⟨formed.distinct, List.nodup_singleton _, ?_⟩
    rintro key member _ here rfl
    rw [List.mem_singleton.mp here, ← containsKey_iff, absent] at member
    cases member
  queued other futs found := by
    obtain ⟨some, present⟩ := formed.queued other futs found
    refine ⟨some, ?_⟩
    rw [insert_of_absent absent, containsKey_iff, List.map_append]
    exact List.mem_append_left _ (containsKey_iff.mp present)

theorem tasks_insert (formed : WellFormed map) (absent : map.inProgress.containsKey index = false)
    (fut : F) : tasks { map with inProgress := map.inProgress.insert index fut } =
      Function.update map.tasks index [fut] := by
  have idle := formed.tasks_eq_nil.mpr absent
  rw [insert_of_absent absent]
  refine Function.eq_update_iff.mpr ⟨?_, fun other differ => ?_⟩
  · rw [tasks, List.append_eq_nil_iff] at idle
    rw [tasks, ofIndex_append, ofIndex_self, idle.1, idle.2]
    rfl
  · rw [tasks, ofIndex_append, ofIndex_other differ, List.append_nil, tasks]

/-- A future is queued behind the one in progress. -/
theorem enqueue (formed : WellFormed map) (present : map.inProgress.containsKey index = true)
    {futs : List F} (some : futs ≠ []) :
    WellFormed { map with queue := map.queue.insert index futs } where
  distinct := formed.distinct
  queued other futs' found := by
    by_cases same : other = index
    · subst same
      rw [AList.lookup_insert] at found
      cases found
      exact ⟨some, present⟩
    · rw [AList.lookup_insert_ne same] at found
      exact formed.queued other futs' found

theorem tasks_enqueue (map : StreamMap Index F) (index : Index) (fut : F) :
    tasks { map with
      queue := map.queue.insert index ((map.queue.lookup index).getD [] ++ [fut]) } =
      Function.update map.tasks index (map.tasks index ++ [fut]) := by
  refine Function.eq_update_iff.mpr ⟨?_, fun other differ => ?_⟩
  · rw [tasks, AList.lookup_insert, Option.getD_some, ← List.append_assoc, tasks]
  · rw [tasks, AList.lookup_insert_ne differ, tasks]

/-! ## A future that is finished -/

/-- The queue of an index without its first future. -/
theorem lookup_dequeue (queue : AList fun _ : Index => List F) (index : Index) (rest : List F) :
    (if rest.isEmpty then queue.erase index else queue.insert index rest).lookup index =
      if rest.isEmpty then none else some rest := by
  split
  · exact AList.lookup_erase ..
  · exact AList.lookup_insert ..

theorem lookup_dequeue_of_ne (queue : AList fun _ : Index => List F) {index other : Index}
    (differ : other ≠ index) (rest : List F) :
    (if rest.isEmpty then queue.erase index else queue.insert index rest).lookup other =
      queue.lookup other := by
  split
  · exact AList.lookup_erase_ne differ
  · exact AList.lookup_insert_ne differ

theorem containsKey_remove (formed : WellFormed map) (index other : Index) :
    (map.inProgress.remove index).containsKey other = true ↔
      other ≠ index ∧ map.inProgress.containsKey other = true := by
  rw [containsKey_iff, keys_remove, List.Nodup.mem_erase_iff formed.distinct, containsKey_iff]

theorem ofIndex_remove (formed : WellFormed map) (index : Index) :
    ofIndex index (map.inProgress.remove index) = [] := by
  refine ofIndex_eq_nil.mpr (Bool.eq_false_iff.mpr fun present => ?_)
  exact ((formed.containsKey_remove index index).mp present).1 rfl

/-- The map after the future of an index is finished. -/
def finished (map : StreamMap Index F) (index : Index) : StreamMap Index F :=
  processQueue { map with inProgress := map.inProgress.remove index } index

/-- The next future of an index takes the place of the one that is finished. -/
theorem finished_cases (formed : WellFormed map) (index : Index) :
    map.queue.lookup index = none ∧
        finished map index = { map with inProgress := map.inProgress.remove index } ∨
      ∃ fut rest, map.queue.lookup index = some (fut :: rest) ∧
        finished map index = ⟨map.inProgress.remove index ++ [(index, fut)],
          if rest.isEmpty then map.queue.erase index else map.queue.insert index rest⟩ := by
  have absent : (map.inProgress.remove index).containsKey index = false :=
    ofIndex_eq_nil.mp (formed.ofIndex_remove index)
  unfold finished processQueue
  cases found : map.queue.lookup index with
  | none => exact .inl ⟨rfl, rfl⟩
  | some futs =>
      cases futs with
      | nil => exact absurd rfl (formed.queued index [] found).1
      | cons fut rest =>
          exact .inr ⟨fut, rest, rfl, congrArg (StreamMap.mk · _) (insert_of_absent absent fut)⟩

theorem finish (formed : WellFormed map) (index : Index) : WellFormed (finished map index) := by
  have distinct : ((map.inProgress.remove index).map Prod.fst).Nodup := by
    rw [keys_remove]
    exact formed.distinct.erase index
  rcases formed.finished_cases index with ⟨none, eq⟩ | ⟨fut, rest, some, eq⟩
  · rw [eq]
    refine ⟨distinct, fun other futs found => ?_⟩
    obtain ⟨nonempty, present⟩ := formed.queued other futs found
    refine ⟨nonempty, (formed.containsKey_remove index other).mpr ⟨?_, present⟩⟩
    rintro rfl
    rw [none] at found
    cases found
  · rw [eq]
    refine ⟨?_, fun other futs found => ?_⟩
    · rw [List.map_append, List.map_singleton, List.nodup_append]
      refine ⟨distinct, List.nodup_singleton _, ?_⟩
      rintro key member _ here rfl
      rw [List.mem_singleton.mp here, ← containsKey_iff] at member
      exact ((formed.containsKey_remove index index).mp member).1 rfl
    · rw [containsKey_iff, List.map_append, List.map_singleton, List.mem_append, List.mem_singleton]
      by_cases same : other = index
      · subst same
        rw [lookup_dequeue] at found
        split at found
        · cases found
        · rename_i nonempty
          cases found
          exact ⟨fun empty => nonempty (List.isEmpty_iff.mpr empty), .inr rfl⟩
      · rw [lookup_dequeue_of_ne _ same] at found
        obtain ⟨nonempty, present⟩ := formed.queued other futs found
        refine ⟨nonempty, .inl (containsKey_iff.mp ?_)⟩
        exact (formed.containsKey_remove index other).mpr ⟨same, present⟩

theorem tasks_finished (formed : WellFormed map) (index : Index) :
    tasks (finished map index) =
      Function.update map.tasks index ((map.queue.lookup index).getD []) := by
  have alone := formed.ofIndex_remove index
  refine Function.eq_update_iff.mpr ?_
  rcases formed.finished_cases index with ⟨none, eq⟩ | ⟨fut, rest, some, eq⟩
  · rw [eq, none]
    refine ⟨by rw [tasks, alone, none]; rfl, fun other differ => ?_⟩
    rw [tasks, ofIndex_remove_of_ne differ, tasks]
  · rw [eq, some]
    refine ⟨?_, fun other differ => ?_⟩
    · rw [tasks, ofIndex_append, alone, ofIndex_self, lookup_dequeue]
      cases rest <;> rfl
    · rw [tasks, ofIndex_append, ofIndex_remove_of_ne differ, ofIndex_other differ,
        lookup_dequeue_of_ne _ differ, List.append_nil, tasks]

theorem tasks_of_mem (formed : WellFormed map) {fut : F} (member : (index, fut) ∈ map.inProgress) :
    map.tasks index = fut :: (map.queue.lookup index).getD [] := by
  rw [tasks, ofIndex_of_mem formed.distinct member, List.singleton_append]

/-- The first future of an index is the one in progress. -/
theorem mem_of_tasks (formed : WellFormed map) {fut : F} {rest : List F}
    (head : map.tasks index = fut :: rest) : (index, fut) ∈ map.inProgress := by
  have present : map.inProgress.containsKey index = true := by
    refine (Bool.eq_false_or_eq_true _).resolve_right fun absent => ?_
    rw [formed.tasks_eq_nil.mpr absent] at head
    cases head
  obtain ⟨⟨_, other⟩, member, rfl⟩ := List.mem_map.mp (containsKey_iff.mp present)
  rw [formed.tasks_of_mem member] at head
  cases head
  exact member

/-! ## The map behaves as lists of tasks -/

theorem push (formed : WellFormed map) (index : Index) (fut : F) :
    WellFormed (map.push index fut) ∧
      (map.push index fut).tasks = Function.update map.tasks index (map.tasks index ++ [fut]) := by
  unfold StreamMap.push
  split
  · rename_i present
    exact ⟨formed.enqueue present (by simp), tasks_enqueue map index fut⟩
  · rename_i absent
    have absent := Bool.eq_false_iff.mpr absent
    refine ⟨formed.insert absent fut, ?_⟩
    rw [formed.tasks_insert absent, formed.tasks_eq_nil.mpr absent]
    rfl

theorem poll {output : F → R} {ready : F → Bool} {start : Nat}
    {answer : Poll (Option (Index × R))} {map' : StreamMap Index F} (formed : WellFormed map)
    (polled : map.pollNextEntry output ready start = some (answer, map')) :
    WellFormed map' ∧
      TasksStep output map.tasks (.poll ready start) (.polled answer) map'.tasks := by
  have polls := pollNext_cases output ready start map.inProgress
  unfold pollNextEntry at polled
  cases next : map.inProgress.pollNext output ready start with
  | pending =>
      rw [next] at polls polled
      cases polled
      cases polls with
      | pending nonempty waits =>
          obtain ⟨⟨index, fut⟩, member⟩ := List.exists_mem_of_ne_nil _ nonempty
          have busy : map.tasks index ≠ [] := by
            rw [formed.tasks_of_mem member]
            nofun
          refine ⟨formed, .wait start ⟨index, busy⟩ fun index fut rest head => ?_⟩
          exact waits _ (formed.mem_of_tasks head)
  | ready result =>
      rw [next] at polls polled
      cases polls with
      | ended idle =>
          simp only at polled
          split at polled
          · cases polled
            refine ⟨formed, .finished start fun index => formed.tasks_eq_nil.mpr ?_⟩
            rw [idle]
            rfl
          · cases polled
      | result member done =>
          cases polled
          refine ⟨formed.finish _, ?_⟩
          have step : TasksStep output _ (.poll _ start) _ _ :=
            .finish start (formed.tasks_of_mem member) done
          rw [← formed.tasks_finished] at step
          exact step

theorem perform {output : F → R} {action : StreamAction Index F} {event : StreamEvent Index R}
    {map' : StreamMap Index F} (formed : WellFormed map)
    (performed : map.perform output action = some (event, map')) :
    WellFormed map' ∧ TasksStep output map.tasks action event map'.tasks := by
  cases action with
  | push index fut =>
      cases performed
      obtain ⟨kept, tasks⟩ := formed.push index fut
      exact ⟨kept, tasks ▸ .push index fut⟩
  | addIfNotInProgress index fut =>
      simp only [StreamMap.perform, addIfNotInProgress] at performed
      split at performed
      · rename_i present
        cases performed
        refine ⟨formed, .reject fut fun idle => ?_⟩
        rw [formed.tasks_eq_nil.mp idle] at present
        cases present
      · rename_i absent
        have absent := Bool.eq_false_iff.mpr absent
        cases performed
        refine ⟨formed.insert absent fut, ?_⟩
        rw [formed.tasks_insert absent]
        exact .add fut (formed.tasks_eq_nil.mpr absent)
  | poll ready start =>
      obtain ⟨⟨answer, map''⟩, polled, same⟩ := Option.map_eq_some_iff.mp performed
      cases same
      exact formed.poll polled

/-- The assertion of a poll never fails. -/
theorem asserts (formed : WellFormed map) (output : F → R) (ready : F → Bool) (start : Nat) :
    (map.pollNextEntry output ready start).isSome = true := by
  have polls := pollNext_cases output ready start map.inProgress
  unfold pollNextEntry
  cases next : map.inProgress.pollNext output ready start with
  | pending => rfl
  | ready result =>
      rw [next] at polls
      cases polls with
      | ended idle => simp only [formed.queue_eq_nil idle, List.isEmpty_nil, if_true, Option.isSome]
      | result member done => rfl

end WellFormed

end StreamMap

/-! ## Runs -/

/-- A stream map, and what was done with it so far. -/
structure StreamRun (Index F R : Type) where
  map : StreamMap Index F
  trace : List (StreamAction Index F × StreamEvent Index R)

namespace StreamRun

def step (output : F → R) : TransitionSystem (StreamRun Index F R) (StreamAction Index F)
  | s, action => (s.map.perform output action).map fun (event, map) =>
      ⟨map, s.trace ++ [(action, event)]⟩

def start : StreamRun Index F R := ⟨.empty, []⟩

/-- The future that is given to the map for an index. -/
def given (index : Index) : StreamAction Index F → Option F
  | .push i fut | .addIfNotInProgress i fut => if i = index then some fut else none
  | .poll .. => none

/-- The future that is given to the map and accepted. -/
def acceptedBy (index : Index) : StreamAction Index F × StreamEvent Index R → Option F
  | (.addIfNotInProgress .., .added false) => none
  | (action, _) => given index action

def yieldedBy (index : Index) : StreamAction Index F × StreamEvent Index R → Option R
  | (_, .polled (.ready (some (i, res)))) => if i = index then some res else none
  | _ => none

/-- The futures of an index that were accepted, in order. -/
def accepted (s : StreamRun Index F R) (index : Index) : List F :=
  s.trace.filterMap (acceptedBy index)

/-- The results of an index that were yielded, in order. -/
def yielded (s : StreamRun Index F R) (index : Index) : List R :=
  s.trace.filterMap (yieldedBy index)

/-- The accepted futures of an index are those that have given their results, in
the same order, and then its tasks. -/
def InOrder (output : F → R) (accepted : List F) (yielded : List R) (tasks : List F) : Prop :=
  ∃ ran, accepted = ran ++ tasks ∧ yielded = ran.map output

theorem filterMap_concat {α β : Type} (f : α → Option β) (entries : List α) (last : α) :
    (entries ++ [last]).filterMap f = entries.filterMap f ++ (f last).toList := by
  rw [List.filterMap_append, List.filterMap_cons]
  cases f last <;> rfl

/-- What is accepted goes to the end of its list of tasks, and what is yielded is
the result of the first one. -/
theorem inOrder_step {output : F → R} {tasks tasks' : Index → List F}
    {action : StreamAction Index F} {event : StreamEvent Index R}
    (step : TasksStep output tasks action event tasks') (index : Index) {accepted : List F}
    {yielded : List R} (before : InOrder output accepted yielded (tasks index)) :
    InOrder output (accepted ++ (acceptedBy index (action, event)).toList)
      (yielded ++ (yieldedBy index (action, event)).toList) (tasks' index) := by
  obtain ⟨ran, rfl, rfl⟩ := before
  cases step with
  | push i fut =>
      refine ⟨ran, ?_, List.append_nil _⟩
      rcases eq_or_ne index i with rfl | differ
      · simp [acceptedBy, given]
      · simp [acceptedBy, given, differ, differ.symm]
  | @add i fut idle =>
      refine ⟨ran, ?_, List.append_nil _⟩
      rcases eq_or_ne index i with rfl | differ
      · simp [acceptedBy, given, idle]
      · simp [acceptedBy, given, differ, differ.symm]
  | reject fut busy => exact ⟨ran, List.append_nil _, List.append_nil _⟩
  | @finish ready i fut rest start head done =>
      rcases eq_or_ne index i with rfl | differ
      · refine ⟨ran ++ [fut], ?_, ?_⟩
        · simp [acceptedBy, given, head]
        · simp [yieldedBy]
      · refine ⟨ran, ?_, ?_⟩
        · simp [acceptedBy, given, differ]
        · simp [yieldedBy, differ.symm]
  | wait start busy waits => exact ⟨ran, List.append_nil _, List.append_nil _⟩
  | finished start idle => exact ⟨ran, List.append_nil _, List.append_nil _⟩

/-- Every future that is given is accepted, unless `add_if_not_in_progress`
answers that it is not. -/
theorem accepted_or_rejected {output : F → R} {tasks tasks' : Index → List F}
    {action : StreamAction Index F} {event : StreamEvent Index R}
    (step : TasksStep output tasks action event tasks') (index : Index) :
    acceptedBy index (action, event) = given index action ∨
      ∃ fut, action = .addIfNotInProgress index fut ∧ event = .added false ∧ tasks' = tasks := by
  cases step with
  | @reject i fut busy =>
      rcases eq_or_ne i index with rfl | differ
      · exact .inr ⟨fut, rfl, rfl, rfl⟩
      · exact .inl (by simp [acceptedBy, given, differ])
  | _ => exact .inl rfl

/-- What holds of a stream map and what was done with it. -/
structure RunsInOrder (output : F → R) (s : StreamRun Index F R) : Prop where
  /-- Futures are queued only behind one in progress, and no queue is empty. -/
  queued : ∀ index futs, s.map.queue.lookup index = some futs →
    futs ≠ [] ∧ s.map.inProgress.containsKey index = true
  asserts : ∀ ready start, (s.map.pollNextEntry output ready start).isSome = true
  terminated : s.map.isTerminated = s.map.inProgress.isEmpty
  /-- One future of an index is in progress. -/
  distinct : (s.map.inProgress.map Prod.fst).Nodup
  inOrder : ∀ index, InOrder output (s.accepted index) (s.yielded index) (s.map.tasks index)
  /-- When a poll answers that all is done, every accepted future has given its
  result. -/
  ended : ∀ ready start map', s.map.pollNextEntry output ready start = some (.ready none, map') →
    ∀ index, s.yielded index = (s.accepted index).map output
  /-- A future is rejected only by `add_if_not_in_progress`, which says so. -/
  rejected : ∀ index action event, (action, event) ∈ s.trace →
    acceptedBy index (action, event) = given index action ∨
      ∃ fut, action = .addIfNotInProgress index fut ∧ event = .added false

/-- What a run keeps. -/
structure Invariant (output : F → R) (s : StreamRun Index F R) : Prop where
  formed : s.map.WellFormed
  inOrder : ∀ index, InOrder output (s.accepted index) (s.yielded index) (s.map.tasks index)
  rejected : ∀ index action event, (action, event) ∈ s.trace →
    acceptedBy index (action, event) = given index action ∨
      ∃ fut, action = .addIfNotInProgress index fut ∧ event = .added false

theorem invariant_start (output : F → R) : Invariant output (start : StreamRun Index F R) where
  formed := .start
  inOrder _ := ⟨[], rfl, rfl⟩
  rejected _ _ _ member := nomatch member

theorem invariant_step {output : F → R} {s t : StreamRun Index F R} {action : StreamAction Index F}
    (inv : Invariant output s) (moved : step output s action = some t) : Invariant output t := by
  obtain ⟨⟨event, map⟩, performed, rfl⟩ := Option.map_eq_some_iff.mp moved
  obtain ⟨formed, tasksStep⟩ := inv.formed.perform performed
  refine ⟨formed, fun index => ?_, fun index action' event' member => ?_⟩
  · simp only [accepted, yielded, filterMap_concat]
    exact inOrder_step tasksStep index (inv.inOrder index)
  · rcases List.mem_append.mp member with before | last
    · exact inv.rejected index action' event' before
    · cases List.mem_singleton.mp last
      rcases accepted_or_rejected tasksStep index with given | ⟨fut, action, event, _⟩
      · exact .inl given
      · exact .inr ⟨fut, action, event⟩

theorem runsInOrder_of_invariant {output : F → R} {s : StreamRun Index F R}
    (inv : Invariant output s) : RunsInOrder output s where
  queued := inv.formed.queued
  asserts := inv.formed.asserts output
  terminated := inv.formed.isTerminated_eq
  distinct := inv.formed.distinct
  inOrder := inv.inOrder
  ended ready start map' polled index := by
    obtain ⟨_, step⟩ := inv.formed.poll polled
    generalize map'.tasks = tasks at step
    cases step with
    | finished _ idle =>
        obtain ⟨ran, accepted, yielded⟩ := inv.inOrder index
        rw [idle index, List.append_nil] at accepted
        rw [accepted, yielded]
  rejected := inv.rejected

/-- **Every task runs once, in order**, after any run of the map. -/
theorem runs_in_order {output : F → R} {s : StreamRun Index F R}
    (run : Reachable (step output) start s) : RunsInOrder output s :=
  runsInOrder_of_invariant
    (Run.invariant run (invariant_start output) fun inv _ moved => invariant_step inv moved)

/-- Two tasks of one index and one of another, a rejected one, and three polls of
which the second finds nothing ready. -/
def threeTasks : List (StreamAction Nat Nat) :=
  [.push 0 10, .push 0 11, .addIfNotInProgress 1 20, .addIfNotInProgress 0 12,
    .poll (fun fut => fut == 10) 1, .poll (fun fut => fut == 10) 0, .poll (fun _ => true) 1]

theorem runs_in_order_threeTasks :
    ∃ s, exec (step id) anything start threeTasks = some s ∧ s.accepted 0 = [10, 11] ∧
      s.yielded 0 = [10, 11] ∧ s.map.isTerminated = false ∧ RunsInOrder id s :=
  ⟨_, rfl, rfl, rfl, rfl, runs_in_order
    (@run_of_exec _ _ (step id) anything start _ threeTasks rfl)⟩

end StreamRun

end VideoStorage.Jobs
