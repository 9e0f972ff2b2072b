import Mathlib.Algebra.GroupWithZero.Nat
import VideoStorage.Jobs.UploadRuns

/-!
# Uploads return

Every step of an upload makes a cost smaller: a request of the walk costs more than
the upload of the file that it yields, and a request of an upload brings that nearer
to its end. Some step is possible as long as the upload has not returned. So it
returns on every path, whatever fails (`upload_returns`).
-/

set_option autoImplicit false

namespace VideoStorage.Jobs

open RustStd Str Path Api DirectoryTree TransitionSystem

/-! ## Costs -/

/-- More than the steps that reading a directory and what is below it takes, an upload
of each file included. -/
def entriesCost : FileTree → Nat
  | .empty => 1
  | .file _ _ rest => 6 + entriesCost rest
  | .dir _ inside rest => 3 + entriesCost inside + entriesCost rest

def queueCost (tree : FileTree) (queue : List (List Str)) : Nat :=
  (queue.map fun dir =>
    match tree.find dir with
    | some (.dir entries) => 1 + entriesCost entries
    | _ => 1).sum

def Walker.cost (tree : FileTree) : Walker → Nat
  | next queue => 2 + queueCost tree queue
  | reading _ entries queue => 2 + entriesCost entries + queueCost tree queue
  | typing _ entries queue => 1 + entriesCost entries + queueCost tree queue
  | ended => 0

def UploadFuture.cost : UploadFuture → Nat
  | walkError => 1
  | upload _ .opening => 4
  | upload _ (.creating ..) => 3
  | upload _ (.copying ..) => 2
  | upload _ (.closing ..) => 1

def TreeUpload.cost (call : UploadCall) (s : TreeUpload) : Nat :=
  s.walker.cost call.tree + (s.futures.map UploadFuture.cost).sum

section Costs

variable {call : UploadCall} {s t : TreeUpload}

theorem entriesCost_pos (entries : FileTree) : 0 < entriesCost entries := by
  cases entries with
  | empty => exact Nat.one_pos
  | file name content rest =>
      rw [entriesCost]
      omega
  | dir name inside rest =>
      rw [entriesCost]
      omega

theorem queueCost_cons {tree entries : FileTree} {dir : List Str}
    (leads : tree.find dir = some (.dir entries)) (queue : List (List Str)) :
    queueCost tree (dir :: queue) = 1 + entriesCost entries + queueCost tree queue := by
  rw [queueCost, List.map_cons, List.sum_cons, leads]
  rfl

theorem queueCost_concat {tree entries : FileTree} {dir : List Str}
    (leads : tree.find dir = some (.dir entries)) (queue : List (List Str)) :
    queueCost tree (queue ++ [dir]) = queueCost tree queue + (1 + entriesCost entries) := by
  rw [queueCost, List.map_append, List.sum_append, List.map_singleton, List.sum_singleton, leads]
  rfl

theorem cost_noItem :
    (((none : Option WalkItem).map UploadFuture.ofItem).toList.map UploadFuture.cost).sum = 0 := rfl

theorem cost_path (file : List Str) :
    (((some (WalkItem.path file)).map UploadFuture.ofItem).toList.map UploadFuture.cost).sum =
      4 := rfl

/-- A step of the walk costs more than the future that it yields. -/
theorem walkStep_cost {tree : FileTree} {walker walker' : Walker} {ok : Bool}
    {item : Option WalkItem} (formed : walker.Formed tree)
    (moved : walkStep tree ok walker = some (walker', item)) :
    walker'.cost tree + ((item.map UploadFuture.ofItem).toList.map UploadFuture.cost).sum <
      walker.cost tree := by
  cases ok with
  | false =>
      obtain ⟨rfl, rfl⟩ := walkStep_failed moved
      change 0 + 1 < _
      cases walker with
      | ended => cases moved
      | next queue =>
          rw [Walker.cost]
          omega
      | reading dir entries queue =>
          rw [Walker.cost]
          omega
      | typing dir entries queue =>
          have positive := entriesCost_pos entries
          rw [Walker.cost]
          omega
  | true =>
      cases walker with
      | ended => cases moved
      | next queue =>
          cases queue with
          | nil =>
              cases moved
              exact Nat.two_pos
          | cons dir queue =>
              obtain ⟨entries, leads⟩ := formed dir List.mem_cons_self
              simp only [walkStep, leads, if_true] at moved
              cases moved
              rw [Walker.cost, Walker.cost, queueCost_cons leads, cost_noItem]
              omega
      | reading dir entries queue =>
          cases entries with
          | empty =>
              cases moved
              simp only [Walker.cost, entriesCost, cost_noItem]
              omega
          | file name content rest =>
              cases moved
              simp only [Walker.cost, cost_noItem]
              omega
          | dir name inside rest =>
              cases moved
              simp only [Walker.cost, cost_noItem]
              omega
      | typing dir entries queue =>
          cases entries with
          | empty => cases moved
          | file name content rest =>
              cases moved
              simp only [Walker.cost, entriesCost, cost_path]
              omega
          | dir name inside rest =>
              obtain ⟨found, -⟩ := formed.1.dir
              cases moved
              simp only [Walker.cost, entriesCost, queueCost_concat found, cost_noItem]
              omega

/-- A request brings an upload nearer to its end. -/
theorem uploadOne_cost {ok : Bool} {file : List Str} {stage stage' : UploadStage}
    (moved : uploadOne call ok file stage = some (.goes stage')) :
    (UploadFuture.upload file stage').cost < (UploadFuture.upload file stage).cost := by
  cases stage with
  | opening =>
      simp only [uploadOne] at moved
      repeat' split at moved
      all_goals cases moved
      exact Nat.lt_succ_self 3
  | creating key content =>
      cases ok with
      | false => cases moved
      | true =>
          cases moved
          exact Nat.lt_succ_self 2
  | copying key content =>
      cases ok with
      | false => cases moved
      | true =>
          cases moved
          exact Nat.lt_succ_self 1
  | closing key content => cases ok <;> cases moved

theorem UploadFuture.cost_pos (future : UploadFuture) : 0 < future.cost := by
  cases future with
  | walkError => exact Nat.one_pos
  | upload file stage => cases stage <;> exact Nat.succ_pos _

theorem step_cost (formed : s.walker.Formed call.tree) {action : UploadAction}
    (moved : TreeUpload.step call s action = some t) : t.cost call < s.cost call := by
  cases action with
  | walk ok =>
      rw [TreeUpload.step_walk] at moved
      split at moved
      · obtain ⟨⟨walker, item⟩, walked, rfl⟩ := Option.map_eq_some_iff.mp moved
        have less := walkStep_cost formed walked
        simp only [TreeUpload.cost, List.map_append, List.sum_append]
        omega
      · cases moved
  | poll i ok =>
      rw [TreeUpload.step_poll] at moved
      obtain ⟨future, here, moved⟩ := Option.bind_eq_some_iff.mp moved
      have among := ((perm_eraseIdx here).map UploadFuture.cost).sum_nat
      rw [List.map_cons, List.sum_cons] at among
      have positive := future.cost_pos
      have leaves : ∀ {t : TreeUpload}, t.walker = s.walker → t.futures = s.futures.eraseIdx i →
          t.cost call < s.cost call := by
        intro t walker futures
        rw [TreeUpload.cost, TreeUpload.cost, walker, futures]
        omega
      cases future with
      | walkError =>
          cases ok with
          | false => cases moved
          | true =>
              cases moved
              exact leaves rfl rfl
      | upload file stage =>
          simp only [TreeUpload.poll] at moved
          cases progressed : uploadOne call ok file stage with
          | none =>
              rw [progressed] at moved
              cases moved
          | some progress =>
              rw [progressed] at moved
              cases progress with
              | failed =>
                  cases moved
                  exact leaves rfl rfl
              | written key content =>
                  cases moved
                  exact leaves rfl rfl
              | goes stage' =>
                  cases moved
                  have less := uploadOne_cost progressed
                  have moves := perm_set here (.upload file stage')
                  have among' := (moves.map UploadFuture.cost).sum_nat
                  rw [List.map_cons, List.sum_cons] at among'
                  simp only [TreeUpload.cost]
                  omega

/-- Until an upload returns, some step is possible. -/
theorem step_enabled (waiting : s.returned = none) :
    ∃ action t, TreeUpload.step call s action = some t := by
  cases flight : s.futures with
  | cons future rest =>
      have here : s.futures[0]? = some future := by rw [flight, List.getElem?_cons_zero]
      cases future with
      | walkError =>
          refine ⟨.poll 0 true, { s.leave 0 with errorCount := s.errorCount + 1 }, ?_⟩
          rw [TreeUpload.step_poll, here]
          rfl
      | upload file stage =>
          refine ⟨.poll 0 false, { s.leave 0 with errorCount := s.errorCount + 1 }, ?_⟩
          rw [TreeUpload.step_poll, here, Option.bind_some]
          simp only [TreeUpload.poll, uploadOne_failed]
  | nil =>
      have room : s.room call = true := by
        simp only [TreeUpload.room, flight, List.length_nil, Bool.or_eq_true, decide_eq_true_eq]
        exact Nat.eq_zero_or_pos _
      have goes : ∃ ok walker item, walkStep call.tree ok s.walker = some (walker, item) := by
        cases place : s.walker with
        | ended =>
            unfold TreeUpload.returned at waiting
            rw [if_pos ⟨place, flight⟩] at waiting
            cases waiting
        | next queue =>
            cases queue with
            | nil => exact ⟨true, _, _, rfl⟩
            | cons dir queue => exact ⟨false, _, _, rfl⟩
        | reading dir entries queue => exact ⟨false, _, _, rfl⟩
        | typing dir entries queue => exact ⟨false, _, _, rfl⟩
      obtain ⟨ok, walker, item, walked⟩ := goes
      have moved := TreeUpload.step_walk call s ok
      rw [if_pos room, walked, Option.map_some] at moved
      exact ⟨.walk ok, _, moved⟩

/-- **An upload returns**, whatever fails and in whatever order the steps come. -/
theorem upload_returns (valid : call.Valid) :
    Inevitable (TreeUpload.step call) anything (fun s => s.returned ≠ none) .start := by
  have start : ∃ past, UploadInv call past .start := ⟨[], uploadInv_start call⟩
  refine @Inevitable.of_measure _ _ _ _ (fun s => ∃ past, UploadInv call past s) _
    (TreeUpload.cost call) ?_ ?_ _ start
  · intro s inv waiting
    obtain ⟨action, t, moved⟩ : ∃ action t, TreeUpload.step call s action = some t :=
      step_enabled (not_not.mp waiting)
    exact ⟨t, action, rfl, moved⟩
  · rintro s t ⟨past, inv⟩ - ⟨action, -, moved⟩
    exact ⟨⟨past ++ [action], inv.step valid moved⟩, step_cost inv.walker moved⟩

end Costs

end VideoStorage.Jobs
