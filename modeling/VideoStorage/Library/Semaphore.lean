import VideoStorage.Library.Concurrent

/-!
# A semaphore, from the side of its users

A semaphore is made with a number of permits. A claim asks it for some of them, is given them
when the semaphore grants this, and gives them back. What users rely on is said of the claims
that have been made (`Used`): no more permits are held than there are (`Limits`), and where
nobody holds any, somebody who waits can be given his, if no claim is for more than there are
(`Serves`).

The semaphore that serves the claims in their order has both (`limits_fifo`, `serves_fifo`).
-/

set_option autoImplicit false

open Concurrent

/-- The operations of a semaphore. Claims have numbers. -/
structure Semaphore (State : Type) where
  new : Nat → State
  /-- A claim asks for permits. -/
  ask : State → (claim permits : Nat) → State
  /-- A claim that has asked is given its permits, when that is possible now. -/
  grant : State → (claim : Nat) → Option State
  /-- Permits are given back. -/
  release : State → (permits : Nat) → State

namespace Semaphore

inductive ClaimPhase where
  | waiting
  | held
  | returned
  deriving DecidableEq

structure PermitClaim where
  permits : Nat
  phase : ClaimPhase
  deriving DecidableEq

/-- The permits that a claim holds. -/
def PermitClaim.holds (claim : PermitClaim) : Nat :=
  if claim.phase = .held then claim.permits else 0

variable {State : Type}

/-- The state of a semaphore of a size after claims that have been made on it. The claims have
their places in the list as numbers. -/
inductive Used (semaphore : Semaphore State) (size : Nat) : State → List PermitClaim → Prop where
  | new : Used semaphore size (semaphore.new size) []
  /-- A number is not used for a claim. -/
  | skip {state : State} {claims : List PermitClaim} (used : Used semaphore size state claims) :
      Used semaphore size state (claims ++ [⟨0, .returned⟩])
  | ask {state : State} {claims : List PermitClaim} (used : Used semaphore size state claims)
      (permits : Nat) :
      Used semaphore size (semaphore.ask state claims.length permits)
        (claims ++ [⟨permits, .waiting⟩])
  | grant {state next : State} {claims : List PermitClaim} {i permits : Nat}
      (used : Used semaphore size state claims) (waits : claims[i]? = some ⟨permits, .waiting⟩)
      (granted : semaphore.grant state i = some next) :
      Used semaphore size next (claims.set i ⟨permits, .held⟩)
  | release {state : State} {claims : List PermitClaim} {i permits : Nat}
      (used : Used semaphore size state claims) (holds : claims[i]? = some ⟨permits, .held⟩) :
      Used semaphore size (semaphore.release state permits) (claims.set i ⟨permits, .returned⟩)

/-- No more permits are held at one time than the semaphore was made with. -/
def Limits (semaphore : Semaphore State) : Prop :=
  ∀ {size : Nat} {state : State} {claims : List PermitClaim},
    semaphore.Used size state claims → total PermitClaim.holds claims ≤ size

/-- While nobody holds permits a claim that waits is granted, if no claim is for more permits
than the semaphore was made with. -/
def Serves (semaphore : Semaphore State) : Prop :=
  ∀ {size : Nat} {state : State} {claims : List PermitClaim},
    semaphore.Used size state claims →
    (∀ claim ∈ claims, claim.phase ≠ .held ∧ claim.permits ≤ size) →
    (∃ claim ∈ claims, claim.phase = .waiting) →
    ∃ i permits next, claims[i]? = some ⟨permits, .waiting⟩ ∧ semaphore.grant state i = some next

/-! ## The semaphore that serves in order -/

/-- The permits that are free, and the claims that wait. -/
structure Fifo where
  free : Nat
  queue : List (Nat × Nat)

/-- The claims are granted in the order in which they ask. -/
def fifo : Semaphore Fifo where
  new size := ⟨size, []⟩
  ask state claim permits := { state with queue := state.queue ++ [(claim, permits)] }
  grant state claim :=
    match state.queue with
    | (first, permits) :: rest =>
        if first = claim ∧ permits ≤ state.free then some ⟨state.free - permits, rest⟩ else none
    | [] => none
  release state permits := { state with free := state.free + permits }

/-- The permits are free or held, and those who wait are in the queue once. -/
structure Fifo.Kept (size : Nat) (state : Fifo) (claims : List PermitClaim) : Prop where
  balance : state.free + total PermitClaim.holds claims = size
  queued : ∀ i permits, (i, permits) ∈ state.queue ↔ claims[i]? = some ⟨permits, .waiting⟩
  once : (state.queue.map Prod.fst).Nodup

theorem getElem?_concat_eq_some {claims : List PermitClaim} {new : PermitClaim} {i permits : Nat} :
    (claims ++ [new])[i]? = some ⟨permits, .waiting⟩ ↔
      claims[i]? = some ⟨permits, .waiting⟩ ∨ i = claims.length ∧ new = ⟨permits, .waiting⟩ := by
  rcases Nat.lt_trichotomy i claims.length with less | rfl | more
  · rw [List.getElem?_append_left less]
    simp [Nat.ne_of_lt less]
  · rw [List.getElem?_concat_length]
    simp
  · rw [List.getElem?_eq_none (by rw [List.length_append]; exact more),
      List.getElem?_eq_none (Nat.le_of_lt more)]
    simp [Nat.ne_of_gt more]

theorem getElem?_set_eq_some {claims : List PermitClaim} {changed : PermitClaim} {i k permits : Nat}
    (other : changed.phase ≠ .waiting) :
    (claims.set i changed)[k]? = some ⟨permits, .waiting⟩ ↔
      k ≠ i ∧ claims[k]? = some ⟨permits, .waiting⟩ := by
  by_cases same : i = k
  · subst same
    rw [List.getElem?_set_self']
    cases claims[i]? with
    | none => simp
    | some claim =>
        refine iff_of_false (fun here => other ?_) fun away => away.1 rfl
        exact congrArg PermitClaim.phase (Option.some.inj here)
  · rw [List.getElem?_set_ne same]
    exact (and_iff_right (Ne.symm same)).symm

theorem kept_fifo {size : Nat} {state : Fifo} {claims : List PermitClaim}
    (used : fifo.Used size state claims) : Fifo.Kept size state claims := by
  induction used with
  | new => exact ⟨rfl, fun _ _ => by simp [fifo], List.nodup_nil⟩
  | @skip state claims _ kept =>
      refine ⟨?_, fun i permits => ?_, kept.once⟩
      · have same := total_spawn PermitClaim.holds claims ⟨0, .returned⟩
        rw [same]
        exact kept.balance
      · rw [getElem?_concat_eq_some, kept.queued]
        simp
  | @ask state claims _ permits kept =>
      refine ⟨?_, fun i other => ?_, ?_⟩
      · have same := total_spawn PermitClaim.holds claims ⟨permits, .waiting⟩
        rw [same]
        exact kept.balance
      · change (i, other) ∈ state.queue ++ [(claims.length, permits)] ↔ _
        rw [getElem?_concat_eq_some, List.mem_append, kept.queued, List.mem_singleton]
        simp [eq_comm]
      · change ((state.queue ++ [(claims.length, permits)]).map Prod.fst).Nodup
        rw [List.map_append, List.nodup_append]
        refine ⟨kept.once, List.pairwise_singleton _ _, fun first listed last new same => ?_⟩
        obtain ⟨⟨claim, asked⟩, member, rfl⟩ := List.mem_map.mp listed
        have there := (kept.queued claim asked).mp member
        have less := (List.getElem?_eq_some_iff.mp there).1
        rw [List.mem_singleton.mp new] at same
        exact Nat.ne_of_lt less same
  | @grant state next claims i permits _ waits granted kept =>
      obtain ⟨free, queue⟩ := state
      cases queue with
      | nil => cases granted
      | cons first rest =>
          obtain ⟨first, asked⟩ := first
          simp only [fifo] at granted
          split at granted
          · rename_i enough
            obtain ⟨rfl, enough⟩ := enough
            cases granted
            have mine := (kept.queued first asked).mp List.mem_cons_self
            obtain rfl : asked = permits := by
              rw [waits, Option.some.injEq, PermitClaim.mk.injEq] at mine
              exact mine.1.symm
            have once := List.nodup_cons.mp kept.once
            refine ⟨?_, fun k other => ?_, once.2⟩
            · have sum := @total_set_add _ PermitClaim.holds _ _ _ waits ⟨asked, .held⟩
              have balance := kept.balance
              simp only [PermitClaim.holds, if_true, reduceCtorEq, if_false] at sum
              dsimp only at balance ⊢
              omega
            · change (k, other) ∈ rest ↔ _
              rw [getElem?_set_eq_some (by simp), ← kept.queued, List.mem_cons, Prod.mk.injEq]
              constructor
              · intro member
                refine ⟨?_, .inr member⟩
                rintro rfl
                exact once.1 (List.mem_map.mpr ⟨_, member, rfl⟩)
              · rintro ⟨differ, here | member⟩
                · exact absurd here.1 differ
                · exact member
          · cases granted
  | @release state claims i permits _ holds kept =>
      refine ⟨?_, fun k other => ?_, kept.once⟩
      · have sum := @total_set_add _ PermitClaim.holds _ _ _ holds ⟨permits, .returned⟩
        have balance := kept.balance
        simp only [PermitClaim.holds, if_true, reduceCtorEq, if_false] at sum
        change state.free + permits + _ = size
        omega
      · rw [getElem?_set_eq_some (by simp)]
        refine (kept.queued k other).trans (iff_and_self.mpr ?_)
        rintro there rfl
        cases holds.symm.trans there

theorem limits_fifo : fifo.Limits := fun used =>
  (kept_fifo used).balance ▸ Nat.le_add_left _ _

/-- The first of the queue is granted, when nobody holds permits. -/
theorem serves_fifo : fifo.Serves := by
  intro size state claims used idle waits
  have kept := kept_fifo used
  obtain ⟨⟨permits, phase⟩, member, rfl⟩ := waits
  obtain ⟨i, there⟩ := List.mem_iff_getElem?.mp member
  obtain ⟨free, queue⟩ := state
  cases queue with
  | nil => exact absurd ((kept.queued i permits).mpr there) List.not_mem_nil
  | cons first rest =>
      obtain ⟨first, asked⟩ := first
      have mine := (kept.queued first asked).mp List.mem_cons_self
      have none : total PermitClaim.holds claims = 0 :=
        total_eq_zero fun claim inside => if_neg (idle claim inside).1
      have balance := kept.balance
      have small := (idle _ (List.mem_of_getElem? mine)).2
      have enough : asked ≤ free := by
        dsimp only at balance small
        omega
      exact ⟨first, asked, _, mine, if_pos ⟨rfl, enough⟩⟩

end Semaphore
