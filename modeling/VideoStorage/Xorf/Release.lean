import VideoStorage.Xorf.Attempts

/-!
# The construction in a release build

A release build takes keys that are not distinct, and its counters wrap around where those of a
debug build stop. What a debug build returns, it returns too (`attempt_agrees`).

The construction ends with a filter or with its error, and no counter wraps around on the way, if
and only if no hash falls on a full position in any attempt that is reached
(`tryFromIterator_returns_iff`). Fewer than 64 keys are never too many
(`roomyFrom_of_few`). A key that is given 63 times, with another one that has the same
positions, wraps the counters of these positions around. The attempt is then given up without
clearing what it has placed, and the next one looks for a free slot for ever
(`copies_are_endless`).
-/

set_option autoImplicit false

namespace VideoStorage.Xorf

open RustStd

/-! ## Without the checks -/

section

variable {geometry : Geometry}

theorem addU8_agrees (a b : UInt8) : Agrees (addU8 true a b) (addU8 false a b) := by
  intro c ok
  unfold addU8 at ok
  split at ok
  · cases ok
  · rw [← ok]
    exact if_neg fun checked => Bool.false_ne_true checked.1

theorem subU8_agrees (a b : UInt8) : Agrees (subU8 true a b) (subU8 false a b) := by
  intro c ok
  unfold subU8 at ok
  split at ok
  · cases ok
  · rw [← ok]
    exact if_neg fun checked => Bool.false_ne_true checked.1

theorem Counts.update_agrees {change change' : UInt8 → Build UInt8}
    (changes : ∀ count, Agrees (change count) (change' count)) (counts : Counts) (hash : UInt64)
    (place : UInt8) (index : Nat) :
    Agrees (counts.update change hash place index) (counts.update change' hash place index) :=
  (Agrees.refl _).andThen fun count => (changes count).andThen fun _ => .refl _

theorem Counts.enter_agrees (counts : Counts) (hash : UInt64) (place : UInt8) (index : Nat) :
    Agrees (counts.enter true hash place index) (counts.enter false hash place index) :=
  counts.update_agrees (fun count => addU8_agrees count 4) hash place index

theorem Counts.leave_agrees (counts : Counts) (hash : UInt64) (place : UInt8) (index : Nat) :
    Agrees (counts.leave true hash place index) (counts.leave false hash place index) :=
  counts.update_agrees (fun count => subU8_agrees count 4) hash place index

theorem countHash_agrees (hash : UInt64) (counting : Counting) :
    Agrees (countHash true geometry hash counting) (countHash false geometry hash counting) := by
  rw [countHash_eq, countHash_eq]
  refine (counting.counts.enter_agrees _ _ _).andThen fun first => ?_
  refine (first.enter_agrees _ _ _).andThen fun second => ?_
  refine (second.enter_agrees _ _ _).andThen fun third => (Agrees.refl _).andThen fun found => ?_
  cases found with
  | true =>
      refine (third.leave_agrees _ _ _).andThen fun fourth => ?_
      refine (fourth.leave_agrees _ _ _).andThen fun fifth => ?_
      exact (fifth.leave_agrees _ _ _).andThen fun _ => .refl _
  | false => exact .refl _

theorem countHashes_agrees (hashes : List UInt64) (counting : Counting) :
    Agrees (countHashes true geometry hashes counting)
      (countHashes false geometry hashes counting) := by
  induction hashes generalizing counting with
  | nil => exact .refl _
  | cons hash hashes ih => exact (countHash_agrees hash counting).andThen ih

theorem leaveOther_agrees (hash : UInt64) (place : UInt8) (index : Nat) (peeling : Peeling) :
    Agrees (leaveOther true hash place index peeling)
      (leaveOther false hash place index peeling) :=
  (Agrees.refl _).andThen fun _ => (Agrees.refl _).andThen fun _ =>
    (peeling.counts.leave_agrees hash place index).andThen fun _ => .refl _

theorem peelNext_agrees (peeling : Peeling) :
    Agrees (peelNext true geometry peeling) (peelNext false geometry peeling) := by
  refine (Agrees.refl _).andThen fun index => (Agrees.refl _).andThen fun count => ?_
  split
  · refine (Agrees.refl _).andThen fun hash => (Agrees.refl _).andThen fun reverseH => ?_
    refine (Agrees.refl _).andThen fun reverseOrder => (Agrees.refl _).andThen fun other1 => ?_
    refine (Agrees.refl _).andThen fun other2 => ?_
    exact (leaveOther_agrees _ _ _ _).andThen fun _ => leaveOther_agrees _ _ _ _
  · exact .refl _

theorem peel_agrees (steps : Nat) (peeling : Peeling) :
    Agrees (peel true geometry steps peeling) (peel false geometry steps peeling) := by
  induction steps generalizing peeling with
  | zero => exact .refl _
  | succ steps ih =>
      unfold peel
      split
      · exact .refl _
      · exact (peelNext_agrees peeling).andThen ih

/-- **What an attempt of a debug build returns**, that of a release build returns too. -/
theorem attempt_agrees (keys : List UInt64) (search : Search) :
    Agrees (attempt true geometry keys search) (attempt false geometry keys search) := by
  refine (Agrees.refl _).andThen fun placed => ?_
  refine (countHashes_agrees _ _).andThen fun counting => ?_
  dsimp only
  split
  · exact .refl _
  · exact (Agrees.refl _).andThen fun queued => (peel_agrees _ _).andThen fun _ => .refl _

end

/-! ## Attempt after attempt -/

/-- The computation ends, with a value or with an error of its own. -/
def Ends {α : Type} (m : Build α) : Prop := Returns m ∨ ∃ text, m = fail (.failed text)

section

variable (geometry : Geometry) (keys : List UInt64)

/-- In no attempt that is reached does a hash fall on a full position. -/
def RoomyFrom : Nat → Search → Prop
  | 0, _ => True
  | more + 1, search => Roomy geometry keys search ∧
      ∀ next, attempt false geometry keys search = .ok (next, none) → RoomyFrom more next

end

section

variable {geometry : Geometry} {keys : List UInt64} {search : Search} {more : Nat}

/-- **The attempts end** where none is too crowded, with and without the checks alike. -/
theorem Ready.attempts_of_roomy (ready : Ready geometry keys.length search)
    (spread : geometry.Spread) (roomy : RoomyFrom geometry keys more search) :
    attempts false geometry keys more search = attempts true geometry keys more search ∧
      ((∃ next ultimateSize, attempts true geometry keys more search = .ok (next, ultimateSize) ∧
          AttemptDone geometry keys.length (next, some ultimateSize)) ∨
        ∃ text, attempts true geometry keys more search = fail (.failed text)) := by
  induction more generalizing search with
  | zero => exact ⟨rfl, .inr ⟨_, rfl⟩⟩
  | succ more ih =>
      obtain ⟨⟨next, done⟩, ok, after⟩ := ready.attempt_returns spread roomy.1
      have released := attempt_agrees keys search _ ok
      unfold attempts
      rw [ok, released, bind_ok, bind_ok]
      cases done with
      | none => exact ih after (roomy.2 next released)
      | some ultimateSize => exact ⟨rfl, .inl ⟨next, ultimateSize, rfl, after⟩⟩

/-- Attempts that end without an overflow were not too crowded. -/
theorem Ready.roomy_of_attempts (ready : Ready geometry keys.length search)
    (spread : geometry.Spread) (ends : Ends (attempts true geometry keys more search)) :
    RoomyFrom geometry keys more search := by
  induction more generalizing search with
  | zero => trivial
  | succ more ih =>
      unfold attempts at ends
      by_cases roomy : Roomy geometry keys search
      · refine ⟨roomy, fun next released => ?_⟩
        obtain ⟨result, ok, after⟩ := ready.attempt_returns spread roomy
        cases (attempt_agrees keys search _ ok).symm.trans released
        rw [ok, bind_ok] at ends
        exact ih after ends
      · rw [ready.attempt_panics spread roomy] at ends
        rcases ends with ⟨value, ok⟩ | ⟨text, failed⟩
        · cases ok
        · cases failed

/-! ## Hashes that are not too many -/

theorem sharing_keep_le (kept : List UInt64) (hash : UInt64) (index : Nat) :
    (sharing geometry (keep geometry kept hash) index).length ≤
      (sharing geometry kept index).length + (sharing geometry [hash] index).length := by
  have added : sharing geometry (hash :: kept) index =
      sharing geometry [hash] index ++ sharing geometry kept index := by
    rw [sharing, sharing, sharing, ← List.filter_append, List.singleton_append]
  unfold keep
  split
  · exact Nat.le_add_right _ _
  · rw [added, List.length_append, Nat.add_comm]

/-- No position is full where at most 63 hashes have it. -/
theorem uncrowded_of_few {kept hashes : List UInt64} (spread : geometry.Spread)
    (few : ∀ index, (sharing geometry kept index).length +
      (sharing geometry hashes index).length ≤ 63) : Uncrowded geometry kept hashes := by
  induction hashes generalizing kept with
  | nil => trivial
  | cons hash hashes ih =>
      have split : ∀ index, (sharing geometry (hash :: hashes) index).length =
          (sharing geometry [hash] index).length + (sharing geometry hashes index).length := by
        intro index
        rw [sharing, sharing, sharing, ← List.length_append, ← List.filter_append,
          List.singleton_append]
      have here : ∀ index place, geometry.placeAt hash index = some place →
          (sharing geometry kept index).length < 63 := by
        intro index place found
        have one : (sharing geometry [hash] index).length = 1 := by
          rw [sharing, List.filter_cons_of_pos (by rw [found]; rfl)]
          rfl
        have bound := few index
        rw [split, one] at bound
        omega
      obtain ⟨at0, at1, at2⟩ := spread.placeAt hash
      refine ⟨⟨here _ _ at0, here _ _ at1, here _ _ at2⟩, ih fun index => ?_⟩
      have bound := few index
      have more : (sharing geometry (keep geometry kept hash) index).length ≤ _ :=
        sharing_keep_le kept hash index
      rw [split] at bound
      omega

/-- **Fewer than 64 keys** are not too many for any position. -/
theorem roomyFrom_of_few (spread : geometry.Spread) (few : keys.length < 64) :
    RoomyFrom geometry keys more search := by
  induction more generalizing search with
  | zero => trivial
  | succ more ih =>
      refine ⟨fun placed _ => uncrowded_of_few spread fun index => ?_, fun next _ => ih⟩
      have part : (sharing geometry (placed.take keys.length) index).length ≤ keys.length :=
        (List.length_filter_le _ _).trans (List.length_take_le _ _)
      change 0 + _ ≤ 63
      omega

end

/-! ## The whole construction -/

section

variable {geometry : Geometry}

/-- The ring of a hash holds positions of the array, apart from its last place. -/
theorem h012_within (spread : geometry.Spread) (hash : UInt64) {i : Nat} (few : i < 5) :
    ∃ position, (geometry.h012 hash)[i]? = some position ∧ position < geometry.arrayLen.toNat := by
  obtain ⟨in0, in1, in2⟩ := spread.within hash
  match i, few with
  | 0, _ => exact ⟨_, rfl, in0⟩
  | 1, _ => exact ⟨_, rfl, in1⟩
  | 2, _ => exact ⟨_, rfl, in2⟩
  | 3, _ => exact ⟨_, rfl, in0⟩
  | 4, _ => exact ⟨_, rfl, in1⟩

/-- Setting the fingerprints after the last attempt. -/
theorem assignFingerprints_returns {search : Search} {i : Nat} {fingerprints : List UInt16}
    (spread : geometry.Spread) (few : i ≤ search.reverseOrder.length)
    (places : ∀ j < i, ∃ place, search.reverseH[j]? = some place ∧ place < 3)
    (length : fingerprints.length = geometry.arrayLen.toNat) :
    Returns (assignFingerprints geometry search i fingerprints) := by
  induction i generalizing fingerprints with
  | zero => exact .pure _
  | succ i ih =>
      obtain ⟨place, isPlace, small⟩ := places i (Nat.lt_succ_self i)
      have low : place.toNat < 3 := UInt8.lt_iff_toNat_lt.mp small
      unfold assignFingerprints
      refine (item_returns few).andThen fun hash _ => ?_
      obtain ⟨index, isIndex, within⟩ := h012_within spread hash (show place.toNat < 5 by omega)
      obtain ⟨next, isNext, inside1⟩ := h012_within spread hash (show place.toNat + 1 < 5 by omega)
      obtain ⟨last, isLast, inside2⟩ := h012_within spread hash (show place.toNat + 2 < 5 by omega)
      rw [item_of_some isPlace, bind_ok, item_of_some isIndex, bind_ok, item_of_some isNext,
        bind_ok, item_of_some isLast, bind_ok]
      rw [← length] at within inside1 inside2
      refine (item_returns inside1).andThen fun f1 _ => ?_
      refine (item_returns inside2).andThen fun f2 _ => ?_
      rw [setItem_of_lt within, bind_ok]
      refine ih (Nat.le_of_succ_le few) (fun j less => places j (Nat.lt_succ_of_lt less)) ?_
      rw [List.length_set, length]

/-- The sizes are computed without a check. -/
theorem compute_returns (sizing : Sizing) (size : Nat) :
    Returns (Geometry.compute false sizing size) := by
  have product : ∀ a b, mulU32 false a b = .ok (a * b) := fun a b =>
    if_neg fun checked => Bool.false_ne_true checked.1
  unfold Geometry.compute
  dsimp only
  rw [product, bind_ok, product, bind_ok, product, bind_ok]
  exact .pure _

end

namespace BinaryFuse16

/-- `BinaryFuse16::try_from_iterator` of some keys, once the sizes are known. -/
def construct (debug : Bool) (geometry : Geometry) (random : Nat → UInt16)
    (keys : List UInt64) : Build BinaryFuse16 := do
  let fingerprints := (List.range geometry.arrayLen.toNat).map random
  let (search, ultimateSize) ← attempts debug geometry keys maxIter
    (.start keys.length geometry.arrayLen.toNat)
  let fingerprints ← assignFingerprints geometry search ultimateSize fingerprints
  pure ⟨⟨search.seed, geometry.segmentLength, geometry.segmentLengthMask,
    geometry.segmentCountLength⟩, fingerprints⟩

variable {sizing : Sizing} {random : Nat → UInt16} {keys : List UInt64} {geometry : Geometry}

theorem tryFromIterator_release (nonempty : keys ≠ []) :
    tryFromIterator false sizing random keys =
      (Geometry.compute false sizing keys.length >>= fun geometry =>
        construct false geometry random keys) := by
  unfold tryFromIterator
  rw [if_neg (mt List.length_eq_zero_iff.mp nonempty),
    if_neg fun checked => Bool.false_ne_true checked.1]
  rfl

/-- The construction in a release build ends, and in a build that checks for overflow it would
do the same. -/
structure ReturnsSafely (sizing : Sizing) (random : Nat → UInt16) (keys : List UInt64) : Prop where
  ends : Ends (tryFromIterator false sizing random keys)
  unharmed : keys ≠ [] → ∀ geometry, Geometry.compute false sizing keys.length = .ok geometry →
    construct false geometry random keys = construct true geometry random keys

/-- In no attempt that is reached does a hash fall on a full position. -/
def NeverCrowded (sizing : Sizing) (keys : List UInt64) : Prop :=
  ∀ geometry, Geometry.compute false sizing keys.length = .ok geometry →
    RoomyFrom geometry keys maxIter (.start keys.length geometry.arrayLen.toNat)

theorem ready_start (geometry : Geometry) (size : Nat) :
    Ready geometry size (.start size geometry.arrayLen.toNat) where
  toFresh := fresh_of_cleared (show (1 : UInt64) ≠ 0 by decide) rfl rfl
  alone := List.length_replicate
  reverseH := List.length_replicate

/-- The construction ends where no attempt is too crowded. -/
theorem construct_of_roomy (random : Nat → UInt16) (spread : geometry.Spread)
    (roomy : RoomyFrom geometry keys maxIter (.start keys.length geometry.arrayLen.toNat)) :
    construct false geometry random keys = construct true geometry random keys ∧
      Ends (construct false geometry random keys) := by
  obtain ⟨same, ends⟩ := (ready_start geometry keys.length).attempts_of_roomy spread roomy
  unfold construct
  rw [same]
  refine ⟨rfl, ?_⟩
  rcases ends with ⟨next, ultimateSize, ok, few, places⟩ | ⟨text, failed⟩
  · refine .inl ?_
    rw [ok, bind_ok]
    refine (assignFingerprints_returns spread few places ?_).andThen fun _ _ => .pure _
    rw [List.length_map, List.length_range]
  · rw [failed]
    exact .inr ⟨text, rfl⟩

/-- The checked construction ends where its attempts do. -/
theorem attempts_of_construct {debug : Bool}
    (ends : Ends (construct debug geometry random keys)) :
    Ends (attempts debug geometry keys maxIter
      (.start keys.length geometry.arrayLen.toNat)) := by
  unfold construct at ends
  dsimp only at ends
  cases tried : attempts debug geometry keys maxIter
    (.start keys.length geometry.arrayLen.toNat) with
  | ok result => exact .inl (.pure result)
  | error stop =>
      rw [tried] at ends
      rcases ends with ⟨filter, ok⟩ | ⟨text, failed⟩
      · cases ok
      · exact .inr ⟨text, congrArg Except.error (Except.error.inj failed)⟩

/-- **The construction of a filter ends**, whatever the keys are and without an overflow, if and
only if no hash falls on a full position in any attempt that is reached. -/
theorem tryFromIterator_returns_iff (sizing : Sizing) (random : Nat → UInt16)
    (keys : List UInt64) : ReturnsSafely sizing random keys ↔ NeverCrowded sizing keys := by
  by_cases nonempty : keys = []
  · subst nonempty
    refine iff_of_true ⟨.inl ⟨empty, rfl⟩, fun some' => absurd rfl some'⟩ ?_
    intro geometry computed
    exact roomyFrom_of_few (Geometry.spread_of_compute computed) (by decide)
  · constructor
    · intro safely geometry computed
      have ends := safely.ends
      rw [tryFromIterator_release nonempty, computed, bind_ok,
        safely.unharmed nonempty geometry computed] at ends
      exact (ready_start geometry keys.length).roomy_of_attempts
        (Geometry.spread_of_compute computed) (attempts_of_construct ends)
    · intro roomy
      refine ⟨?_, fun _ geometry computed => ?_⟩
      · obtain ⟨geometry, computed⟩ := compute_returns sizing keys.length
        rw [tryFromIterator_release nonempty, computed, bind_ok]
        exact (construct_of_roomy random (Geometry.spread_of_compute computed)
          (roomy geometry computed)).2
      · exact (construct_of_roomy random (Geometry.spread_of_compute computed)
          (roomy geometry computed)).1

/-- Whether the construction never ends. -/
def isEndless {α : Type} : Build α → Bool
  | .error (.err .endless) => true
  | _ => false

/-- A key, and 63 times another one that has the same three positions. -/
def copiedKeys : List UInt64 := 405 :: List.replicate 63 466

/-- With these keys the construction never ends. -/
theorem copies_are_endless :
    tryFromIterator false ⟨5, 109⟩ (fun _ => 0) copiedKeys = fail .endless ∧
      ¬ ReturnsSafely ⟨5, 109⟩ (fun _ => 0) copiedKeys := by
  have endless : ∀ m : Build BinaryFuse16, isEndless m = true → m = fail .endless := by
    intro m found
    unfold isEndless at found
    split at found
    · rfl
    · cases found
  have here : tryFromIterator false ⟨5, 109⟩ (fun _ => 0) copiedKeys = fail .endless :=
    endless _ (by decide +kernel)
  refine ⟨here, fun safely => ?_⟩
  rcases safely.ends with ⟨filter, ok⟩ | ⟨text, failed⟩
  · cases here.symm.trans ok
  · cases here.symm.trans failed

end BinaryFuse16

end VideoStorage.Xorf
