import VideoStorage.Library.Intervals
import VideoStorage.Xorf.Peeling

/-!
# The probing loop finds a free slot

Every segment has a pointer that starts at its first slot and moves on by one when a hash is
placed there. A slot that is taken lies in one of the intervals that the pointers have passed,
and these are as long in total as hashes have been placed. So while fewer hashes have been
placed than there are slots, the pointer of some segment is at a free slot, and the probing loop,
which goes round all segments, comes to it (`Placing.probe_returns`).

An attempt that begins with free slots places all hashes, whatever the keys are
(`placeHashes_returns`).
-/

set_option autoImplicit false

namespace VideoStorage.Xorf

open RustStd

/-! ## Reading and writing within bounds -/

section

variable {ε α : Type} {array : List α} {i : Nat} {value : α}

theorem item_of_some (found : array[i]? = some value) : item (ε := ε) array i = .ok value := by
  rw [item, found]

theorem item_returns (within : i < array.length) : Returns (item (ε := ε) array i) :=
  ⟨array[i], item_of_some (List.getElem?_eq_getElem within)⟩

theorem setItem_of_lt (within : i < array.length) :
    setItem (ε := ε) array i value = .ok (array.set i value) := if_pos within

end

/-! ## The probing loop -/

/-- The next segment, the last one followed by the first. -/
theorem and_mask (x bits : Nat) : x &&& (1 <<< bits) - 1 = x % (1 <<< bits) := by
  rw [Nat.one_shiftLeft, Nat.and_two_pow_sub_one_eq_mod]

/-- The probing loop ends where the pointer of a segment within its rounds is at a free slot. -/
theorem probe_returns_of_free {reverseOrder : List UInt64} {startPos : List Nat}
    {bits round first ahead : Nat}
    (reads : ∀ i < 1 <<< bits, ∃ position occupant, startPos[i]? = some position ∧
      reverseOrder[position]? = some occupant)
    (within : first < 1 <<< bits) (near : ahead < round)
    (free : ∃ position, startPos[(first + ahead) % (1 <<< bits)]? = some position ∧
      reverseOrder[position]? = some 0) :
    Returns (probe reverseOrder startPos ((1 <<< bits) - 1) round first) := by
  induction round generalizing first ahead with
  | zero => exact absurd near (Nat.not_lt_zero _)
  | succ round ih =>
      obtain ⟨position, occupant, isPosition, isOccupant⟩ := reads first within
      unfold probe
      rw [item_of_some isPosition, bind_ok, item_of_some isOccupant, bind_ok]
      split
      · exact .pure _
      · rename_i taken
        cases ahead with
        | zero =>
            obtain ⟨here, isHere, isZero⟩ := free
            rw [Nat.add_zero, Nat.mod_eq_of_lt within] at isHere
            cases isPosition.symm.trans isHere
            exact absurd (Option.some.inj (isOccupant.symm.trans isZero)) taken
        | succ ahead =>
            rw [and_mask]
            refine ih (Nat.mod_lt _ (Nat.zero_lt_of_lt within)) (Nat.lt_of_succ_lt_succ near) ?_
            rwa [Nat.mod_add_mod, Nat.add_assoc, Nat.add_comm 1 ahead]

/-! ## The pointers of the segments -/

/-- The first slot of a segment. -/
def firstSlot (bits size : Nat) (segment : Fin (1 <<< bits)) : Nat :=
  (segment.val * size) >>> bits

/-- The pointer of a segment. -/
def pointer {bits : Nat} (startPos : List Nat) (segment : Fin (1 <<< bits)) : Nat :=
  startPos[segment.val]?.getD 0

/-- Some hashes have been placed. -/
structure Placing (bits size placed : Nat) (startPos : List Nat) (reverseOrder : List UInt64) :
    Prop where
  segments : startPos.length = 1 <<< bits
  ordered : ∀ i, firstSlot bits size i ≤ pointer startPos i
  inside : ∀ i : Fin (1 <<< bits), pointer startPos i ≤ size
  passed : ∀ slot < size, ∀ hash, reverseOrder[slot]? = some hash → hash ≠ 0 →
    Intervals.Covered (firstSlot bits size) (pointer startPos) slot
  total : Intervals.total (firstSlot bits size) (pointer startPos) = placed
  guarded : Guarded size reverseOrder

theorem Guarded.length {size : Nat} {reverseOrder : List UInt64}
    (guarded : Guarded size reverseOrder) : reverseOrder.length = size + 1 := by
  obtain ⟨guard, -, last⟩ := guarded
  have length := congrArg List.length last
  rw [List.length_drop, List.length_singleton] at length
  omega

section

variable {bits size placed : Nat} {startPos : List Nat} {reverseOrder : List UInt64}

theorem firstSlot_zero : ∃ i, firstSlot bits size i = 0 :=
  ⟨⟨0, Nat.shiftLeft_pos_iff.mpr Nat.one_pos⟩, by
    rw [firstSlot, Nat.zero_mul, Nat.zero_shiftRight]⟩

theorem firstSlot_le (i : Fin (1 <<< bits)) : firstSlot bits size i ≤ size := by
  have less : i.val < 2 ^ bits := i.isLt.trans_eq (Nat.one_shiftLeft bits)
  rw [firstSlot, Nat.shiftRight_eq_div_pow]
  exact Nat.div_le_of_le_mul (Nat.mul_le_mul_right size (Nat.le_of_lt less))

theorem Placing.getElem? (placing : Placing bits size placed startPos reverseOrder)
    (i : Fin (1 <<< bits)) : startPos[i.val]? = some (pointer startPos i) := by
  have within : i.val < startPos.length := placing.segments.symm ▸ i.isLt
  rw [pointer, List.getElem?_eq_getElem within, Option.getD_some]

/-- While fewer hashes have been placed than there are slots, a pointer is at a free slot. -/
theorem Placing.exists_free (placing : Placing bits size placed startPos reverseOrder)
    (room : placed < size) :
    ∃ i : Fin (1 <<< bits), reverseOrder[pointer startPos i]? = some 0 := by
  obtain ⟨i, below, free⟩ := Intervals.exists_free_end firstSlot_zero
    (placing.total.symm ▸ room : Intervals.total (firstSlot bits size) (pointer startPos) < size)
  have within : pointer startPos i < reverseOrder.length := by
    rw [placing.guarded.length]
    exact Nat.lt_succ_of_lt below
  refine ⟨i, ?_⟩
  rw [List.getElem?_eq_getElem within]
  by_contra taken
  exact free (placing.passed _ below _ (List.getElem?_eq_getElem within)
    fun zero => taken (congrArg some zero))

/-- **The probing loop finds a free slot.** -/
theorem Placing.probe_returns (placing : Placing bits size placed startPos reverseOrder)
    (room : placed < size) {first : Nat} (within : first < 1 <<< bits) :
    Returns (probe reverseOrder startPos ((1 <<< bits) - 1) (1 <<< bits) first) := by
  obtain ⟨i, free⟩ := placing.exists_free room
  have reads : ∀ j < 1 <<< bits, ∃ position occupant, startPos[j]? = some position ∧
      reverseOrder[position]? = some occupant := by
    intro j less
    have short : pointer startPos ⟨j, less⟩ < reverseOrder.length := by
      rw [placing.guarded.length]
      exact Nat.lt_succ_of_le (placing.inside _)
    exact ⟨_, _, placing.getElem? ⟨j, less⟩, List.getElem?_eq_getElem short⟩
  have less := i.isLt
  have around : (first + (i.val + (1 <<< bits) - first) % (1 <<< bits)) % (1 <<< bits) = i.val := by
    rw [Nat.add_mod_mod, Nat.add_sub_cancel' (by omega), Nat.add_mod_right, Nat.mod_eq_of_lt less]
  refine probe_returns_of_free reads within
    (Nat.mod_lt (i.val + (1 <<< bits) - first) (Nat.zero_lt_of_lt within)) ?_
  rw [around]
  exact ⟨_, placing.getElem? i, free⟩

/-- The pointer of a segment moves on. -/
theorem pointer_set {i : Fin (1 <<< bits)} (within : i.val < startPos.length) (position : Nat) :
    (pointer (startPos.set i.val position) : Fin (1 <<< bits) → Nat) =
      Function.update (pointer startPos) i position := by
  funext j
  unfold pointer
  by_cases same : j = i
  · subst same
    rw [Function.update_self, List.getElem?_set_self within, Option.getD_some]
  · rw [Function.update_of_ne same, List.getElem?_set_ne fun here => same (Fin.ext here.symm)]

/-- **One more hash is placed** at the pointer of a segment, which moves on. -/
theorem Placing.step (placing : Placing bits size placed startPos reverseOrder)
    {i : Fin (1 <<< bits)} (free : reverseOrder[pointer startPos i]? = some 0) (hash : UInt64) :
    Placing bits size (placed + 1) (startPos.set i.val (pointer startPos i + 1))
      (reverseOrder.set (pointer startPos i) hash) := by
  have within : i.val < startPos.length := placing.segments.symm ▸ i.isLt
  have below := placing.guarded.lt free
  have moved := pointer_set within (pointer startPos i + 1)
  refine ⟨?_, ?_, ?_, ?_, ?_, placing.guarded.set below hash⟩
  · rw [List.length_set, placing.segments]
  · rw [moved]
    intro j
    by_cases same : j = i
    · subst same
      rw [Function.update_self]
      exact Nat.le_succ_of_le (placing.ordered j)
    · rw [Function.update_of_ne same]
      exact placing.ordered j
  · rw [moved]
    intro j
    by_cases same : j = i
    · subst same
      rw [Function.update_self]
      exact below
    · rw [Function.update_of_ne same]
      exact placing.inside j
  · rw [moved]
    intro slot less other found nonzero
    refine Intervals.Covered.update (placing.ordered i) ?_
    by_cases here : slot = pointer startPos i
    · exact .inl here
    · rw [List.getElem?_set_ne (Ne.symm here)] at found
      exact .inr (placing.passed slot less other found nonzero)
  · rw [moved, Intervals.total_update (placing.ordered i), placing.total]

/-! ## All hashes are placed -/

/-- The first segment that is tried. -/
theorem shiftRight_lt (hash : UInt64) (few : bits ≤ 64) :
    hash.toNat >>> (64 - bits) < 1 <<< bits := by
  rw [Nat.shiftRight_eq_div_pow, Nat.one_shiftLeft]
  refine Nat.div_lt_of_lt_mul ?_
  rw [← Nat.pow_add, Nat.sub_add_cancel few]
  exact hash.toNat_lt

/-- **All hashes are placed** while there is room for them. -/
theorem Placing.placeHashes_returns {seed : UInt64} {keys : List UInt64} (few : bits ≤ 64)
    (placing : Placing bits size placed startPos reverseOrder)
    (room : placed + keys.length ≤ size) :
    Returns (placeHashes seed bits keys startPos reverseOrder) := by
  induction keys generalizing placed startPos reverseOrder with
  | nil => exact .pure _
  | cons key keys ih =>
      rw [List.length_cons] at room
      refine (placing.probe_returns (by omega) (shiftRight_lt (mix key seed) few)).andThen
        fun segment found => ?_
      obtain ⟨position, isPosition, free⟩ := probe_ok found
      have less : segment < 1 <<< bits :=
        placing.segments ▸ (List.getElem?_eq_some_iff.mp isPosition).1
      cases isPosition.symm.trans (placing.getElem? ⟨segment, less⟩)
      have within : pointer startPos ⟨segment, less⟩ < reverseOrder.length :=
        (List.getElem?_eq_some_iff.mp free).1
      rw [item_of_some isPosition, bind_ok, setItem_of_lt within, bind_ok,
        setItem_of_lt (placing.segments.symm ▸ less), bind_ok]
      exact ih (placing.step (i := ⟨segment, less⟩) free _) (by omega)

/-- The pointers at the start of an attempt. -/
theorem placing_start (free : reverseOrder.take size = List.replicate size 0)
    (guarded : Guarded size reverseOrder) :
    Placing bits size 0 (startPositions bits size) reverseOrder := by
  have starts : pointer (startPositions bits size) = firstSlot bits size := by
    funext i
    unfold pointer startPositions firstSlot
    rw [List.getElem?_map, List.getElem?_range i.isLt]
    rfl
  refine ⟨?_, ?_, ?_, ?_, ?_, guarded⟩
  · rw [startPositions, List.length_map, List.length_range]
  · rw [starts]
    exact fun i => le_rfl
  · rw [starts]
    exact firstSlot_le
  · intro slot less hash found nonzero
    rw [← List.getElem?_take_of_lt less, free, List.getElem?_replicate_of_lt less] at found
    exact absurd (Option.some.inj found).symm nonzero
  · rw [starts, Intervals.total]
    exact Finset.sum_eq_zero fun i _ => Nat.sub_self _

end

theorem blockBits_le (segmentCount : UInt32) (more bits : Nat) :
    blockBits segmentCount more bits ≤ bits + more := by
  induction more generalizing bits with
  | zero => exact le_rfl
  | succ more ih =>
      unfold blockBits
      split
      · exact (ih (bits + 1)).trans_eq (by omega)
      · exact Nat.le_add_right ..

/-- **An attempt places the hashes of all keys**, equal ones or not. -/
theorem placeHashes_returns {geometry : Geometry} {keys : List UInt64} {search : Search}
    (fresh : Fresh geometry keys.length search) :
    Returns (placeHashes search.seed (blockBits geometry.segmentCount 31 1) keys
      (startPositions (blockBits geometry.segmentCount 31 1) keys.length)
      search.reverseOrder) :=
  (placing_start fresh.free fresh.guarded).placeHashes_returns
    ((blockBits_le _ _ _).trans (by decide)) (Nat.zero_add _).le

end VideoStorage.Xorf
