import Mathlib.Data.List.Nodup
import Mathlib.Data.List.Perm.Basic
import VideoStorage.Library.BackSubstitution
import VideoStorage.Xorf.Tally

/-!
# What an attempt leaves behind

An attempt places the hashes of the keys, in some order (`placeHashes_perm`), counts
them, and takes hashes off. A hash is taken off at a position that no other hash
has which is still there. So the position is the pivot of an equation between
three fingerprints, and does not occur in the equations of the hashes that are
taken off later. The invariant of the peeling loop is `PeelInv`.

When all hashes have been taken off, setting the fingerprints from the last hash to
the first is back substitution, and solves all the equations. The filter then
contains every key (`tryFromIterator_contains`).
-/

set_option autoImplicit false

namespace VideoStorage.Xorf

open RustStd

/-! ## Placing the hashes -/

/-- Two lists of one length with the same elements apart from one value. -/
theorem perm_of_filter_ne {α : Type} [DecidableEq α] {a : α} {l m : List α}
    (same : (l.filter (· ≠ a)).Perm (m.filter (· ≠ a))) (length : l.length = m.length) :
    l.Perm m := by
  have rest : ∀ k : List α, k.filter (fun x => !decide (x ≠ a)) =
      List.replicate (k.length - (k.filter (· ≠ a)).length) a := by
    intro k
    rw [List.eq_replicate_iff]
    constructor
    · have parts := (List.filter_append_perm (· ≠ a) k).length_eq
      rw [List.length_append] at parts
      omega
    · intro x inside
      simpa using (List.mem_filter.mp inside).2
  refine ((List.filter_append_perm (· ≠ a) l).symm.trans ?_).trans
    (List.filter_append_perm (· ≠ a) m)
  rw [rest, rest, length, same.length_eq]
  exact same.append_right _

/-- The hashes that are not 0, which stands for a free slot. -/
def nonzero (hashes : List UInt64) : List UInt64 := hashes.filter (· ≠ 0)

/-- A hash in a free slot. -/
theorem nonzero_set_perm {slots : List UInt64} {position : Nat} (hash : UInt64)
    (free : slots[position]? = some 0) :
    (nonzero (slots.set position hash)).Perm (nonzero (hash :: slots)) := by
  obtain ⟨within, isZero⟩ := List.getElem?_eq_some_iff.mp free
  have before := List.getElem_cons_eraseIdx_perm within
  rw [isZero] at before
  have after := List.set_perm_cons_eraseIdx within hash
  refine (after.filter _).trans ?_
  have kept := before.filter (· ≠ (0 : UInt64))
  rw [List.filter_cons_of_neg (by simp)] at kept
  rw [nonzero, List.filter_cons, List.filter_cons]
  split
  · exact kept.cons hash
  · exact kept

theorem probe_ok {reverseOrder : List UInt64} {startPos : List Nat} {mask round first found : Nat}
    (ok : probe reverseOrder startPos mask round first = .ok found) :
    ∃ position, startPos[found]? = some position ∧ reverseOrder[position]? = some 0 := by
  induction round generalizing first with
  | zero => cases ok
  | succ round ih =>
      obtain ⟨position, isPosition, ok⟩ := bind_eq_ok ok
      obtain ⟨occupant, isOccupant, ok⟩ := bind_eq_ok ok
      split at ok
      · rename_i free
        cases ok
        exact ⟨position, item_ok isPosition, free ▸ item_ok isOccupant⟩
      · exact ih ok

/-- The slot behind the array is not free. -/
def Guarded (size : Nat) (reverseOrder : List UInt64) : Prop :=
  ∃ guard, guard ≠ 0 ∧ reverseOrder.drop size = [guard]

theorem Guarded.lt {size position : Nat} {reverseOrder : List UInt64}
    (guarded : Guarded size reverseOrder) (free : reverseOrder[position]? = some 0) :
    position < size := by
  obtain ⟨guard, nonzero, last⟩ := guarded
  by_contra behind
  have shifted : (reverseOrder.drop size)[position - size]? = some 0 := by
    rw [List.getElem?_drop, Nat.add_sub_cancel' (Nat.not_lt.mp behind), free]
  rw [last] at shifted
  rcases Nat.eq_zero_or_pos (position - size) with first | more
  · rw [first] at shifted
    exact nonzero (Option.some.inj shifted)
  · rw [List.getElem?_eq_none more] at shifted
    cases shifted

theorem Guarded.set {size position : Nat} {reverseOrder : List UInt64}
    (guarded : Guarded size reverseOrder) (within : position < size) (hash : UInt64) :
    Guarded size (reverseOrder.set position hash) := by
  obtain ⟨guard, nonzero, last⟩ := guarded
  exact ⟨guard, nonzero, by rw [List.drop_set_of_lt within, last]⟩

theorem placeHashes_nonzero {seed : UInt64} {blockBits size : Nat} {keys : List UInt64}
    {startPos : List Nat} {reverseOrder placed : List UInt64}
    (guarded : Guarded size reverseOrder)
    (ok : placeHashes seed blockBits keys startPos reverseOrder = .ok placed) :
    Guarded size placed ∧ (nonzero (placed.take size)).Perm
      (nonzero (keys.map (mix · seed) ++ reverseOrder.take size)) := by
  induction keys generalizing startPos reverseOrder with
  | nil =>
      cases ok
      exact ⟨guarded, .refl _⟩
  | cons key keys ih =>
      obtain ⟨segmentIndex, probed, ok⟩ := bind_eq_ok ok
      obtain ⟨position, isPosition, ok⟩ := bind_eq_ok ok
      obtain ⟨next, set, ok⟩ := bind_eq_ok ok
      obtain ⟨startPos', -, ok⟩ := bind_eq_ok ok
      obtain ⟨position', isPosition', free⟩ := probe_ok probed
      cases (item_ok isPosition).symm.trans isPosition'
      obtain ⟨-, rfl⟩ := setItem_ok set
      have within := guarded.lt free
      obtain ⟨guarded', placed'⟩ := ih (guarded.set within _) ok
      refine ⟨guarded', placed'.trans ?_⟩
      have slot : (reverseOrder.take size)[position]? = some 0 := by
        rw [List.getElem?_take_of_lt within, free]
      rw [List.take_set, nonzero, List.filter_append]
      refine ((nonzero_set_perm _ slot).append_left _).trans ?_
      rw [nonzero, ← List.filter_append, nonzero, List.map_cons]
      exact List.perm_middle.filter _

/-- **The placed hashes** are those of the keys, in some order. -/
theorem placeHashes_perm {seed : UInt64} {blockBits : Nat} {keys : List UInt64}
    {startPos : List Nat} {reverseOrder placed : List UInt64}
    (guarded : Guarded keys.length reverseOrder)
    (free : reverseOrder.take keys.length = List.replicate keys.length 0)
    (ok : placeHashes seed blockBits keys startPos reverseOrder = .ok placed) :
    Guarded keys.length placed ∧
      (placed.take keys.length).Perm (keys.map (mix · seed)) := by
  obtain ⟨guarded', same⟩ := placeHashes_nonzero guarded ok
  refine ⟨guarded', perm_of_filter_ne (a := 0) (same.trans ?_) ?_⟩
  · have none : (List.replicate keys.length (0 : UInt64)).filter (· ≠ 0) = [] := by
      refine List.filter_eq_nil_iff.mpr fun x inside => ?_
      simp [List.eq_of_mem_replicate inside]
    rw [free, nonzero, List.filter_append, none, List.append_nil]
  · obtain ⟨guard, _, last⟩ := guarded'
    have length := congrArg List.length last
    rw [List.length_drop, List.length_singleton] at length
    rw [List.length_take_of_le (by omega), List.length_map]

/-! ## The queue -/

section

variable {α : Type}

theorem take_set_self (array : List α) (n : Nat) (value : α) :
    (array.set n value).take n = array.take n := by
  rw [List.take_set, List.set_eq_of_length_le (List.length_take_le ..)]

theorem take_succ_set {array : List α} {n : Nat} (within : n < array.length) (value : α) :
    (array.set n value).take (n + 1) = array.take n ++ [value] := by
  rw [List.take_add_one, take_set_self, List.getElem?_set_self within, Option.toList_some]

theorem nodup_concat {array : List α} {value : α} (distinct : array.Nodup)
    (absent : value ∉ array) : (array ++ [value]).Nodup :=
  (List.perm_append_singleton value array).nodup_iff.mpr (List.nodup_cons.mpr ⟨absent, distinct⟩)

end

/-- The positions in the queue. -/
def queue (alone : List UInt32) (qsize : Nat) : List Nat := (alone.take qsize).map UInt32.toNat

theorem queue_set (alone : List UInt32) (qsize : Nat) (entry : UInt32) :
    queue (alone.set qsize entry) qsize = queue alone qsize := by
  rw [queue, take_set_self, queue]

theorem queue_succ_set {alone : List UInt32} {qsize index : Nat} (within : qsize < alone.length)
    (small : index < UInt32.size) :
    queue (alone.set qsize (UInt32.ofNat index)) (qsize + 1) = queue alone qsize ++ [index] := by
  rw [queue, take_succ_set within, List.map_append, List.map_singleton,
    UInt32.toNat_ofNat_of_lt' small, queue]

/-- The number in a packed counter. -/
theorem toNat_shiftRight_two (count : UInt8) : (count >>> 2).toNat = count.toNat / 4 := by
  rw [UInt8.toNat_shiftRight, Nat.shiftRight_eq_div_pow]
  rfl

/-- The positions with one hash are queued once each. -/
theorem enqueue_ok {i qsize qsize' : Nat} {counts : List UInt8} {alone alone' : List UInt32}
    (small : i + counts.length ≤ UInt32.size) (before : ∀ index ∈ queue alone qsize, index < i)
    (distinct : (queue alone qsize).Nodup)
    (ok : enqueue i counts alone qsize = .ok (alone', qsize')) :
    (queue alone' qsize').Nodup ∧ ∀ index ∈ queue alone' qsize', index ∈ queue alone qsize ∨
      i ≤ index ∧ ∃ count, counts[index - i]? = some count ∧ count >>> 2 = 1 := by
  induction counts generalizing i qsize alone with
  | nil =>
      cases ok
      exact ⟨distinct, fun index => .inl⟩
  | cons count counts ih =>
      rw [List.length_cons] at small
      obtain ⟨next, set, ok⟩ := bind_eq_ok ok
      obtain ⟨within, rfl⟩ := setItem_ok set
      split at ok
      · rename_i one
        have added := queue_succ_set within (show i < UInt32.size by omega)
        have before' : ∀ index ∈ queue (alone.set qsize (UInt32.ofNat i)) (qsize + 1),
            index < i + 1 := by
          rw [added]
          intro index inside
          rcases List.mem_append.mp inside with old | new
          · exact Nat.lt_succ_of_lt (before index old)
          · exact List.mem_singleton.mp new ▸ Nat.lt_succ_self i
        have distinct' : (queue (alone.set qsize (UInt32.ofNat i)) (qsize + 1)).Nodup := by
          rw [added]
          exact nodup_concat distinct fun old => Nat.lt_irrefl i (before i old)
        obtain ⟨final, all⟩ := ih (by omega) before' distinct' ok
        refine ⟨final, fun index inside => ?_⟩
        rcases all index inside with queued | ⟨later, count', found, alone'⟩
        · rw [added] at queued
          rcases List.mem_append.mp queued with old | new
          · exact .inl old
          · rw [List.mem_singleton.mp new, Nat.sub_self]
            exact .inr ⟨Nat.le_refl i, count, rfl, one⟩
        · refine .inr ⟨Nat.le_of_succ_le later, count', ?_, alone'⟩
          rw [show index - i = index - (i + 1) + 1 by omega, List.getElem?_cons_succ, found]
      · have same := queue_set alone qsize (UInt32.ofNat i)
        have before' : ∀ index ∈ queue (alone.set qsize (UInt32.ofNat i)) qsize, index < i + 1 := by
          rw [same]
          exact fun index old => Nat.lt_succ_of_lt (before index old)
        obtain ⟨final, all⟩ := ih (by omega) before' (same.symm ▸ distinct) ok
        refine ⟨final, fun index inside => ?_⟩
        rcases all index inside with queued | ⟨later, count', found, alone'⟩
        · exact .inl (same ▸ queued)
        · refine .inr ⟨Nat.le_of_succ_le later, count', ?_, alone'⟩
          rw [show index - i = index - (i + 1) + 1 by omega, List.getElem?_cons_succ, found]

/-! ## Taking one hash off -/

/-- A position of a hash and the other two, as the ring gives them. -/
structure Ring (geometry : Geometry) (hash : UInt64) (place : UInt8) (index next last : Nat) :
    Prop where
  at0 : (geometry.h012 hash)[place.toNat]? = some index
  at1 : (geometry.h012 hash)[place.toNat + 1]? = some next
  at2 : (geometry.h012 hash)[place.toNat + 2]? = some last
  place1 : geometry.placeAt hash next = some (mod3 (place + 1))
  place2 : geometry.placeAt hash last = some (mod3 (place + 2))
  other : next ≠ index ∧ last ≠ index ∧ next ≠ last
  inside : next < geometry.arrayLen.toNat ∧ last < geometry.arrayLen.toNat
  only : ∀ position, geometry.placeAt hash position ≠ none →
    position = index ∨ position = next ∨ position = last

theorem Geometry.Spread.ring {geometry : Geometry} (spread : geometry.Spread) {hash : UInt64}
    {place : UInt8} {index : Nat} (found : geometry.placeAt hash index = some place) :
    ∃ next last, Ring geometry hash place index next last := by
  obtain ⟨at0, at1, at2⟩ := spread.placeAt hash
  obtain ⟨in0, in1, in2⟩ := (spread hash).inside
  obtain ⟨n01, n02, n12⟩ := spread.ne hash
  have three : ∀ position, geometry.placeAt hash position ≠ none →
      position = (geometry.positions hash).1 ∨ position = (geometry.positions hash).2.1 ∨
        position = (geometry.positions hash).2.2 := by
    intro position present
    by_contra others
    rw [not_or, not_or] at others
    rw [Geometry.placeAt, if_neg others.1, if_neg others.2.1, if_neg others.2.2] at present
    exact present rfl
  have whole := found
  unfold Geometry.placeAt at whole
  split_ifs at whole with is0 is1 is2
  · cases whole
    subst is0
    exact ⟨_, _, rfl, rfl, rfl, at1, at2, ⟨n01.symm, n02.symm, n12⟩, ⟨in1, in2⟩, three⟩
  · cases whole
    subst is1
    refine ⟨_, _, rfl, rfl, rfl, at2, at0, ⟨n12.symm, n01, n02.symm⟩, ⟨in2, in0⟩, ?_⟩
    intro position present
    rcases three position present with h | h | h
    · exact .inr (.inr h)
    · exact .inl h
    · exact .inr (.inl h)
  · cases whole
    subst is2
    refine ⟨_, _, rfl, rfl, rfl, at0, at1, ⟨n02, n12, n01⟩, ⟨in0, in1⟩, ?_⟩
    intro position present
    rcases three position present with h | h | h
    · exact .inr (.inl h)
    · exact .inr (.inr h)
    · exact .inl h

/-- What it does that a hash leaves a position: the tally, and the queue, which the
position enters when one hash remains there. -/
structure Left (peeling : Peeling) (index : Nat) (remains : Tally) (peeling' : Peeling) : Prop where
  here : peeling'.counts.Holds index remains
  others : ∀ other ≠ index, ∀ t, peeling.counts.Holds other t → peeling'.counts.Holds other t
  queued : queue peeling'.alone peeling'.qsize =
    queue peeling.alone peeling.qsize ++ if remains.load = 1 then [index] else []
  reverseH : peeling'.reverseH = peeling.reverseH
  reverseOrder : peeling'.reverseOrder = peeling.reverseOrder
  stackSize : peeling'.stackSize = peeling.stackSize
  qsize : peeling'.qsize ≤ peeling.qsize + 1

theorem leaveOther_ok {hash : UInt64} {place : UInt8} {index : Nat} {peeling peeling' : Peeling}
    {remains : Tally} (ok : leaveOther true hash place index peeling = .ok peeling')
    (holds : peeling.counts.Holds index (remains.add hash place)) (low : place < 3)
    (small : index < UInt32.size) : Left peeling index remains peeling' := by
  obtain ⟨alone, set, ok⟩ := bind_eq_ok ok
  obtain ⟨count, counted, ok⟩ := bind_eq_ok ok
  obtain ⟨counts, left, here⟩ := bind_eq_ok ok
  cases here
  obtain ⟨within, rfl⟩ := setItem_ok set
  obtain ⟨here, others⟩ := holds.leave left low
  have value : count.toNat = 4 * (remains.load + 1) + (remains.places ^^^ place).toNat :=
    holds.toNat_count (item_ok counted)
  have packed := holds.small
  have two : count >>> 2 = 2 ↔ remains.load = 1 := by
    rw [← UInt8.toNat_inj, toNat_shiftRight_two, value]
    change (remains.places ^^^ place).toNat < 4 at packed
    change _ = 2 ↔ _
    omega
  refine ⟨here, others, ?_, rfl, rfl, rfl, ?_⟩
  · simp only [two]
    split
    · rw [queue_succ_set within small]
    · rw [queue_set, List.append_nil]
  · dsimp only
    split <;> omega

/-! ## The peeling loop -/

/-- A hash that was taken off, at a position that only it still had. -/
structure Taken where
  hash : UInt64
  place : UInt8
  index : Nat

/-- The peeling loop has taken hashes off, and the others are left. -/
structure PeelInv (geometry : Geometry) (hashes : List UInt64) (taken : List Taken)
    (left : List UInt64) (peeling : Peeling) : Prop where
  stackSize : peeling.stackSize = taken.length
  isHash : peeling.reverseOrder.take taken.length = taken.map Taken.hash
  isPlace : peeling.reverseH.take taken.length = taken.map Taken.place
  all : (taken.map Taken.hash ++ left).Perm hashes
  placed : ∀ entry ∈ taken, geometry.placeAt entry.hash entry.index = some entry.place
  ordered : taken.Pairwise fun first later => geometry.placeAt later.hash first.index = none
  closed : ∀ entry ∈ taken, ∀ hash ∈ left, geometry.placeAt hash entry.index = none
  tallied : Tallied geometry peeling.counts left fun index => ∃ entry ∈ taken, entry.index = index
  distinct : (queue peeling.alone peeling.qsize).Nodup
  queued : ∀ index ∈ queue peeling.alone peeling.qsize, index < geometry.arrayLen.toNat ∧
    (¬ ∃ entry ∈ taken, entry.index = index) ∧ (tally geometry index left).load ≤ 1
  guarded : Guarded hashes.length peeling.reverseOrder

section

variable {geometry : Geometry} {index : Nat} {hash : UInt64} {hashes left : List UInt64}
  {place : UInt8} {taken : List Taken} {peeling peeling' : Peeling}

theorem tally_erase_of_some (member : hash ∈ hashes)
    (found : geometry.placeAt hash index = some place) :
    tally geometry index hashes = (tally geometry index (hashes.erase hash)).add hash place := by
  rw [tally_perm (List.perm_cons_erase member), tally_cons_of_some _ found]

theorem tally_erase_of_none (member : hash ∈ hashes)
    (absent : geometry.placeAt hash index = none) :
    tally geometry index hashes = tally geometry index (hashes.erase hash) := by
  rw [tally_perm (List.perm_cons_erase member), tally_cons_of_none _ absent]

theorem load_erase_le (member : hash ∈ hashes) :
    (tally geometry index (hashes.erase hash)).load ≤ (tally geometry index hashes).load := by
  cases here : geometry.placeAt hash index with
  | none => rw [tally_erase_of_none member here]
  | some place =>
      rw [tally_erase_of_some member here]
      exact Nat.le_succ _

/-- A position of a hash that is left is not closed. -/
theorem PeelInv.opened (inv : PeelInv geometry hashes taken left peeling) (member : hash ∈ left)
    (found : geometry.placeAt hash index ≠ none) : ¬ ∃ entry ∈ taken, entry.index = index := by
  rintro ⟨entry, inside, rfl⟩
  exact found (inv.closed entry inside hash member)

/-- The counters at a position of a hash that is left. -/
theorem PeelInv.holds (inv : PeelInv geometry hashes taken left peeling) (member : hash ∈ left)
    (within : index < geometry.arrayLen.toNat)
    (found : geometry.placeAt hash index = some place) :
    peeling.counts.Holds index ((tally geometry index (left.erase hash)).add hash place) := by
  rw [← tally_erase_of_some member found]
  exact inv.tallied index within (inv.opened member (by rw [found]; exact Option.some_ne_none _))

/-- The entry at the end of the queue. -/
theorem queue_pop {alone : List UInt32} {qsize : Nat} {entry : UInt32} (running : qsize ≠ 0)
    (found : alone[qsize - 1]? = some entry) :
    queue alone qsize = queue alone (qsize - 1) ++ [entry.toNat] := by
  obtain ⟨q, rfl⟩ := Nat.exists_eq_succ_of_ne_zero running
  rw [Nat.succ_sub_one] at found ⊢
  rw [queue, List.take_add_one, found, Option.toList_some, List.map_append, List.map_singleton,
    queue]

theorem toNat_and_three (count : UInt8) : (count &&& 3).toNat = count.toNat % 4 := by
  rw [UInt8.toNat_and]
  exact Nat.and_two_pow_sub_one_eq_mod _ 2

/-- What the counters say of a position with one hash. -/
theorem Counts.Holds.single {counts : Counts} {count : UInt8} {value : UInt64}
    (holds : counts.Holds index (tally geometry index left))
    (isCount : counts.t2count[index]? = some count) (one : count >>> 2 = 1)
    (isValue : counts.t2hash[index]? = some value) :
    value ∈ left ∧ geometry.placeAt value index = some (count &&& 3) ∧
      ∀ other ∈ left.erase value, geometry.placeAt other index = none := by
  have packed := holds.toNat_count isCount
  have small := holds.small
  have quotient : count.toNat / 4 = 1 := by
    rw [← toNat_shiftRight_two, one]
    rfl
  obtain ⟨hash, place, member, found, whole, absent⟩ :=
    exists_of_load_one (show (tally geometry index left).load = 1 by omega)
  have isHash := Option.some.inj (isValue.symm.trans holds.hashes)
  rw [whole] at packed small isHash
  have isPlace : count &&& 3 = place := by
    rw [← UInt8.toNat_inj, toNat_and_three, packed]
    dsimp only at small ⊢
    omega
  cases isHash
  exact ⟨member, isPlace ▸ found, absent⟩

/-- A position in the queue whose counter is not 1 is dropped. -/
theorem PeelInv.skip (inv : PeelInv geometry hashes taken left peeling) {entry : UInt32}
    (running : peeling.qsize ≠ 0) (popped : peeling.alone[peeling.qsize - 1]? = some entry) :
    PeelInv geometry hashes taken left { peeling with qsize := peeling.qsize - 1 } := by
  have whole := queue_pop running popped
  have distinct := inv.distinct
  rw [whole] at distinct
  refine { inv with distinct := (List.nodup_append.mp distinct).1, queued := ?_ }
  intro index inside
  exact inv.queued index (whole ▸ List.mem_append_left _ inside)

/-- The state when a hash has been written down, before it leaves its other two
positions. -/
def Peeling.write (peeling : Peeling) (reverseH : List UInt8) (reverseOrder : List UInt64) :
    Peeling :=
  { peeling with
    qsize := peeling.qsize - 1, reverseH, reverseOrder, stackSize := peeling.stackSize + 1 }

/-- A new entry that is queued or not. -/
theorem append_if {α : Type} {P : α → Prop} {old : List α} {entry : α} {condition : Prop}
    [Decidable condition] (distinct : old.Nodup ∧ ∀ index ∈ old, P index)
    (fresh : condition → entry ∉ old ∧ P entry) :
    (old ++ if condition then [entry] else []).Nodup ∧
      ∀ index ∈ old ++ if condition then [entry] else [], P index := by
  split
  · rename_i holds
    obtain ⟨absent, here⟩ := fresh holds
    refine ⟨nodup_concat distinct.1 absent, fun index inside => ?_⟩
    rcases List.mem_append.mp inside with before | new
    · exact distinct.2 index before
    · exact List.mem_singleton.mp new ▸ here
  · rwa [List.append_nil]

/-- A position where one hash remains, when another one leaves it, is not in the queue. -/
theorem PeelInv.not_queued (inv : PeelInv geometry hashes taken left peeling)
    (member : hash ∈ left) (found : geometry.placeAt hash index = some place)
    (one : (tally geometry index (left.erase hash)).load = 1) :
    index ∉ queue peeling.alone peeling.qsize := by
  intro inside
  have few := (inv.queued index inside).2.2
  rw [tally_erase_of_some member found, Tally.add, one] at few
  exact Nat.not_succ_le_self 1 few

/-- The queue after a hash has left its other two positions: what was in it, and
the positions where one hash remains. -/
theorem PeelInv.queued_take (inv : PeelInv geometry hashes taken left peeling)
    (member : hash ∈ left) {entry : UInt32} {next last : Nat}
    (ring : Ring geometry hash place entry.toNat next last) (running : peeling.qsize ≠ 0)
    (popped : peeling.alone[peeling.qsize - 1]? = some entry) {alone : List UInt32} {qsize : Nat}
    (queued : queue alone qsize = (queue peeling.alone (peeling.qsize - 1) ++
      if (tally geometry next (left.erase hash)).load = 1 then [next] else []) ++
      if (tally geometry last (left.erase hash)).load = 1 then [last] else []) :
    (queue alone qsize).Nodup ∧ ∀ index ∈ queue alone qsize, index < geometry.arrayLen.toNat ∧
      index ≠ entry.toNat ∧ (¬ ∃ entry ∈ taken, entry.index = index) ∧
      (tally geometry index (left.erase hash)).load ≤ 1 := by
  have whole := queue_pop running popped
  have distinct := inv.distinct
  rw [whole] at distinct
  obtain ⟨old, -, apart⟩ := List.nodup_append.mp distinct
  obtain ⟨nextOther, lastOther, different⟩ := ring.other
  -- Where a hash remains at one of its other positions there were two, so it was not queued.
  have fresh : ∀ position place', geometry.placeAt hash position = some place' →
      (tally geometry position (left.erase hash)).load = 1 →
      position ∉ queue peeling.alone (peeling.qsize - 1) := by
    intro position place' found one inside
    exact inv.not_queued member found one (whole ▸ List.mem_append_left _ inside)
  have opened : ∀ position place', geometry.placeAt hash position = some place' →
      ¬ ∃ entry ∈ taken, entry.index = position := fun position place' found =>
    inv.opened member (by rw [found]; exact Option.some_ne_none _)
  rw [queued]
  refine append_if (append_if ⟨old, fun index inside => ?_⟩ fun one => ?_) fun one => ?_
  · obtain ⟨within, free, few⟩ := inv.queued index (whole ▸ List.mem_append_left _ inside)
    exact ⟨within, apart index inside _ (List.mem_singleton_self _), free,
      Nat.le_trans (load_erase_le member) few⟩
  · exact ⟨fresh next _ ring.place1 one, ring.inside.1, nextOther, opened next _ ring.place1,
      Nat.le_of_eq one⟩
  · refine ⟨fun inside => ?_, ring.inside.2, lastOther, opened last _ ring.place2,
      Nat.le_of_eq one⟩
    rcases List.mem_append.mp inside with before | here
    · exact fresh last _ ring.place2 one before
    · split at here
      · exact different (List.mem_singleton.mp here).symm
      · cases here

/-- The tallies after a hash was taken off: the two other positions have lost it,
and the rest never had it. -/
theorem PeelInv.tallied_take (inv : PeelInv geometry hashes taken left peeling)
    (member : hash ∈ left) {entry : UInt32} {next last : Nat}
    (ring : Ring geometry hash place entry.toNat next last) {reverseH : List UInt8}
    {reverseOrder : List UInt64} {between : Peeling}
    (first : Left (peeling.write reverseH reverseOrder) next
      (tally geometry next (left.erase hash)) between)
    (second : Left between last (tally geometry last (left.erase hash)) peeling') :
    Tallied geometry peeling'.counts (left.erase hash)
      fun index => ∃ other ∈ taken ++ [⟨hash, place, entry.toNat⟩], other.index = index := by
  intro index within free
  have notEntry : index ≠ entry.toNat := fun same =>
    free ⟨_, List.mem_append_right _ (List.mem_singleton_self _), same.symm⟩
  have notTaken : ¬ ∃ other ∈ taken, other.index = index := by
    rintro ⟨other, before, same⟩
    exact free ⟨other, List.mem_append_left _ before, same⟩
  by_cases isLast : index = last
  · exact isLast ▸ second.here
  · by_cases isNext : index = next
    · exact isNext ▸ second.others next (isNext ▸ isLast) _ first.here
    · have none : geometry.placeAt hash index = none := by
        by_contra present
        rcases ring.only index present with h | h | h
        · exact notEntry h
        · exact isNext h
        · exact isLast h
      rw [← tally_erase_of_none member none]
      exact second.others index isLast _
        (first.others index isNext _ (inv.tallied index within notTaken))

/-- **A hash is taken off** at a position that only it had, and leaves the other
two. -/
theorem PeelInv.take (inv : PeelInv geometry hashes taken left peeling) (member : hash ∈ left)
    {entry : UInt32} {next last : Nat} (ring : Ring geometry hash place entry.toNat next last)
    (found : geometry.placeAt hash entry.toNat = some place)
    (absent : ∀ other ∈ left.erase hash, geometry.placeAt other entry.toNat = none)
    (running : peeling.qsize ≠ 0)
    (popped : peeling.alone[peeling.qsize - 1]? = some entry) {reverseH : List UInt8}
    {reverseOrder : List UInt64}
    (setH : reverseH = peeling.reverseH.set peeling.stackSize place ∧
      peeling.stackSize < peeling.reverseH.length)
    (setOrder : reverseOrder = peeling.reverseOrder.set peeling.stackSize hash ∧
      peeling.stackSize < peeling.reverseOrder.length) {between : Peeling}
    (first : Left (peeling.write reverseH reverseOrder) next
      (tally geometry next (left.erase hash)) between)
    (second : Left between last (tally geometry last (left.erase hash)) peeling') :
    PeelInv geometry hashes (taken ++ [⟨hash, place, entry.toNat⟩]) (left.erase hash) peeling' := by
  have order := List.perm_cons_erase member
  have written : peeling'.reverseOrder = peeling.reverseOrder.set taken.length hash := by
    rw [second.reverseOrder, first.reverseOrder, ← inv.stackSize]
    exact setOrder.1
  have writtenH : peeling'.reverseH = peeling.reverseH.set taken.length place := by
    rw [second.reverseH, first.reverseH, ← inv.stackSize]
    exact setH.1
  have queued : queue peeling'.alone peeling'.qsize =
      (queue peeling.alone (peeling.qsize - 1) ++
        if (tally geometry next (left.erase hash)).load = 1 then [next] else []) ++
        if (tally geometry last (left.erase hash)).load = 1 then [last] else [] := by
    rw [second.queued, first.queued]
    rfl
  obtain ⟨distinct, all⟩ := inv.queued_take member ring running popped queued
  have count := inv.all.length_eq
  rw [List.length_append, List.length_map] at count
  have room : taken.length < hashes.length := by
    have some' := List.length_pos_of_mem member
    omega
  refine ⟨?_, ?_, ?_, ?_, ?_, ?_, ?_, inv.tallied_take member ring first second, distinct, ?_, ?_⟩
  · rw [second.stackSize, first.stackSize, Peeling.write, inv.stackSize, List.length_append]
    rfl
  · rw [written, List.length_append, List.length_singleton,
      take_succ_set (inv.stackSize ▸ setOrder.2), inv.isHash, List.map_append]
    rfl
  · rw [writtenH, List.length_append, List.length_singleton,
      take_succ_set (inv.stackSize ▸ setH.2), inv.isPlace, List.map_append]
    rfl
  · rw [List.map_append, List.append_assoc]
    exact ((order.symm.append_left _).trans inv.all)
  · intro entry' inside
    rcases List.mem_append.mp inside with before | new
    · exact inv.placed entry' before
    · cases List.mem_singleton.mp new
      exact found
  · refine List.pairwise_append.mpr ⟨inv.ordered, List.pairwise_singleton .., ?_⟩
    intro entry' before later new
    cases List.mem_singleton.mp new
    exact inv.closed entry' before hash member
  · intro entry' inside other remains
    rcases List.mem_append.mp inside with before | new
    · exact inv.closed entry' before other (List.mem_of_mem_erase remains)
    · cases List.mem_singleton.mp new
      exact absent other remains
  · intro index inside
    obtain ⟨within, notEntry, free, few⟩ := all index inside
    refine ⟨within, ?_, few⟩
    rintro ⟨entry', inside', same⟩
    rcases List.mem_append.mp inside' with before | new
    · exact free ⟨entry', before, same⟩
    · cases List.mem_singleton.mp new
      exact notEntry same.symm
  · rw [written]
    exact inv.guarded.set room hash

/-- The work that remains: the queue, and twice the hashes that are left. -/
def remaining (left : List UInt64) (peeling : Peeling) : Nat := peeling.qsize + 2 * left.length

/-- **One step of the peeling loop.** -/
theorem PeelInv.step (inv : PeelInv geometry hashes taken left peeling) (spread : geometry.Spread)
    (running : peeling.qsize ≠ 0) (ok : peelNext true geometry peeling = .ok peeling') :
    ∃ taken' left', PeelInv geometry hashes taken' left' peeling' ∧
      remaining left' peeling' < remaining left peeling := by
  obtain ⟨entry, isEntry, ok⟩ := bind_eq_ok ok
  obtain ⟨count, isCount, ok⟩ := bind_eq_ok ok
  have popped := item_ok isEntry
  split at ok
  · rename_i one
    obtain ⟨hash, isHash, ok⟩ := bind_eq_ok ok
    obtain ⟨reverseH, setH, ok⟩ := bind_eq_ok ok
    obtain ⟨reverseOrder, setOrder, ok⟩ := bind_eq_ok ok
    obtain ⟨other1, isOther1, ok⟩ := bind_eq_ok ok
    obtain ⟨other2, isOther2, ok⟩ := bind_eq_ok ok
    obtain ⟨between, first, second⟩ := bind_eq_ok ok
    obtain ⟨within, free, few⟩ := inv.queued entry.toNat
      (queue_pop running popped ▸ List.mem_append_right _ (List.mem_singleton_self _))
    obtain ⟨member, found, absent⟩ :=
      (inv.tallied _ within free).single (item_ok isCount) one (item_ok isHash)
    obtain ⟨next, last, ring⟩ := spread.ring found
    cases ring.at1.symm.trans (item_ok isOther1)
    cases ring.at2.symm.trans (item_ok isOther2)
    have small : ∀ index, index < geometry.arrayLen.toNat → index < UInt32.size :=
      fun index inside => Nat.lt_trans inside geometry.arrayLen.toNat_lt
    have leaves1 : Left (peeling.write reverseH reverseOrder) other1
        (tally geometry other1 (left.erase hash)) between :=
      leaveOther_ok first (inv.holds member ring.inside.1 ring.place1)
        (Geometry.placeAt_lt ring.place1) (small _ ring.inside.1)
    have leaves2 : Left between other2 (tally geometry other2 (left.erase hash)) peeling' :=
      leaveOther_ok second
        (leaves1.others _ ring.other.2.2.symm _ (inv.holds member ring.inside.2 ring.place2))
        (Geometry.placeAt_lt ring.place2) (small _ ring.inside.2)
    refine ⟨_, _, inv.take member ring found absent running popped (setItem_ok setH).symm
      (setItem_ok setOrder).symm leaves1 leaves2, ?_⟩
    have fewer := List.length_erase_of_mem member
    have some' := List.length_pos_of_mem member
    have size1 := leaves1.qsize
    have size2 := leaves2.qsize
    change between.qsize ≤ peeling.qsize - 1 + 1 at size1
    rw [remaining, remaining]
    omega
  · cases ok
    refine ⟨taken, left, inv.skip running popped, ?_⟩
    rw [remaining, remaining]
    dsimp only
    omega

/-- **The peeling loop.** -/
theorem PeelInv.run {steps : Nat} (inv : PeelInv geometry hashes taken left peeling)
    (spread : geometry.Spread) (ok : peel true geometry steps peeling = .ok peeling') :
    ∃ taken' left', PeelInv geometry hashes taken' left' peeling' := by
  induction steps generalizing peeling taken left with
  | zero =>
      unfold peel at ok
      split at ok
      · cases ok
        exact ⟨taken, left, inv⟩
      · cases ok
  | succ steps ih =>
      unfold peel at ok
      split at ok
      · cases ok
        exact ⟨taken, left, inv⟩
      · rename_i running
        obtain ⟨next, first, rest⟩ := bind_eq_ok ok
        obtain ⟨taken', left', inv', -⟩ := inv.step spread running first
        exact ih inv' rest

end

/-! ## The steps of the peeling loop -/

section

variable {ε α β : Type} {error : ε}

theorem bind_ne_fail {m : Checked ε α} {f : α → Checked ε β} (first : m ≠ fail error)
    (rest : ∀ a, f a ≠ fail error) : m >>= f ≠ fail error := by
  cases m with
  | ok a => exact rest a
  | error failure =>
      intro same
      exact first (Except.error.inj same ▸ rfl)

theorem item_ne_fail (array : List α) (i : Nat) : item array i ≠ fail error := by
  unfold item
  split <;> exact nofun

theorem setItem_ne_fail (array : List α) (i : Nat) (value : α) :
    setItem array i value ≠ fail error := by
  unfold setItem
  split <;> exact nofun

end

/-! ## Attempts -/

/-- The arrays at the start of an attempt. -/
structure Fresh (geometry : Geometry) (size : Nat) (search : Search) : Prop where
  tallied : Tallied geometry search.counts [] fun _ => False
  length : search.counts.t2count.length = geometry.arrayLen.toNat
  free : search.reverseOrder.take size = List.replicate size 0
  guarded : Guarded size search.reverseOrder

/-- All hashes of the keys have been taken off. -/
structure Complete (geometry : Geometry) (keys : List UInt64) (search : Search)
    (taken : List Taken) : Prop where
  isHash : search.reverseOrder.take taken.length = taken.map Taken.hash
  isPlace : search.reverseH.take taken.length = taken.map Taken.place
  all : (taken.map Taken.hash).Perm (keys.map (mix · search.seed))
  placed : ∀ entry ∈ taken, geometry.placeAt entry.hash entry.index = some entry.place
  ordered : taken.Pairwise fun first later => geometry.placeAt later.hash first.index = none

section

variable {geometry : Geometry} {keys : List UInt64} {search search' : Search}

/-- Counters of zero hold the tally of no hash. -/
theorem tallied_replicate (geometry : Geometry) :
    Tallied geometry ⟨List.replicate geometry.arrayLen.toNat 0,
      List.replicate geometry.arrayLen.toNat 0⟩ [] fun _ => False := by
  intro index within _
  have none : (0 : UInt8).toNat < 4 := by decide
  refine ⟨?_, ?_, none⟩
  · dsimp only
    rw [List.getElem?_replicate_of_lt within]
    rfl
  · dsimp only
    rw [List.getElem?_replicate_of_lt within]
    rfl

/-- The arrays after `Search.start` and `Search.reset`. -/
theorem fresh_of_cleared {size : Nat} {guard : UInt64} (nonzero : guard ≠ 0)
    (counts : search.counts = ⟨List.replicate geometry.arrayLen.toNat 0,
      List.replicate geometry.arrayLen.toNat 0⟩)
    (order : search.reverseOrder = List.replicate size 0 ++ [guard]) :
    Fresh geometry size search := by
  have length : (List.replicate size (0 : UInt64)).length = size := List.length_replicate
  refine ⟨?_, ?_, ?_, guard, nonzero, ?_⟩
  · rw [counts]
    exact tallied_replicate geometry
  · rw [counts]
    exact List.length_replicate
  · rw [order, List.take_left' length]
  · rw [order, List.drop_left' length]

/-- The start of the peeling loop, after the hashes have been counted and queued. -/
theorem peelInv_start {hashes reverseOrder : List UInt64} {counting : Counting}
    {alone alone' : List UInt32} {qsize : Nat} (reverseH : List UInt8)
    (counted : Counted geometry hashes counting) (guarded : Guarded hashes.length reverseOrder)
    (ok : enqueue 0 counting.counts.t2count alone 0 = .ok (alone', qsize)) :
    PeelInv geometry hashes [] hashes
      ⟨counting.counts, alone', qsize, reverseH, reverseOrder, 0⟩ := by
  have small : 0 + counting.counts.t2count.length ≤ UInt32.size := by
    rw [counted.length, Nat.zero_add]
    exact Nat.le_of_lt geometry.arrayLen.toNat_lt
  have empty : queue alone 0 = [] := rfl
  obtain ⟨distinct, queued⟩ :=
    enqueue_ok small (by rw [empty]; exact nofun) (by rw [empty]; exact .nil) ok
  rw [empty] at queued
  refine ⟨rfl, rfl, rfl, .refl _, nofun, .nil, nofun, ?_, distinct, ?_, guarded⟩
  · exact fun index within _ => counted.tallied index within nofun
  · intro index inside
    rcases queued index inside with none | ⟨-, count, found, one⟩
    · cases none
    · rw [Nat.sub_zero] at found
      have within : index < geometry.arrayLen.toNat :=
        counted.length ▸ (List.getElem?_eq_some_iff.mp found).1
      have holds := counted.tallied index within nofun
      have value := holds.toNat_count found
      have packed := holds.small
      have quotient : count.toNat / 4 = 1 := by
        rw [← toNat_shiftRight_two, one]
        rfl
      exact ⟨within, nofun, by omega⟩

/-- A position is queued once at most. -/
theorem enqueue_le {i qsize qsize' : Nat} {counts : List UInt8} {alone alone' : List UInt32}
    (ok : enqueue i counts alone qsize = .ok (alone', qsize')) :
    qsize' ≤ qsize + counts.length := by
  induction counts generalizing i qsize alone with
  | nil =>
      cases ok
      exact Nat.le_refl _
  | cons count counts ih =>
      obtain ⟨next, -, ok⟩ := bind_eq_ok ok
      have most := ih ok
      rw [List.length_cons]
      split at most <;> omega

/-- **One attempt**: it takes off all hashes, or leaves the arrays fresh. -/
theorem attempt_ok {done : Option Nat} (fresh : Fresh geometry keys.length search)
    (spread : geometry.Spread) (distinct : keys.Nodup)
    (ok : attempt true geometry keys search = .ok (search', done)) :
    match done with
    | none => Fresh geometry keys.length search'
    | some ultimateSize => ∃ taken, ultimateSize = taken.length ∧
        Complete geometry keys search' taken := by
  obtain ⟨placed, isPlaced, ok⟩ := bind_eq_ok ok
  obtain ⟨counting, isCounted, ok⟩ := bind_eq_ok ok
  obtain ⟨guarded, perm⟩ := placeHashes_perm fresh.guarded fresh.free isPlaced
  have size : (placed.take keys.length).length = keys.length := by
    rw [perm.length_eq, List.length_map]
  have nodup : (placed.take keys.length).Nodup :=
    perm.nodup_iff.mpr (List.Nodup.map (mix_injective search.seed) distinct)
  have counted := countHashes_ok ⟨fresh.tallied, fresh.length, rfl, rfl⟩ spread
    (by rwa [List.append_nil]) isCounted
  rw [List.append_nil] at counted
  rw [if_neg (by rw [counted.error]; exact Bool.false_ne_true)] at ok
  obtain ⟨⟨alone, qsize⟩, queued, ok⟩ := bind_eq_ok ok
  obtain ⟨peeled, isPeeled, ok⟩ := bind_eq_ok ok
  have start := peelInv_start search.reverseH counted (by rwa [size]) queued
  obtain ⟨taken, left, inv⟩ := start.run spread isPeeled
  have total := inv.all.length_eq
  rw [List.length_append, List.length_map, size] at total
  dsimp only at ok
  split at ok
  · rename_i full
    cases ok
    rw [counted.duplicates, inv.stackSize] at full
    have none : left = [] := List.length_eq_zero_iff.mp (by omega)
    have all := inv.all
    rw [none, List.append_nil] at all
    exact ⟨taken, inv.stackSize, inv.isHash, inv.isPlace, all.trans perm, inv.placed,
      inv.ordered⟩
  · obtain ⟨rfl, rfl⟩ := Prod.mk.inj (Except.ok.inj ok)
    obtain ⟨guard, nonzero, last⟩ := inv.guarded
    refine fresh_of_cleared nonzero rfl ?_
    rw [Search.reset]
    dsimp only
    rw [← size, last]

/-- **The attempts.** -/
theorem attempts_ok {more ultimateSize : Nat} (fresh : Fresh geometry keys.length search)
    (spread : geometry.Spread) (distinct : keys.Nodup)
    (ok : attempts true geometry keys more search = .ok (search', ultimateSize)) :
    ∃ taken, ultimateSize = taken.length ∧ Complete geometry keys search' taken := by
  induction more generalizing search with
  | zero => cases ok
  | succ more ih =>
      obtain ⟨⟨next, done⟩, first, ok⟩ := bind_eq_ok ok
      have after := attempt_ok fresh spread distinct first
      cases done with
      | none => exact ih after ok
      | some size =>
          cases ok
          exact after

end

/-! ## The fingerprints -/

/-- The fingerprint of a hash. -/
def fingerprint (hash : UInt64) : UInt16 := (hash ^^^ (hash >>> 32)).toUInt16

/-- The fingerprints as an assignment to the positions. -/
def values (fingerprints : List UInt16) (index : Nat) : UInt16 := fingerprints[index]?.getD 0

/-- The fingerprints at the positions of a hash cancel its own. -/
def Solves (geometry : Geometry) (hash : UInt64) (σ : Nat → UInt16) : Prop :=
  σ (geometry.positions hash).1 ^^^ σ (geometry.positions hash).2.1 ^^^
    σ (geometry.positions hash).2.2 = fingerprint hash

/-- The equation of a hash that was taken off, solved for the position where it was
alone. -/
def Geometry.equation (geometry : Geometry) (entry : Taken) : SolvedEquation Nat UInt16 where
  pivot := entry.index
  Occurs index := geometry.placeAt entry.hash index ≠ none
  Holds := Solves geometry entry.hash
  solve σ :=
    let ring := geometry.h012 entry.hash
    fingerprint entry.hash ^^^ σ (ring[entry.place.toNat + 1]?.getD 0) ^^^
      σ (ring[entry.place.toNat + 2]?.getD 0)
  congr {σ τ} same holds := by
    have occurs : ∀ index, index = (geometry.positions entry.hash).1 ∨
        index = (geometry.positions entry.hash).2.1 ∨
        index = (geometry.positions entry.hash).2.2 → σ index = τ index := by
      intro index isOne
      refine same index fun absent => ?_
      obtain ⟨not0, not1, not2⟩ := Geometry.placeAt_eq_none absent
      rcases isOne with is0 | is1 | is2
      · exact not0 is0
      · exact not1 is1
      · exact not2 is2
    rw [Solves, ← occurs _ (.inl rfl), ← occurs _ (.inr (.inl rfl)), ← occurs _ (.inr (.inr rfl))]
    exact holds

section

variable (a b c : UInt16)

theorem xor_cancel_first : a ^^^ b ^^^ c ^^^ b ^^^ c = a := by
  calc a ^^^ b ^^^ c ^^^ b ^^^ c = b ^^^ b ^^^ (c ^^^ c) ^^^ a := by ac_rfl
    _ = a := by rw [UInt16.xor_self, UInt16.xor_self, UInt16.xor_self, UInt16.zero_xor]

theorem xor_cancel_second : c ^^^ (a ^^^ b ^^^ c) ^^^ b = a := by
  calc c ^^^ (a ^^^ b ^^^ c) ^^^ b = a ^^^ b ^^^ c ^^^ b ^^^ c := by ac_rfl
    _ = a := xor_cancel_first a b c

theorem xor_cancel_third : b ^^^ c ^^^ (a ^^^ b ^^^ c) = a := by
  calc b ^^^ c ^^^ (a ^^^ b ^^^ c) = a ^^^ b ^^^ c ^^^ b ^^^ c := by ac_rfl
    _ = a := xor_cancel_first a b c

end

section

variable {geometry : Geometry} {keys : List UInt64} {search : Search} {taken : List Taken}

/-- The value for the pivot solves the equation. -/
theorem equation_sound (spread : geometry.Spread) {entry : Taken}
    (placed : geometry.placeAt entry.hash entry.index = some entry.place) :
    (geometry.equation entry).Sound := by
  intro σ
  obtain ⟨hash, place, index⟩ := entry
  obtain ⟨n01, n02, n12⟩ := spread.ne hash
  change geometry.placeAt hash index = some place at placed
  change Solves geometry hash (Function.update σ index _)
  unfold Geometry.placeAt at placed
  unfold Solves
  split_ifs at placed with is0 is1 is2
  · cases placed
    rw [is0, Function.update_self, Function.update_of_ne n01.symm, Function.update_of_ne n02.symm]
    exact xor_cancel_first ..
  · cases placed
    rw [is1, Function.update_self, Function.update_of_ne n01, Function.update_of_ne n12.symm]
    exact xor_cancel_second ..
  · cases placed
    rw [is2, Function.update_self, Function.update_of_ne n02, Function.update_of_ne n12]
    exact xor_cancel_third ..

theorem values_set {fingerprints : List UInt16} {index : Nat} (within : index < fingerprints.length)
    (value : UInt16) :
    values (fingerprints.set index value) = Function.update (values fingerprints) index value := by
  funext position
  unfold values
  by_cases same : position = index
  · rw [same, Function.update_self, List.getElem?_set_self within]
    rfl
  · rw [Function.update_of_ne same, List.getElem?_set_ne (Ne.symm same)]

/-- The entry behind the first ones. -/
theorem Complete.entry (complete : Complete geometry keys search taken) {i : Nat}
    (less : i < taken.length) :
    search.reverseOrder[i]? = some taken[i].hash ∧ search.reverseH[i]? = some taken[i].place := by
  constructor
  · rw [← List.getElem?_take_of_lt less, complete.isHash, List.getElem?_map,
      List.getElem?_eq_getElem less]
    rfl
  · rw [← List.getElem?_take_of_lt less, complete.isPlace, List.getElem?_map,
      List.getElem?_eq_getElem less]
    rfl

/-- **Setting the fingerprints** is back substitution. -/
theorem assignFingerprints_ok {fingerprints assigned : List UInt16} {i : Nat}
    (complete : Complete geometry keys search taken) (spread : geometry.Spread)
    (few : i ≤ taken.length)
    (ok : assignFingerprints geometry search i fingerprints = .ok assigned) :
    values assigned = SolvedEquation.backSubstitute ((taken.take i).map geometry.equation)
      (values fingerprints) := by
  induction i generalizing fingerprints with
  | zero =>
      cases ok
      rfl
  | succ i ih =>
      obtain ⟨isHash, isPlace⟩ := complete.entry few
      obtain ⟨hash, foundHash, ok⟩ := bind_eq_ok ok
      obtain ⟨place, foundPlace, ok⟩ := bind_eq_ok ok
      obtain ⟨index, isIndex, ok⟩ := bind_eq_ok ok
      obtain ⟨next, isNext, ok⟩ := bind_eq_ok ok
      obtain ⟨last, isLast, ok⟩ := bind_eq_ok ok
      obtain ⟨f1, isF1, ok⟩ := bind_eq_ok ok
      obtain ⟨f2, isF2, ok⟩ := bind_eq_ok ok
      obtain ⟨changed, set, rest⟩ := bind_eq_ok ok
      obtain ⟨within, rfl⟩ := setItem_ok set
      cases (item_ok foundHash).symm.trans isHash
      cases (item_ok foundPlace).symm.trans isPlace
      obtain ⟨next', last', ring⟩ := spread.ring (complete.placed _ (List.getElem_mem few))
      cases ring.at0.symm.trans (item_ok isIndex)
      have solution : values (fingerprints.set taken[i].index
          ((taken[i].hash ^^^ (taken[i].hash >>> 32)).toUInt16 ^^^ f1 ^^^ f2)) =
          (geometry.equation taken[i]).assign (values fingerprints) := by
        rw [values_set within]
        change _ = Function.update (values fingerprints) taken[i].index
          (fingerprint taken[i].hash ^^^
            values fingerprints ((geometry.h012 taken[i].hash)[taken[i].place.toNat + 1]?.getD 0) ^^^
            values fingerprints ((geometry.h012 taken[i].hash)[taken[i].place.toNat + 2]?.getD 0))
        rw [item_ok isNext, item_ok isLast, Option.getD_some, Option.getD_some, values, values,
          item_ok isF1, item_ok isF2]
        rfl
      rw [ih (Nat.le_of_succ_le few) rest, solution, List.take_add_one,
        List.getElem?_eq_getElem few, Option.toList_some, List.map_append, List.map_singleton,
        SolvedEquation.backSubstitute, SolvedEquation.backSubstitute, List.foldr_append]
      rfl

/-- The fingerprints of all hashes cancel. -/
theorem solves_of_assigned {fingerprints assigned : List UInt16}
    (complete : Complete geometry keys search taken) (spread : geometry.Spread)
    (ok : assignFingerprints geometry search taken.length fingerprints = .ok assigned) :
    ∀ key ∈ keys, Solves geometry (mix key search.seed) (values assigned) := by
  have triangular : SolvedEquation.Triangular (taken.map geometry.equation) := by
    refine List.pairwise_map.mpr (complete.ordered.imp fun absent occurs => ?_)
    exact occurs absent
  have sound : ∀ equation ∈ taken.map geometry.equation, equation.Sound := by
    intro equation inside
    obtain ⟨entry, member, rfl⟩ := List.mem_map.mp inside
    exact equation_sound spread (complete.placed entry member)
  have solved := SolvedEquation.holds_backSubstitute triangular sound (values fingerprints)
  have assigned' := assignFingerprints_ok complete spread (Nat.le_refl _) ok
  rw [List.take_length] at assigned'
  intro key member
  have hashed : mix key search.seed ∈ taken.map Taken.hash :=
    complete.all.mem_iff.mpr (List.mem_map_of_mem member)
  obtain ⟨entry, inside, isHash⟩ := List.mem_map.mp hashed
  rw [← isHash, assigned']
  exact solved _ (List.mem_map_of_mem inside)

end

namespace BinaryFuse16

/-- A look-up inside the array. -/
theorem fingerprintAt_ok {ε : Type} {filter : BinaryFuse16} {position : UInt32}
    (within : position.toNat < filter.fingerprints.length) :
    filter.fingerprintAt (ε := ε) position = .ok (values filter.fingerprints position.toNat) := by
  rw [fingerprintAt, values, List.getElem?_eq_getElem within]
  rfl

/-- **No false negatives**, and three different positions inside the array for every
hash when there is a key. -/
theorem tryFromIterator_contains {ε : Type} {sizing : Sizing} {random : Nat → UInt16}
    {keys : List UInt64} {filter : BinaryFuse16} (distinct : keys.Nodup)
    (built : tryFromIterator true sizing random keys = .ok filter) :
    (∀ key ∈ keys, filter.containsU64 (ε := ε) key = .ok true) ∧
      (keys ≠ [] → ∀ hash, ThreePositions (hashOfHash hash filter.descriptor.segmentLength
        filter.descriptor.segmentLengthMask filter.descriptor.segmentCountLength)
        filter.fingerprints.length) := by
  by_cases none : keys = []
  · subst none
    exact ⟨nofun, fun some' => absurd rfl some'⟩
  · unfold tryFromIterator at built
    rw [if_neg (mt List.length_eq_zero_iff.mp none), if_neg (by simp [distinct])] at built
    obtain ⟨geometry, computed, ok⟩ := bind_eq_ok built
    obtain ⟨⟨search, ultimateSize⟩, searched, ok⟩ := bind_eq_ok ok
    obtain ⟨fingerprints, assigned, here⟩ := bind_eq_ok ok
    cases here
    have spread := Geometry.spread_of_compute computed
    have length : fingerprints.length = geometry.arrayLen.toNat := by
      rw [length_of_assignFingerprints assigned, List.length_map, List.length_range]
    have three : ∀ hash, ThreePositions (hashOfHash hash geometry.segmentLength
        geometry.segmentLengthMask geometry.segmentCountLength) fingerprints.length := by
      rw [length]
      exact spread
    have start : Fresh geometry keys.length (.start keys.length geometry.arrayLen.toNat) :=
      fresh_of_cleared (show (1 : UInt64) ≠ 0 by decide) rfl rfl
    obtain ⟨taken, rfl, complete⟩ := attempts_ok start spread distinct searched
    refine ⟨fun key member => ?_, fun _ => three⟩
    have solves := solves_of_assigned complete spread assigned key member
    obtain ⟨in0, in1, in2⟩ := (three (mix key search.seed)).inside
    unfold containsU64
    dsimp only
    rw [fingerprintAt_ok in0, bind_ok, fingerprintAt_ok in1, bind_ok, fingerprintAt_ok in2, bind_ok]
    have cancels := congrArg (fingerprint (mix key search.seed) ^^^ ·) solves
    rw [UInt16.xor_self] at cancels
    exact congrArg (fun rest : UInt16 => Except.ok (rest == 0)) cancels

theorem tryFromIterator_contains_three : ∃ filter,
    tryFromIterator true ⟨3, 12⟩ (fun _ => 0) [1, 2, 3] = .ok filter ∧
      (∀ key ∈ [1, 2, 3], filter.containsU64 (ε := String) key = .ok true) ∧
      ([1, 2, 3] ≠ ([] : List UInt64) → ∀ hash, ThreePositions (hashOfHash hash
        filter.descriptor.segmentLength filter.descriptor.segmentLengthMask
        filter.descriptor.segmentCountLength) filter.fingerprints.length) :=
  ⟨_, rfl, @tryFromIterator_contains String ⟨3, 12⟩ (fun _ => 0) [1, 2, 3] _ (by decide) rfl⟩

/-- The filter of no key has no position. -/
theorem empty_filter_has_no_positions : ∃ filter,
    tryFromIterator true ⟨3, 12⟩ (fun _ => 0) [] = .ok filter ∧
      ¬ ∀ hash, ThreePositions (hashOfHash hash filter.descriptor.segmentLength
        filter.descriptor.segmentLengthMask filter.descriptor.segmentCountLength)
        filter.fingerprints.length :=
  ⟨_, rfl, fun three => Nat.not_lt_zero _ (three 0).inside.1⟩

end BinaryFuse16

end VideoStorage.Xorf
