import VideoStorage.Xorf.Placement

/-!
# Counting hashes that need not be distinct

The counting loop drops a hash when at one of its positions there is only a copy of it
(`IsCopy`); a copy that has company at all three positions is counted once more. The 8-bit
counter of a position has room for 63 hashes.

So the counters count the hashes that were kept, and the loop goes through, without an overflow,
if and only if no hash falls on a position that 63 of the hashes kept before it have
(`countHashes_returns_iff`). It never sees a counter below four then.
-/

set_option autoImplicit false

namespace VideoStorage.Xorf

open RustStd

/-! ## Which hashes are kept -/

section

variable (geometry : Geometry) (kept : List UInt64) (hash : UInt64)

/-- The hashes that have a position. -/
def sharing (index : Nat) : List UInt64 :=
  kept.filter fun other => (geometry.placeAt other index).isSome

/-- At one of its positions there is only a copy of the hash. -/
def IsCopy : Prop :=
  sharing geometry kept (geometry.positions hash).1 = [hash] ∨
    sharing geometry kept (geometry.positions hash).2.1 = [hash] ∨
    sharing geometry kept (geometry.positions hash).2.2 = [hash]

instance : Decidable (IsCopy geometry kept hash) := inferInstanceAs (Decidable (_ ∨ _))

/-- The positions of the hash have room for it. -/
def HasRoom : Prop :=
  (sharing geometry kept (geometry.positions hash).1).length < 63 ∧
    (sharing geometry kept (geometry.positions hash).2.1).length < 63 ∧
    (sharing geometry kept (geometry.positions hash).2.2).length < 63

instance : Decidable (HasRoom geometry kept hash) := inferInstanceAs (Decidable (_ ∧ _))

/-- The hashes that are kept after one more. -/
def keep : List UInt64 := if IsCopy geometry kept hash then kept else hash :: kept

/-- No hash of a list falls on a full position. -/
def Uncrowded (kept : List UInt64) : List UInt64 → Prop
  | [] => True
  | hash :: more => HasRoom geometry kept hash ∧ Uncrowded (keep geometry kept hash) more

instance decidableUncrowded (kept : List UInt64) :
    (hashes : List UInt64) → Decidable (Uncrowded geometry kept hashes)
  | [] => inferInstanceAs (Decidable True)
  | hash :: more =>
      have := decidableUncrowded (keep geometry kept hash) more
      inferInstanceAs (Decidable (_ ∧ _))

end

section

variable {geometry : Geometry} {kept : List UInt64} {hash : UInt64} {index : Nat}

/-- The load of a position is the number of hashes that have it. -/
theorem load_tally (kept : List UInt64) (index : Nat) :
    (tally geometry index kept).load = (sharing geometry kept index).length := by
  induction kept with
  | nil => rfl
  | cons other kept ih =>
      unfold sharing at ih ⊢
      cases here : geometry.placeAt other index with
      | none => rw [tally_cons_of_none _ here, ih, List.filter_cons_of_neg (by simp [here])]
      | some place =>
          rw [tally_cons_of_some _ here, List.filter_cons_of_pos (by simp [here]),
            List.length_cons, ← ih]
          rfl

/-- A position that one hash has, as the counters see it. -/
theorem sharing_eq_singleton :
    sharing geometry kept index = [hash] ↔
      (tally geometry index kept).load = 1 ∧ (tally geometry index kept).hashes = hash := by
  constructor
  · intro single
    have one : (tally geometry index kept).load = 1 := by
      rw [load_tally, single, List.length_singleton]
    obtain ⟨other, place, member, found, whole, -⟩ := exists_of_load_one one
    have shares : other ∈ sharing geometry kept index :=
      List.mem_filter.mpr ⟨member, by rw [found]; rfl⟩
    rw [single] at shares
    rw [whole]
    exact ⟨rfl, List.mem_singleton.mp shares⟩
  · rintro ⟨one, isHash⟩
    obtain ⟨other, place, member, found, whole, -⟩ := exists_of_load_one one
    rw [whole] at isHash
    cases isHash
    rw [load_tally] at one
    obtain ⟨only, single⟩ := List.length_eq_one_iff.mp one
    have shares : other ∈ sharing geometry kept index :=
      List.mem_filter.mpr ⟨member, by rw [found]; rfl⟩
    rw [single] at shares ⊢
    rw [List.mem_singleton.mp shares]

theorem IsCopy.mem (copy : IsCopy geometry kept hash) : hash ∈ kept := by
  have member : ∀ index, sharing geometry kept index = [hash] → hash ∈ kept := fun index single =>
    (List.mem_filter.mp (single ▸ List.mem_singleton_self hash : hash ∈ sharing _ _ index)).1
  rcases copy with first | second | third
  · exact member _ first
  · exact member _ second
  · exact member _ third

end

/-! ## One counter -/

namespace Counts

variable {counts : Counts} {hash : UInt64} {place : UInt8} {index : Nat} {t : Tally}

theorem Holds.found (holds : counts.Holds index t) :
    ∃ count, counts.t2count[index]? = some count ∧ count.toNat = 4 * t.load + t.places.toNat := by
  obtain ⟨count, found, value⟩ := Option.map_eq_some_iff.mp holds.count
  exact ⟨count, found, value⟩

theorem update_returns_iff {change : UInt8 → Build UInt8} {count : UInt8} {old : UInt64}
    (foundCount : counts.t2count[index]? = some count)
    (foundOld : counts.t2hash[index]? = some old) :
    Returns (counts.update change hash place index) ↔ Returns (change count) := by
  have withinCount := (List.getElem?_eq_some_iff.mp foundCount).1
  have withinHash := (List.getElem?_eq_some_iff.mp foundOld).1
  unfold update
  rw [item_of_some foundCount, bind_ok]
  cases change count with
  | error stop => exact iff_of_false nofun nofun
  | ok changed =>
      rw [bind_ok, setItem_of_lt withinCount, bind_ok, item_of_some foundOld, bind_ok,
        setItem_of_lt withinHash, bind_ok]
      exact iff_of_true (.pure _) (.pure _)

/-- The counter of a position has room for 63 hashes. -/
theorem Holds.enter_returns_iff (holds : counts.Holds index t) :
    Returns (counts.enter true hash place index) ↔ t.load < 63 := by
  obtain ⟨count, found, value⟩ := holds.found
  have small := holds.small
  refine (update_returns_iff found holds.hashes).trans ?_
  have fits : ¬ UInt8.size ≤ count.toNat + (4 : UInt8).toNat ↔ t.load < 63 := by
    change ¬ 256 ≤ count.toNat + 4 ↔ _
    omega
  unfold addU8
  rw [← fits]
  split
  · rename_i overflows
    exact iff_of_false nofun (not_not_intro overflows.2)
  · rename_i room
    exact iff_of_true (.pure _) fun large => room ⟨rfl, large⟩

theorem Holds.leave_returns (holds : counts.Holds index t) (present : 0 < t.load) :
    Returns (counts.leave true hash place index) := by
  obtain ⟨count, found, value⟩ := holds.found
  refine (update_returns_iff found holds.hashes).mpr ?_
  have least : ¬ count < 4 := by
    rw [UInt8.lt_iff_toNat_lt]
    change ¬ count.toNat < 4
    omega
  unfold subU8
  rw [if_neg fun under => least under.2]
  exact .pure _

end Counts

/-- An update only fails as the change of the counter does. -/
theorem Counts.update_ne_fail {change : UInt8 → Build UInt8} {error : BuildStop}
    (changes : ∀ count, change count ≠ fail error) (counts : Counts) (hash : UInt64)
    (place : UInt8) (index : Nat) : counts.update change hash place index ≠ fail error := by
  refine bind_ne_fail (item_ne_fail _ _) fun count => bind_ne_fail (changes count) fun _ => ?_
  refine bind_ne_fail (setItem_ne_fail _ _ _) fun _ => bind_ne_fail (item_ne_fail _ _) fun _ => ?_
  exact bind_ne_fail (setItem_ne_fail _ _ _) fun _ => nofun

/-! ## One hash -/

section

variable {geometry : Geometry} {counts : Counts} {kept : List UInt64} {hash : UInt64}

theorem Tallied.everywhere (tallied : Tallied geometry counts kept fun _ => False) {index : Nat}
    (within : index < geometry.arrayLen.toNat) : counts.Holds index (tally geometry index kept) :=
  tallied index within id

/-- A hash that has a position is tallied there. -/
theorem Tallied.holds_add (tallied : Tallied geometry counts (hash :: kept) fun _ => False)
    {index : Nat} {place : UInt8} (within : index < geometry.arrayLen.toNat)
    (found : geometry.placeAt hash index = some place) :
    counts.Holds index ((tally geometry index kept).add hash place) := by
  rw [← tally_cons_of_some _ found]
  exact tallied.everywhere within

/-- A hash enters its three positions exactly when there is room for it. -/
theorem Tallied.enters_iff (tallied : Tallied geometry counts kept fun _ => False)
    (spread : geometry.Spread) (hash : UInt64) :
    (∃ first second third,
      counts.enter true hash 0 (geometry.positions hash).1 = .ok first ∧
        first.enter true hash 1 (geometry.positions hash).2.1 = .ok second ∧
        second.enter true hash 2 (geometry.positions hash).2.2 = .ok third) ↔
      HasRoom geometry kept hash := by
  obtain ⟨in0, in1, in2⟩ := spread.within hash
  obtain ⟨n01, n02, n12⟩ := spread.ne hash
  have holds0 := tallied.everywhere in0
  unfold HasRoom
  rw [← load_tally, ← load_tally, ← load_tally]
  constructor
  · rintro ⟨first, second, third, ok0, ok1, ok2⟩
    have others0 := (holds0.enter ok0 (by decide)).2
    have holds1 := others0 _ n01.symm _ (tallied.everywhere in1)
    have others1 := (holds1.enter ok1 (by decide)).2
    have holds2 := others1 _ n12.symm _ (others0 _ n02.symm _ (tallied.everywhere in2))
    exact ⟨holds0.enter_returns_iff.mp ⟨first, ok0⟩, holds1.enter_returns_iff.mp ⟨second, ok1⟩,
      holds2.enter_returns_iff.mp ⟨third, ok2⟩⟩
  · rintro ⟨room0, room1, room2⟩
    obtain ⟨first, ok0⟩ : Returns (counts.enter true hash 0 _) :=
      holds0.enter_returns_iff.mpr room0
    have others0 := (holds0.enter ok0 (by decide)).2
    have holds1 := others0 _ n01.symm _ (tallied.everywhere in1)
    obtain ⟨second, ok1⟩ : Returns (first.enter true hash 1 _) :=
      holds1.enter_returns_iff.mpr room1
    have others1 := (holds1.enter ok1 (by decide)).2
    have holds2 := others1 _ n12.symm _ (others0 _ n02.symm _ (tallied.everywhere in2))
    obtain ⟨third, ok2⟩ := holds2.enter_returns_iff.mpr room2
    exact ⟨first, second, third, ok0, ok1, ok2⟩

/-- A hash that has entered leaves its three positions again. -/
theorem Tallied.leaves (tallied : Tallied geometry counts (hash :: kept) fun _ => False)
    (spread : geometry.Spread) :
    ∃ first second third,
      counts.leave true hash 0 (geometry.positions hash).1 = .ok first ∧
        first.leave true hash 1 (geometry.positions hash).2.1 = .ok second ∧
        second.leave true hash 2 (geometry.positions hash).2.2 = .ok third ∧
        Tallied geometry third kept fun _ => False := by
  obtain ⟨at0, at1, at2⟩ := spread.placeAt hash
  obtain ⟨in0, in1, in2⟩ := spread.within hash
  obtain ⟨n01, n02, n12⟩ := spread.ne hash
  have holds0 := tallied.holds_add in0 at0
  obtain ⟨first, ok0⟩ := holds0.leave_returns (Nat.succ_pos _)
  have step0 := holds0.leave ok0 (by decide)
  have holds1 := step0.2 _ n01.symm _ (tallied.holds_add in1 at1)
  obtain ⟨second, ok1⟩ := holds1.leave_returns (Nat.succ_pos _)
  have step1 := holds1.leave ok1 (by decide)
  have holds2 := step1.2 _ n12.symm _ (step0.2 _ n02.symm _ (tallied.holds_add in2 at2))
  obtain ⟨third, ok2⟩ := holds2.leave_returns (Nat.succ_pos _)
  refine ⟨first, second, third, ok0, ok1, ok2, fun index within _ => ?_⟩
  exact spread.three step0 step1 (holds2.leave ok2 (by decide))
    (fun index absent => tally_cons_of_none kept absent) (tallied.everywhere within)

/-- The counters of a position cancel when a hash meets its copy there, and only then. -/
theorem Tallied.cancels_iff (tallied : Tallied geometry counts (hash :: kept) fun _ => False)
    {index : Nat} {place count : UInt8} {left : UInt64}
    (within : index < geometry.arrayLen.toNat)
    (found : geometry.placeAt hash index = some place)
    (isCount : counts.t2count[index]? = some count) (isLeft : counts.t2hash[index]? = some left) :
    left = 0 ∧ count = 8 ↔ sharing geometry kept index = [hash] := by
  have holds := tallied.holds_add within found
  have value := holds.toNat_count isCount
  have small := holds.small
  have whole := Option.some.inj (isLeft.symm.trans holds.hashes)
  rw [sharing_eq_singleton]
  rw [Tally.add] at value small whole
  dsimp only at value small whole
  constructor
  · rintro ⟨rfl, rfl⟩
    have two : 8 = 4 * ((tally geometry index kept).load + 1) +
      ((tally geometry index kept).places ^^^ place).toNat := value
    refine ⟨by omega, ?_⟩
    exact UInt64.xor_eq_zero_iff.mp whole.symm
  · rintro ⟨one, same⟩
    obtain ⟨other, place', member, found', tallied', -⟩ := exists_of_load_one one
    rw [tallied'] at same value whole
    cases same
    cases found.symm.trans found'
    dsimp only at value whole
    rw [UInt8.xor_self] at value
    rw [UInt64.xor_self] at whole
    exact ⟨whole, UInt8.toNat_inj.mp value⟩

/-- A hash that has entered is taken for a duplicate when it has met a copy. -/
theorem Tallied.duplicate_eq (tallied : Tallied geometry counts (hash :: kept) fun _ => False)
    (spread : geometry.Spread) :
    counts.duplicate (geometry.positions hash) = .ok (decide (IsCopy geometry kept hash)) := by
  obtain ⟨at0, at1, at2⟩ := spread.placeAt hash
  obtain ⟨in0, in1, in2⟩ := spread.within hash
  obtain ⟨count0, isCount0, -⟩ := (tallied.holds_add in0 at0).found
  obtain ⟨count1, isCount1, -⟩ := (tallied.holds_add in1 at1).found
  obtain ⟨count2, isCount2, -⟩ := (tallied.holds_add in2 at2).found
  have isHash0 := (tallied.holds_add in0 at0).hashes
  have isHash1 := (tallied.holds_add in1 at1).hashes
  have isHash2 := (tallied.holds_add in2 at2).hashes
  have copies : IsCopy geometry kept hash ↔ _ ∨ _ ∨ _ :=
    or_congr (tallied.cancels_iff in0 at0 isCount0 isHash0).symm
      (or_congr (tallied.cancels_iff in1 at1 isCount1 isHash1).symm
        (tallied.cancels_iff in2 at2 isCount2 isHash2).symm)
  unfold Counts.duplicate
  dsimp only
  rw [item_of_some isHash0, bind_ok, item_of_some isHash1, bind_ok, item_of_some isHash2, bind_ok,
    item_of_some isCount0, bind_ok, item_of_some isCount1, bind_ok, item_of_some isCount2, bind_ok]
  refine congrArg Except.ok (Bool.eq_iff_iff.mpr ?_)
  simp only [Bool.and_eq_true, Bool.or_eq_true, beq_iff_eq, decide_eq_true_eq, or_assoc]
  rw [copies]
  refine and_iff_right_of_imp fun copy => ?_
  rcases copy with ⟨zero, -⟩ | ⟨zero, -⟩ | ⟨zero, -⟩
  · rw [zero, UInt64.zero_and, UInt64.zero_and]
  · rw [zero, UInt64.and_zero, UInt64.zero_and]
  · rw [zero, UInt64.and_zero]

/-- The counters of a hash that was kept are not below four. -/
theorem Tallied.tooSmall_eq (tallied : Tallied geometry counts kept fun _ => False)
    (spread : geometry.Spread) (member : hash ∈ kept) :
    counts.tooSmall (geometry.positions hash) = .ok false := by
  have perm := tallied.perm (List.perm_cons_erase member)
  obtain ⟨in0, in1, in2⟩ := spread.within hash
  obtain ⟨count0, isCount0, -⟩ := (tallied.everywhere in0).found
  obtain ⟨count1, isCount1, -⟩ := (tallied.everywhere in1).found
  obtain ⟨count2, isCount2, -⟩ := (tallied.everywhere in2).found
  obtain ⟨small, ok⟩ : Returns (counts.tooSmall (geometry.positions hash)) := by
    unfold Counts.tooSmall
    dsimp only
    rw [item_of_some isCount0, bind_ok, item_of_some isCount1, bind_ok, item_of_some isCount2,
      bind_ok]
    exact .pure _
  rw [ok, perm.tooSmall spread ok]

end

/-! ## The counting loop -/

/-- The counting loop has gone through so many hashes, and has kept these. -/
structure Kept (geometry : Geometry) (kept : List UInt64) (seen : Nat) (counting : Counting) :
    Prop where
  tallied : Tallied geometry counting.counts kept fun _ => False
  length : counting.counts.t2count.length = geometry.arrayLen.toNat
  seen : kept.length + counting.duplicates = seen
  error : counting.error = false

section

variable {geometry : Geometry} {kept : List UInt64} {hash : UInt64} {seen : Nat}
  {counting : Counting}

theorem countHash_eq (debug : Bool) (geometry : Geometry) (hash : UInt64) (counting : Counting) :
    countHash debug geometry hash counting =
      counting.counts.enter debug hash 0 (geometry.positions hash).1 >>= fun first =>
        first.enter debug hash 1 (geometry.positions hash).2.1 >>= fun second =>
          second.enter debug hash 2 (geometry.positions hash).2.2 >>= fun third =>
            third.duplicate (geometry.positions hash) >>= fun found =>
              if found then
                third.leave debug hash 0 (geometry.positions hash).1 >>= fun fourth =>
                  fourth.leave debug hash 1 (geometry.positions hash).2.1 >>= fun fifth =>
                    fifth.leave debug hash 2 (geometry.positions hash).2.2 >>= fun sixth =>
                      sixth.tooSmall (geometry.positions hash) >>= fun error =>
                        pure ⟨sixth, counting.duplicates + 1, error⟩
              else
                third.tooSmall (geometry.positions hash) >>= fun error =>
                  pure ⟨third, counting.duplicates, error⟩ := rfl

/-- The counting loop does not return an error. -/
theorem countHash_ne_fail {error : BuildStop} (debug : Bool) (geometry : Geometry) (hash : UInt64)
    (counting : Counting) : countHash debug geometry hash counting ≠ fail error := by
  have adds : ∀ count, addU8 debug count 4 ≠ fail error := by
    intro count
    unfold addU8
    split <;> exact nofun
  have subs : ∀ count, subU8 debug count 4 ≠ fail error := by
    intro count
    unfold subU8
    split <;> exact nofun
  have small : ∀ (counts : Counts) positions, counts.tooSmall positions ≠ fail error := by
    intro counts positions
    refine bind_ne_fail (item_ne_fail _ _) fun _ => bind_ne_fail (item_ne_fail _ _) fun _ => ?_
    exact bind_ne_fail (item_ne_fail _ _) fun _ => nofun
  have copy : ∀ (counts : Counts) positions, counts.duplicate positions ≠ fail error := by
    intro counts positions
    refine bind_ne_fail (item_ne_fail _ _) fun _ => bind_ne_fail (item_ne_fail _ _) fun _ => ?_
    refine bind_ne_fail (item_ne_fail _ _) fun _ => bind_ne_fail (item_ne_fail _ _) fun _ => ?_
    refine bind_ne_fail (item_ne_fail _ _) fun _ => bind_ne_fail (item_ne_fail _ _) fun _ => nofun
  rw [countHash_eq]
  refine bind_ne_fail (Counts.update_ne_fail adds _ _ _ _) fun _ => ?_
  refine bind_ne_fail (Counts.update_ne_fail adds _ _ _ _) fun _ => ?_
  refine bind_ne_fail (Counts.update_ne_fail adds _ _ _ _) fun _ => ?_
  refine bind_ne_fail (copy _ _) fun found => ?_
  cases found with
  | true =>
      refine bind_ne_fail (Counts.update_ne_fail subs _ _ _ _) fun _ => ?_
      refine bind_ne_fail (Counts.update_ne_fail subs _ _ _ _) fun _ => ?_
      refine bind_ne_fail (Counts.update_ne_fail subs _ _ _ _) fun _ => ?_
      exact bind_ne_fail (small _ _) fun _ => nofun
  | false => exact bind_ne_fail (small _ _) fun _ => nofun

theorem countHashes_ne_fail {error : BuildStop} (debug : Bool) (geometry : Geometry)
    (hashes : List UInt64) (counting : Counting) :
    countHashes debug geometry hashes counting ≠ fail error := by
  induction hashes generalizing counting with
  | nil => exact nofun
  | cons hash hashes ih => exact bind_ne_fail (countHash_ne_fail debug geometry hash counting) ih

/-- **One hash is counted** where there is room for it. -/
theorem Kept.step (counted : Kept geometry kept seen counting) (spread : geometry.Spread)
    (room : HasRoom geometry kept hash) :
    ∃ next, countHash true geometry hash counting = .ok next ∧
      Kept geometry (keep geometry kept hash) (seen + 1) next := by
  obtain ⟨first, second, third, ok0, ok1, ok2⟩ := (counted.tallied.enters_iff spread hash).mpr room
  have entered := counted.tallied.enter spread ok0 ok1 ok2 fun _ _ => id
  have length : third.t2count.length = geometry.arrayLen.toNat := by
    rw [Counts.length_of_update ok2, Counts.length_of_update ok1, Counts.length_of_update ok0,
      counted.length]
  have all := counted.seen
  rw [countHash_eq, ok0, bind_ok, ok1, bind_ok, ok2, bind_ok, entered.duplicate_eq spread, bind_ok]
  unfold keep
  split
  · rename_i copy
    have isCopy := of_decide_eq_true copy
    obtain ⟨fourth, fifth, sixth, ok3, ok4, ok5, left⟩ := entered.leaves spread
    rw [ok3, bind_ok, ok4, bind_ok, ok5, bind_ok, left.tooSmall_eq spread isCopy.mem, bind_ok,
      if_pos isCopy]
    refine ⟨_, rfl, left, ?_, ?_, rfl⟩
    · change sixth.t2count.length = _
      rw [Counts.length_of_update ok5, Counts.length_of_update ok4, Counts.length_of_update ok3,
        length]
    · change kept.length + (counting.duplicates + 1) = seen + 1
      omega
  · rename_i new
    have notCopy : ¬ IsCopy geometry kept hash := fun copy => new (decide_eq_true copy)
    rw [entered.tooSmall_eq spread List.mem_cons_self, bind_ok, if_neg notCopy]
    refine ⟨_, rfl, entered, length, ?_, rfl⟩
    change kept.length + 1 + counting.duplicates = seen + 1
    omega

/-- A hash that falls on a full position overflows its counter. -/
theorem Kept.room_of_ok (counted : Kept geometry kept seen counting) (spread : geometry.Spread)
    {next : Counting} (ok : countHash true geometry hash counting = .ok next) :
    HasRoom geometry kept hash := by
  rw [countHash_eq] at ok
  obtain ⟨first, ok0, ok⟩ := bind_eq_ok ok
  obtain ⟨second, ok1, ok⟩ := bind_eq_ok ok
  obtain ⟨third, ok2, -⟩ := bind_eq_ok ok
  exact (counted.tallied.enters_iff spread hash).mp ⟨first, second, third, ok0, ok1, ok2⟩

/-- **The counting loop goes through** exactly when no hash falls on a full position. -/
theorem countHashes_returns_iff {hashes : List UInt64} (counted : Kept geometry kept seen counting)
    (spread : geometry.Spread) :
    Returns (countHashes true geometry hashes counting) ↔ Uncrowded geometry kept hashes := by
  induction hashes generalizing kept seen counting with
  | nil => exact iff_of_true (.pure _) trivial
  | cons hash hashes ih =>
      unfold countHashes Uncrowded
      by_cases room : HasRoom geometry kept hash
      · obtain ⟨next, ok, counted'⟩ := counted.step spread room
        rw [ok, bind_ok, ih counted', and_iff_right room]
      · refine iff_of_false ?_ fun uncrowded => room uncrowded.1
        rintro ⟨final, ok⟩
        obtain ⟨next, ok, -⟩ := bind_eq_ok ok
        exact room (counted.room_of_ok spread ok)

/-- Where the loop does not go through, a counter overflows. -/
theorem countHashes_panics {hashes : List UInt64} (counted : Kept geometry kept seen counting)
    (spread : geometry.Spread) (crowded : ¬ Uncrowded geometry kept hashes) :
    countHashes true geometry hashes counting = .error .panic := by
  cases ends : countHashes true geometry hashes counting with
  | ok counting' =>
      exact absurd ((countHashes_returns_iff counted spread).mp ⟨counting', ends⟩) crowded
  | error stop =>
      cases stop with
      | panic => rfl
      | err error => exact absurd ends (countHashes_ne_fail true geometry hashes counting)

/-- What the counting loop has counted. -/
theorem countHashes_kept {hashes : List UInt64} {counting' : Counting}
    (counted : Kept geometry kept seen counting) (spread : geometry.Spread)
    (ok : countHashes true geometry hashes counting = .ok counting') :
    ∃ kept', Kept geometry kept' (seen + hashes.length) counting' := by
  induction hashes generalizing kept seen counting with
  | nil =>
      cases ok
      exact ⟨kept, counted⟩
  | cons hash hashes ih =>
      obtain ⟨next, first, rest⟩ := bind_eq_ok ok
      obtain ⟨next', first', counted'⟩ := counted.step spread (counted.room_of_ok spread first)
      cases first.symm.trans first'
      obtain ⟨kept', final⟩ := ih counted' rest
      rw [List.length_cons, Nat.add_comm hashes.length, ← Nat.add_assoc]
      exact ⟨kept', final⟩

end

end VideoStorage.Xorf
