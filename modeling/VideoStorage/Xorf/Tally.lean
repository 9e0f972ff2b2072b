import VideoStorage.Library.Mixing
import VideoStorage.Xorf.Construction

/-!
# What the counters count

A hash has three different positions, one in each of three consecutive segments.
The tally of a position is taken over a list of hashes: how many of them have it
among their positions, and the exclusive or of these hashes and of their places.

The counters of a position hold a tally: the 8-bit one the number and the places,
packed, the 64-bit one the hashes. A hash that enters or leaves changes the tally
by that hash (`Holds.enter`, `Holds.leave`), as long as the 8-bit counter does not
overflow. The counting loop counts distinct hashes, and never takes one for a
duplicate (`countHashes_ok`).
-/

set_option autoImplicit false

namespace VideoStorage.Xorf

open RustStd Mixing

/-! ## The hash of a key -/

theorem mix64_injective : Function.Injective mix64 := by
  have first : (0xff51afd7ed558ccd : UInt64) * 0x4f74430c22a54005 = 1 := by decide
  have second : (0xc4ceb9fe1a85ec53 : UInt64) * 0x9cb4b2f8129337db = 1 := by decide
  have shift := xorShiftRight_injective (s := 33) (by decide) (by decide)
  exact shift.comp ((mul_injective second).comp (shift.comp ((mul_injective first).comp shift)))

theorem mix_injective (seed : UInt64) : Function.Injective fun key => mix key seed := by
  intro key key' same
  exact (UInt64.add_left_inj seed).mp (mix64_injective same)

/-! ## Positions -/

/-- Flipping low bits of a number does not change its block. -/
theorem xor_div_of_lt {a low bits : Nat} (small : low < 1 <<< bits) :
    (a ^^^ low) / (1 <<< bits) = a / (1 <<< bits) := by
  rw [Nat.one_shiftLeft] at small ⊢
  rw [Nat.xor_div_two_pow, Nat.div_eq_of_lt small, Nat.xor_zero]

/-- The segments of the three positions of a hash are consecutive. -/
theorem Segmented.positions_div {segmentLength segmentLengthMask segmentCountLength : UInt32}
    {arrayLen bits segmentCount : Nat}
    (segmented : Segmented segmentLength segmentLengthMask segmentCountLength arrayLen bits
      segmentCount) (hash : UInt64) :
    ∃ segment,
      (hashOfHash hash segmentLength segmentLengthMask segmentCountLength).1.toNat /
          (1 <<< bits) = segment ∧
        (hashOfHash hash segmentLength segmentLengthMask segmentCountLength).2.1.toNat /
          (1 <<< bits) = segment + 1 ∧
        (hashOfHash hash segmentLength segmentLengthMask segmentCountLength).2.2.toNat /
          (1 <<< bits) = segment + 2 := by
  have power : 0 < 1 <<< bits := Nat.shiftLeft_pos_iff.mpr Nat.one_pos
  have masked := segmented.masked_lt
  obtain ⟨h0, h1, h2⟩ := segmented.starts_toNat (segmented.first_lt hash)
  refine ⟨(hash.toNat * segmentCountLength.toNat) >>> 64 / (1 <<< bits), ?_, ?_, ?_⟩
  · change (UInt64.ofNat _).toUInt32.toNat / _ = _
    rw [h0]
  · change ((UInt64.ofNat _).toUInt32 + segmentLength ^^^ _).toNat / _ = _
    rw [UInt32.toNat_xor, h1, xor_div_of_lt (masked _), Nat.add_div_right _ power]
  · change ((UInt64.ofNat _).toUInt32 + segmentLength + segmentLength ^^^ _).toNat / _ = _
    rw [UInt32.toNat_xor, h2, xor_div_of_lt (masked _), Nat.add_div_right _ power,
      Nat.add_div_right _ power]

/-- **Three positions**, different and inside the array. -/
structure ThreePositions (positions : UInt32 × UInt32 × UInt32) (arrayLen : Nat) : Prop where
  different : positions.1 ≠ positions.2.1 ∧ positions.1 ≠ positions.2.2 ∧
    positions.2.1 ≠ positions.2.2
  inside : positions.1.toNat < arrayLen ∧ positions.2.1.toNat < arrayLen ∧
    positions.2.2.toNat < arrayLen

theorem Segmented.threePositions {segmentLength segmentLengthMask segmentCountLength : UInt32}
    {arrayLen bits segmentCount : Nat}
    (segmented : Segmented segmentLength segmentLengthMask segmentCountLength arrayLen bits
      segmentCount) (hash : UInt64) :
    ThreePositions (hashOfHash hash segmentLength segmentLengthMask segmentCountLength)
      arrayLen where
  different := by
    obtain ⟨segment, h0, h1, h2⟩ := segmented.positions_div hash
    refine ⟨fun same => ?_, fun same => ?_, fun same => ?_⟩
    · rw [same, h1] at h0
      omega
    · rw [same, h2] at h0
      omega
    · rw [same, h2] at h1
      omega
  inside := segmented.positions_lt hash

namespace Geometry

/-- The positions of every hash are different, and inside the array. -/
def Spread (geometry : Geometry) : Prop :=
  ∀ hash, ThreePositions (hashOfHash hash geometry.segmentLength geometry.segmentLengthMask
    geometry.segmentCountLength) geometry.arrayLen.toNat

/-- The place of a position among those of a hash. -/
def placeAt (geometry : Geometry) (hash : UInt64) (index : Nat) : Option UInt8 :=
  if index = (geometry.positions hash).1 then some 0
  else if index = (geometry.positions hash).2.1 then some 1
  else if index = (geometry.positions hash).2.2 then some 2
  else none

variable {geometry : Geometry}

theorem Spread.ne (spread : geometry.Spread) (hash : UInt64) :
    (geometry.positions hash).1 ≠ (geometry.positions hash).2.1 ∧
      (geometry.positions hash).1 ≠ (geometry.positions hash).2.2 ∧
      (geometry.positions hash).2.1 ≠ (geometry.positions hash).2.2 := by
  obtain ⟨d01, d02, d12⟩ := (spread hash).different
  exact ⟨mt UInt32.toNat_inj.mp d01, mt UInt32.toNat_inj.mp d02, mt UInt32.toNat_inj.mp d12⟩

theorem Spread.within (spread : geometry.Spread) (hash : UInt64) :
    (geometry.positions hash).1 < geometry.arrayLen.toNat ∧
      (geometry.positions hash).2.1 < geometry.arrayLen.toNat ∧
      (geometry.positions hash).2.2 < geometry.arrayLen.toNat := (spread hash).inside

theorem spread_of_compute {debug : Bool} {sizing : Sizing} {size : Nat}
    (ok : Geometry.compute debug sizing size = .ok geometry) : geometry.Spread := by
  obtain ⟨bits, segmentCount, segmented⟩ := Geometry.compute_ok ok
  exact segmented.threePositions

theorem placeAt_lt {hash : UInt64} {index : Nat} {place : UInt8}
    (found : geometry.placeAt hash index = some place) : place < 3 := by
  unfold placeAt at found
  split_ifs at found <;> cases found <;> decide

end Geometry

/-! ## Tallies -/

/-- How many hashes have a position, and the exclusive or of their places there
and of the hashes. -/
structure Tally where
  load : Nat
  places : UInt8
  hashes : UInt64

namespace Tally

def none : Tally := ⟨0, 0, 0⟩

/-- One more hash. -/
def add (tally : Tally) (hash : UInt64) (place : UInt8) : Tally :=
  ⟨tally.load + 1, tally.places ^^^ place, tally.hashes ^^^ hash⟩

theorem add_comm (tally : Tally) (hash hash' : UInt64) (place place' : UInt8) :
    (tally.add hash place).add hash' place' = (tally.add hash' place').add hash place := by
  rw [add, add, add, add, UInt8.xor_assoc, UInt8.xor_comm place, ← UInt8.xor_assoc,
    UInt64.xor_assoc, UInt64.xor_comm hash, ← UInt64.xor_assoc]

end Tally

section

variable (geometry : Geometry) (index : Nat)

/-- The tally of a position over a list of hashes. -/
def tally : List UInt64 → Tally
  | [] => .none
  | hash :: hashes =>
      match geometry.placeAt hash index with
      | some place => (tally hashes).add hash place
      | none => tally hashes

variable {geometry index}

theorem tally_cons_of_some {hash : UInt64} {place : UInt8} (hashes : List UInt64)
    (found : geometry.placeAt hash index = some place) :
    tally geometry index (hash :: hashes) = (tally geometry index hashes).add hash place := by
  rw [tally, found]

theorem tally_cons_of_none {hash : UInt64} (hashes : List UInt64)
    (absent : geometry.placeAt hash index = none) :
    tally geometry index (hash :: hashes) = tally geometry index hashes := by
  rw [tally, absent]

/-- The order of the hashes does not matter. -/
theorem tally_perm {hashes hashes' : List UInt64} (same : hashes.Perm hashes') :
    tally geometry index hashes = tally geometry index hashes' := by
  induction same with
  | nil => rfl
  | cons hash _ ih => rw [tally, tally, ih]
  | swap hash hash' rest =>
      cases here : geometry.placeAt hash index with
      | none => simp only [tally, here]
      | some place =>
          cases here' : geometry.placeAt hash' index with
          | none => simp only [tally, here, here']
          | some place' =>
              simp only [tally, here, here']
              exact Tally.add_comm ..
  | trans _ _ first second => exact first.trans second

/-- Nothing is tallied where no hash has the position. -/
theorem tally_of_load_zero {hashes : List UInt64} (zero : (tally geometry index hashes).load = 0) :
    tally geometry index hashes = .none ∧
      ∀ hash ∈ hashes, geometry.placeAt hash index = none := by
  induction hashes with
  | nil => exact ⟨rfl, nofun⟩
  | cons hash hashes ih =>
      cases here : geometry.placeAt hash index with
      | some place =>
          rw [tally_cons_of_some _ here] at zero
          cases zero
      | none =>
          rw [tally_cons_of_none _ here] at zero ⊢
          obtain ⟨empty, absent⟩ := ih zero
          exact ⟨empty, List.forall_mem_cons.mpr ⟨here, absent⟩⟩

/-- Where one hash has the position, the tally is that hash. -/
theorem exists_of_load_one {hashes : List UInt64}
    (one : (tally geometry index hashes).load = 1) :
    ∃ hash place, hash ∈ hashes ∧ geometry.placeAt hash index = some place ∧
      tally geometry index hashes = ⟨1, place, hash⟩ ∧
      ∀ other ∈ hashes.erase hash, geometry.placeAt other index = none := by
  induction hashes with
  | nil => cases one
  | cons first hashes ih =>
      cases here : geometry.placeAt first index with
      | some place =>
          rw [tally_cons_of_some _ here] at one ⊢
          obtain ⟨empty, absent⟩ := tally_of_load_zero (Nat.succ.inj one)
          refine ⟨first, place, List.mem_cons_self, here, ?_, ?_⟩
          · rw [empty, Tally.add, Tally.none, UInt8.zero_xor, UInt64.zero_xor]
          · rwa [List.erase_cons_head]
      | none =>
          rw [tally_cons_of_none _ here] at one ⊢
          obtain ⟨hash, place, member, found, whole, absent⟩ := ih one
          have other : first ≠ hash := by
            rintro rfl
            rw [here] at found
            cases found
          refine ⟨hash, place, List.mem_cons_of_mem _ member, found, whole, ?_⟩
          rw [List.erase_cons_tail (by simpa using other)]
          exact List.forall_mem_cons.mpr ⟨here, absent⟩

/-- Two different hashes do not cancel. -/
theorem hashes_ne_zero_of_load_two {hashes : List UInt64} (distinct : hashes.Nodup)
    (two : (tally geometry index hashes).load = 2) :
    (tally geometry index hashes).hashes ≠ 0 := by
  induction hashes with
  | nil => cases two
  | cons first hashes ih =>
      obtain ⟨notMember, rest⟩ := List.nodup_cons.mp distinct
      cases here : geometry.placeAt first index with
      | none =>
          rw [tally_cons_of_none _ here] at two ⊢
          exact ih rest two
      | some place =>
          rw [tally_cons_of_some _ here] at two ⊢
          obtain ⟨hash, _, member, _, whole, _⟩ := exists_of_load_one (Nat.succ.inj two)
          rw [whole, Tally.add]
          intro cancels
          rw [UInt64.xor_eq_zero_iff] at cancels
          exact notMember (cancels ▸ member)

end

/-! ## Counters -/

theorem item_ok {ε α : Type} {array : List α} {i : Nat} {value : α}
    (ok : item (ε := ε) array i = .ok value) : array[i]? = some value := by
  unfold item at ok
  split at ok
  · rename_i found
    cases ok
    exact found
  · cases ok

theorem setItem_ok {ε α : Type} {array next : List α} {i : Nat} {value : α}
    (ok : setItem (ε := ε) array i value = .ok next) :
    i < array.length ∧ next = array.set i value := by
  unfold setItem at ok
  split at ok
  · rename_i within
    cases ok
    exact ⟨within, rfl⟩
  · cases ok

namespace Counts

theorem update_ok {counts counts' : Counts} {change : UInt8 → Build UInt8} {hash : UInt64}
    {place : UInt8} {index : Nat} (ok : counts.update change hash place index = .ok counts') :
    ∃ count changed old, counts.t2count[index]? = some count ∧ change count = .ok changed ∧
      counts.t2hash[index]? = some old ∧ counts' = ⟨counts.t2count.set index (changed ^^^ place),
        counts.t2hash.set index (old ^^^ hash)⟩ := by
  obtain ⟨count, foundCount, ok⟩ := bind_eq_ok ok
  obtain ⟨changed, change, ok⟩ := bind_eq_ok ok
  obtain ⟨t2count, setCount, ok⟩ := bind_eq_ok ok
  obtain ⟨old, foundOld, ok⟩ := bind_eq_ok ok
  obtain ⟨t2hash, setHash, here⟩ := bind_eq_ok ok
  cases here
  exact ⟨count, changed, old, item_ok foundCount, change, item_ok foundOld, by
    rw [(setItem_ok setCount).2, (setItem_ok setHash).2]⟩

theorem length_of_update {counts counts' : Counts} {change : UInt8 → Build UInt8} {hash : UInt64}
    {place : UInt8} {index : Nat} (ok : counts.update change hash place index = .ok counts') :
    counts'.t2count.length = counts.t2count.length := by
  obtain ⟨_, _, _, _, _, _, rfl⟩ := update_ok ok
  exact List.length_set ..

/-- The counters of a position hold a tally. -/
structure Holds (counts : Counts) (index : Nat) (tally : Tally) : Prop where
  count : counts.t2count[index]?.map UInt8.toNat = some (4 * tally.load + tally.places.toNat)
  hashes : counts.t2hash[index]? = some tally.hashes
  small : tally.places.toNat < 4

variable {counts counts' : Counts} {hash : UInt64} {place : UInt8} {index : Nat} {t : Tally}

theorem Holds.toNat_count {count : UInt8} (holds : counts.Holds index t)
    (found : counts.t2count[index]? = some count) :
    count.toNat = 4 * t.load + t.places.toNat := by
  have held := holds.count
  rw [found, Option.map_some] at held
  exact Option.some.inj held

/-- An exclusive or with a place changes the two low bits only. -/
theorem toNat_xor_place {count : UInt8} {load places : Nat}
    (value : count.toNat = 4 * load + places) (small : places < 4) (low : place.toNat < 4) :
    (count ^^^ place).toNat = 4 * load + (places ^^^ place.toNat) := by
  have quotient : (count ^^^ place).toNat / 4 = load := by
    rw [UInt8.toNat_xor, show 4 = 2 ^ 2 from rfl, Nat.xor_div_two_pow, value]
    rw [show (4 * load + places) / 2 ^ 2 = load by omega, Nat.div_eq_of_lt low, Nat.xor_zero]
  have rest : (count ^^^ place).toNat % 4 = places ^^^ place.toNat := by
    rw [UInt8.toNat_xor, show 4 = 2 ^ 2 from rfl, Nat.xor_mod_two_pow, value]
    rw [show (4 * load + places) % 2 ^ 2 = places by omega, Nat.mod_eq_of_lt low]
  omega

/-- The counters of a position after an update, and those of the others. -/
theorem Holds.update {change : UInt8 → Build UInt8} {load : Nat}
    (ok : counts.update change hash place index = .ok counts') (holds : counts.Holds index t)
    (low : place < 3)
    (changes : ∀ count changed, count.toNat = 4 * t.load + t.places.toNat →
      change count = .ok changed → changed.toNat = 4 * load + t.places.toNat) :
    counts'.Holds index ⟨load, t.places ^^^ place, t.hashes ^^^ hash⟩ ∧
      ∀ other ≠ index, ∀ t', counts.Holds other t' → counts'.Holds other t' := by
  obtain ⟨count, changed, old, foundCount, change, foundOld, rfl⟩ := update_ok ok
  have next := changes count changed (holds.toNat_count foundCount) change
  have within := (List.getElem?_eq_some_iff.mp foundCount).1
  have withinHash := (List.getElem?_eq_some_iff.mp foundOld).1
  have isOld := Option.some.inj (foundOld.symm.trans holds.hashes)
  have lowNat : place.toNat < 4 := Nat.lt_trans (UInt8.lt_iff_toNat_lt.mp low) (by decide)
  have small := holds.small
  refine ⟨⟨?_, ?_, ?_⟩, fun other different t' holds' => ⟨?_, ?_, holds'.small⟩⟩
  · dsimp only
    rw [List.getElem?_set_self within, Option.map_some, toNat_xor_place next small lowNat,
      UInt8.toNat_xor]
  · dsimp only
    rw [List.getElem?_set_self withinHash, isOld]
  · dsimp only
    rw [UInt8.toNat_xor]
    exact Nat.xor_lt_two_pow (n := 2) small lowNat
  · dsimp only
    rw [List.getElem?_set_ne (Ne.symm different)]
    exact holds'.count
  · dsimp only
    rw [List.getElem?_set_ne (Ne.symm different)]
    exact holds'.hashes

/-- A hash enters the tally of its position; the other positions stay. -/
theorem Holds.enter (ok : counts.enter true hash place index = .ok counts')
    (holds : counts.Holds index t) (low : place < 3) :
    counts'.Holds index (t.add hash place) ∧
      ∀ other ≠ index, ∀ t', counts.Holds other t' → counts'.Holds other t' := by
  refine holds.update ok low fun count changed value change => ?_
  unfold addU8 at change
  split at change
  · cases change
  · rename_i overflows
    cases change
    have fits : count.toNat + (4 : UInt8).toNat < UInt8.size := by
      by_contra large
      exact overflows ⟨rfl, Nat.le_of_not_lt large⟩
    rw [UInt8.toNat_add, Nat.mod_eq_of_lt fits, value]
    change _ + 4 = _
    omega

/-- A hash leaves the tally of its position; the other positions stay. -/
theorem Holds.leave (ok : counts.leave true hash place index = .ok counts')
    (holds : counts.Holds index (t.add hash place)) (low : place < 3) :
    counts'.Holds index t ∧
      ∀ other ≠ index, ∀ t', counts.Holds other t' → counts'.Holds other t' := by
  have changes : ∀ count changed : UInt8,
      count.toNat = 4 * (t.load + 1) + (t.places ^^^ place).toNat →
      subU8 true count 4 = .ok changed →
      changed.toNat = 4 * t.load + (t.places ^^^ place).toNat := by
    intro count changed value change
    unfold subU8 at change
    split at change
    · cases change
    · rename_i fits
      cases change
      have least : (4 : UInt8) ≤ count := UInt8.not_lt.mp fun less => fits ⟨rfl, less⟩
      rw [UInt8.toNat_sub_of_le _ _ least, value]
      change _ - 4 = _
      omega
  obtain ⟨here, others⟩ := holds.update ok low changes
  refine ⟨?_, others⟩
  rwa [Tally.add, UInt8.xor_assoc, UInt8.xor_self, UInt8.xor_zero, UInt64.xor_assoc,
    UInt64.xor_self, UInt64.xor_zero] at here

end Counts

/-! ## The counting loop -/

/-- The counters hold the tally of a list at every position outside some. -/
def Tallied (geometry : Geometry) (counts : Counts) (hashes : List UInt64)
    (closed : Nat → Prop) : Prop :=
  ∀ index < geometry.arrayLen.toNat, ¬ closed index →
    counts.Holds index (tally geometry index hashes)

section

variable {geometry : Geometry}

/-- The places of the three positions of a hash. -/
theorem Geometry.Spread.placeAt (spread : geometry.Spread) (hash : UInt64) :
    geometry.placeAt hash (geometry.positions hash).1 = some 0 ∧
      geometry.placeAt hash (geometry.positions hash).2.1 = some 1 ∧
      geometry.placeAt hash (geometry.positions hash).2.2 = some 2 := by
  obtain ⟨n01, n02, n12⟩ := spread.ne hash
  unfold Geometry.placeAt
  refine ⟨?_, ?_, ?_⟩
  · exact if_pos rfl
  · rw [if_neg n01.symm]
    exact if_pos rfl
  · rw [if_neg n02.symm, if_neg n12.symm]
    exact if_pos rfl

/-- A position without a place is none of the three. -/
theorem Geometry.placeAt_eq_none {hash : UInt64} {index : Nat}
    (absent : geometry.placeAt hash index = none) :
    index ≠ (geometry.positions hash).1 ∧ index ≠ (geometry.positions hash).2.1 ∧
      index ≠ (geometry.positions hash).2.2 := by
  unfold Geometry.placeAt at absent
  split_ifs at absent with h0 h1 h2
  exact ⟨h0, h1, h2⟩

variable {counts counts' : Counts} {hash : UInt64} {hashes : List UInt64} {closed : Nat → Prop}

theorem Tallied.perm {hashes' : List UInt64} (tallied : Tallied geometry counts hashes closed)
    (same : hashes.Perm hashes') : Tallied geometry counts hashes' closed := by
  intro index within opened
  rw [← tally_perm same]
  exact tallied index within opened

/-- Three updates, each at one of the positions of a hash, change the tallies of these. -/
theorem Geometry.Spread.three {first second third : Counts} {before after : Nat → Tally}
    (spread : geometry.Spread)
    (step0 : first.Holds (geometry.positions hash).1 (after (geometry.positions hash).1) ∧
      ∀ other ≠ (geometry.positions hash).1, ∀ t, counts.Holds other t → first.Holds other t)
    (step1 : second.Holds (geometry.positions hash).2.1 (after (geometry.positions hash).2.1) ∧
      ∀ other ≠ (geometry.positions hash).2.1, ∀ t, first.Holds other t → second.Holds other t)
    (step2 : third.Holds (geometry.positions hash).2.2 (after (geometry.positions hash).2.2) ∧
      ∀ other ≠ (geometry.positions hash).2.2, ∀ t, second.Holds other t → third.Holds other t)
    (rest : ∀ index, geometry.placeAt hash index = none → before index = after index)
    {index : Nat} (holds : counts.Holds index (before index)) :
    third.Holds index (after index) := by
  obtain ⟨n01, n02, n12⟩ := spread.ne hash
  obtain ⟨here0, others0⟩ := step0
  obtain ⟨here1, others1⟩ := step1
  obtain ⟨here2, others2⟩ := step2
  by_cases is0 : index = (geometry.positions hash).1
  · subst is0
    exact others2 _ n02 _ (others1 _ n01 _ here0)
  · by_cases is1 : index = (geometry.positions hash).2.1
    · subst is1
      exact others2 _ n12 _ here1
    · by_cases is2 : index = (geometry.positions hash).2.2
      · subst is2
        exact here2
      · have absent : geometry.placeAt hash index = none := by
          rw [Geometry.placeAt, if_neg is0, if_neg is1, if_neg is2]
        rw [← rest index absent]
        exact others2 _ is2 _ (others1 _ is1 _ (others0 _ is0 _ holds))

/-- A hash enters at its three positions. -/
theorem Tallied.enter {first second : Counts} (tallied : Tallied geometry counts hashes closed)
    (spread : geometry.Spread)
    (ok0 : counts.enter true hash 0 (geometry.positions hash).1 = .ok first)
    (ok1 : first.enter true hash 1 (geometry.positions hash).2.1 = .ok second)
    (ok2 : second.enter true hash 2 (geometry.positions hash).2.2 = .ok counts')
    (opened : ∀ index, geometry.placeAt hash index ≠ none → ¬ closed index) :
    Tallied geometry counts' (hash :: hashes) closed := by
  obtain ⟨at0, at1, at2⟩ := spread.placeAt hash
  obtain ⟨in0, in1, in2⟩ := spread.within hash
  have before := fun index within place (found : geometry.placeAt hash index = some place) =>
    tallied index within (opened index (by rw [found]; exact nofun))
  obtain ⟨n01, n02, n12⟩ := spread.ne hash
  have step0 := (before _ in0 _ at0).enter ok0 (by decide)
  have step1 := (step0.2 _ n01.symm _ (before _ in1 _ at1)).enter ok1 (by decide)
  have step2 := (step1.2 _ n12.symm _ (step0.2 _ n02.symm _ (before _ in2 _ at2))).enter ok2
    (by decide)
  rw [← tally_cons_of_some hashes at0] at step0
  rw [← tally_cons_of_some hashes at1] at step1
  rw [← tally_cons_of_some hashes at2] at step2
  intro index within free
  exact spread.three step0 step1 step2
    (fun index absent => (tally_cons_of_none hashes absent).symm) (tallied index within free)

/-- Two hashes at a position do not cancel there. -/
theorem Counts.Holds.not_cancelled {index : Nat} {left : UInt64} {count : UInt8}
    (holds : counts.Holds index (tally geometry index hashes)) (distinct : hashes.Nodup)
    (isLeft : counts.t2hash[index]? = some left) (isCount : counts.t2count[index]? = some count) :
    left ≠ 0 ∨ count ≠ 8 := by
  by_cases eight : count = 8
  · have value := holds.toNat_count isCount
    have small := holds.small
    have two : (tally geometry index hashes).load = 2 := by
      rw [eight] at value
      change 8 = _ at value
      omega
    rw [Option.some.inj (isLeft.symm.trans holds.hashes)]
    exact .inl (hashes_ne_zero_of_load_two distinct two)
  · exact .inr eight

/-- No hash is taken for a duplicate. -/
theorem Tallied.duplicate (tallied : Tallied geometry counts hashes fun _ => False)
    (spread : geometry.Spread) (distinct : hashes.Nodup) {found : Bool}
    (ok : counts.duplicate (geometry.positions hash) = .ok found) : found = false := by
  obtain ⟨in0, in1, in2⟩ := (spread hash).inside
  obtain ⟨hash1, isHash1, ok⟩ := bind_eq_ok ok
  obtain ⟨hash2, isHash2, ok⟩ := bind_eq_ok ok
  obtain ⟨hash3, isHash3, ok⟩ := bind_eq_ok ok
  obtain ⟨count1, isCount1, ok⟩ := bind_eq_ok ok
  obtain ⟨count2, isCount2, ok⟩ := bind_eq_ok ok
  obtain ⟨count3, isCount3, ok⟩ := bind_eq_ok ok
  have not1 : hash1 ≠ 0 ∨ count1 ≠ 8 :=
    (tallied _ in0 nofun).not_cancelled distinct (item_ok isHash1) (item_ok isCount1)
  have not2 : hash2 ≠ 0 ∨ count2 ≠ 8 :=
    (tallied _ in1 nofun).not_cancelled distinct (item_ok isHash2) (item_ok isCount2)
  have not3 : hash3 ≠ 0 ∨ count3 ≠ 8 :=
    (tallied _ in2 nofun).not_cancelled distinct (item_ok isHash3) (item_ok isCount3)
  cases ok
  simp only [Bool.and_eq_false_iff, Bool.or_eq_false_iff, beq_eq_false_iff_ne]
  exact .inr ⟨⟨not1, not2⟩, not3⟩

/-- A position of a hash that was entered has a counter of four at least. -/
theorem Counts.Holds.four_le {index : Nat} {place count : UInt8}
    (holds : counts.Holds index (tally geometry index (hash :: hashes)))
    (found : geometry.placeAt hash index = some place)
    (counted : counts.t2count[index]? = some count) : ¬ count < 4 := by
  have value := holds.toNat_count counted
  rw [tally_cons_of_some _ found] at value
  rw [UInt8.lt_iff_toNat_lt, value]
  change ¬ 4 * (_ + 1) + _ < 4
  omega

/-- No counter of a hash that was entered is too small. -/
theorem Tallied.tooSmall (tallied : Tallied geometry counts (hash :: hashes) fun _ => False)
    (spread : geometry.Spread) {small : Bool}
    (ok : counts.tooSmall (geometry.positions hash) = .ok small) : small = false := by
  obtain ⟨at0, at1, at2⟩ := spread.placeAt hash
  obtain ⟨in0, in1, in2⟩ := (spread hash).inside
  obtain ⟨count1, isCount1, ok⟩ := bind_eq_ok ok
  obtain ⟨count2, isCount2, ok⟩ := bind_eq_ok ok
  obtain ⟨count3, isCount3, ok⟩ := bind_eq_ok ok
  have not1 := (tallied _ in0 nofun).four_le at0 (item_ok isCount1)
  have not2 := (tallied _ in1 nofun).four_le at1 (item_ok isCount2)
  have not3 := (tallied _ in2 nofun).four_le at2 (item_ok isCount3)
  cases ok
  simp only [Bool.or_eq_false_iff, decide_eq_false_iff_not]
  exact ⟨⟨not1, not2⟩, not3⟩

/-- The counting loop has gone through some hashes: all are distinct and counted. -/
structure Counted (geometry : Geometry) (hashes : List UInt64) (counting : Counting) : Prop where
  tallied : Tallied geometry counting.counts hashes fun _ => False
  length : counting.counts.t2count.length = geometry.arrayLen.toNat
  duplicates : counting.duplicates = 0
  error : counting.error = false

theorem Counted.step {counting counting' : Counting} (counted : Counted geometry hashes counting)
    (spread : geometry.Spread) (distinct : (hash :: hashes).Nodup)
    (ok : countHash true geometry hash counting = .ok counting') :
    Counted geometry (hash :: hashes) counting' := by
  obtain ⟨first, ok0, ok⟩ := bind_eq_ok ok
  obtain ⟨second, ok1, ok⟩ := bind_eq_ok ok
  obtain ⟨third, ok2, ok⟩ := bind_eq_ok ok
  have tallied := counted.tallied.enter spread ok0 ok1 ok2 fun _ _ => id
  obtain ⟨duplicate, found, ok⟩ := bind_eq_ok ok
  cases tallied.duplicate spread distinct found
  rw [if_neg Bool.false_ne_true] at ok
  obtain ⟨small, checked, here⟩ := bind_eq_ok ok
  cases here
  have length : third.t2count.length = geometry.arrayLen.toNat := by
    rw [Counts.length_of_update ok2, Counts.length_of_update ok1, Counts.length_of_update ok0,
      counted.length]
  exact ⟨tallied, length, counted.duplicates, tallied.tooSmall spread checked⟩

/-- **The counting loop** counts distinct hashes. -/
theorem countHashes_ok {counting counting' : Counting} {more : List UInt64}
    (counted : Counted geometry hashes counting) (spread : geometry.Spread)
    (distinct : (more ++ hashes).Nodup)
    (ok : countHashes true geometry more counting = .ok counting') :
    Counted geometry (more ++ hashes) counting' := by
  induction more generalizing hashes counting with
  | nil =>
      cases ok
      exact counted
  | cons hash more ih =>
      have order : (hash :: more ++ hashes).Perm (more ++ hash :: hashes) :=
        List.perm_middle.symm
      have distinct' := order.nodup_iff.mp distinct
      obtain ⟨next, first, rest⟩ := bind_eq_ok ok
      have step := counted.step spread (List.nodup_append.mp distinct').2.1 first
      have counted' := ih step distinct' rest
      exact { counted' with tallied := counted'.tallied.perm order.symm }

end

end VideoStorage.Xorf
