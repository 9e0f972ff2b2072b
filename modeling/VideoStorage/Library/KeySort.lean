import Mathlib.Data.List.Nodup
import Mathlib.Data.List.Pairwise
import Mathlib.Data.List.Sort
import Mathlib.Logic.Basic

/-!
# Sorting by a key, and keeping one entry for each

An unstable sort by a key gives the entries in the order of their keys, and leaves open
in which order those of one key come. It sees the keys alone: whatever the entries hold
beside them, the same keys are moved in the same way (`UnstableSort`).

**The rule of one entry for each key.** Sorting and then keeping the first entry of each
key gives keys that strictly increase (`increasing_sortDedup`). When entries of one key
are the same, the result is given by the set of entries, and otherwise it is not
(`sortDedup_congr_iff`): of two with one key either stands for it, in some order of the
entries (`exists_perm_lookup`).
-/

set_option autoImplicit false

namespace KeySort

variable {K V : Type}

/-! ## Increasing keys -/

/-- Entries of one key are the same. -/
def Consistent (entries : List (K × V)) : Prop :=
  ∀ a ∈ entries, ∀ b ∈ entries, a.1 = b.1 → a = b

/-- Of entries with different keys there is one for each. -/
theorem consistent_of_distinct {entries : List (K × V)}
    (distinct : entries.Pairwise fun a b => a.1 ≠ b.1) : Consistent entries := by
  have symmetric : Std.Symm fun a b : K × V => a.1 ≠ b.1 := ⟨fun _ _ => Ne.symm⟩
  intro a inside b inside' same
  by_contra other
  exact distinct.forall inside inside' other same

/-- Entries with increasing keys are given by their set. -/
theorem eq_of_increasing [LE K] [LT K] [Std.IsLinearOrder K] [Std.LawfulOrderLT K]
    {entries entries' : List (K × V)} (increasing : entries.Pairwise fun a b => a.1 < b.1)
    (increasing' : entries'.Pairwise fun a b => a.1 < b.1)
    (same : ∀ entry, entry ∈ entries ↔ entry ∈ entries') : entries = entries' := by
  have nodup : ∀ {l : List (K × V)}, l.Pairwise (fun a b => a.1 < b.1) → l.Nodup :=
    fun increasing => increasing.imp fun less equal => Std.ne_of_lt less (congrArg Prod.fst equal)
  refine List.Perm.eq_of_pairwise (fun a b _ _ less more => ?_) increasing increasing'
    ((List.perm_ext_iff_of_nodup (nodup increasing) (nodup increasing')).mpr same)
  exact absurd (Std.lt_trans less more) Std.lt_irrefl

/-! ## One entry for each key -/

section Dedup

variable [DecidableEq K]

/-- Remove the entries with the key of the entry kept last. -/
def dedupAfter (last : K) : List (K × V) → List (K × V)
  | [] => []
  | entry :: rest =>
      if entry.1 = last then dedupAfter last rest else entry :: dedupAfter entry.1 rest

/-- `dedup_by_key`: of consecutive entries with one key the first is kept. -/
def dedupByKey : List (K × V) → List (K × V)
  | [] => []
  | entry :: rest => entry :: dedupAfter entry.1 rest

/-- The first entry of a key. -/
def lookup (key : K) (entries : List (K × V)) : Option (K × V) :=
  entries.find? fun entry => decide (entry.1 = key)

theorem lookup_cons (key : K) (entry : K × V) (rest : List (K × V)) :
    lookup key (entry :: rest) = if entry.1 = key then some entry else lookup key rest := by
  by_cases same : entry.1 = key <;> simp [lookup, same]

theorem mem_of_lookup {key : K} {entries : List (K × V)} {entry : K × V}
    (found : lookup key entries = some entry) : entry ∈ entries ∧ entry.1 = key :=
  ⟨List.mem_of_find?_eq_some found, by simpa using List.find?_some found⟩

section Order

variable [LE K] [LT K] [Std.IsLinearOrder K] [Std.LawfulOrderLT K]

/-- In sorted entries, those after the key kept last. -/
theorem dedupAfter_spec {last : K} {entries : List (K × V)}
    (sorted : entries.Pairwise fun a b => a.1 ≤ b.1) (above : ∀ entry ∈ entries, last ≤ entry.1) :
    (∀ entry ∈ dedupAfter last entries, last < entry.1) ∧
      (dedupAfter last entries).Pairwise (fun a b => a.1 < b.1) ∧
      ∀ entry, entry ∈ dedupAfter last entries ↔
        entry.1 ≠ last ∧ lookup entry.1 entries = some entry := by
  induction entries generalizing last with
  | nil => simp [dedupAfter, lookup]
  | cons first rest ih =>
      obtain ⟨least, sorted⟩ := List.pairwise_cons.mp sorted
      obtain ⟨here, above⟩ := List.forall_mem_cons.mp above
      unfold dedupAfter
      split
      · rename_i same
        obtain ⟨later, increasing, members⟩ := ih sorted above
        refine ⟨later, increasing, fun entry =>
          (members entry).trans (and_congr_right fun other => ?_)⟩
        rw [lookup_cons, if_neg fun equal => other (equal.symm.trans same)]
      · rename_i other
        obtain ⟨later, increasing, members⟩ := ih sorted least
        have next : last < first.1 := Std.lt_of_le_of_ne here (Ne.symm other)
        refine ⟨List.forall_mem_cons.mpr ⟨next, fun entry member =>
          Std.lt_trans next (later entry member)⟩, List.pairwise_cons.mpr ⟨later, increasing⟩,
          fun entry => ?_⟩
        rw [List.mem_cons, lookup_cons]
        constructor
        · rintro (rfl | member)
          · exact ⟨other, if_pos rfl⟩
          · have found := (members entry).mp member
            rw [if_neg (Ne.symm found.1)]
            exact ⟨(Std.ne_of_lt (Std.lt_trans next (later entry member))).symm, found.2⟩
        · rintro ⟨-, found⟩
          split at found
          · exact .inl (Option.some.inj found).symm
          · rename_i differ
            exact .inr ((members entry).mpr ⟨Ne.symm differ, found⟩)

/-- Of sorted entries, the first of each key is kept. -/
theorem dedupByKey_spec {entries : List (K × V)} (sorted : entries.Pairwise fun a b => a.1 ≤ b.1) :
    (dedupByKey entries).Pairwise (fun a b => a.1 < b.1) ∧
      ∀ entry, entry ∈ dedupByKey entries ↔ lookup entry.1 entries = some entry := by
  cases entries with
  | nil => simp [dedupByKey, lookup]
  | cons first rest =>
      obtain ⟨least, sorted⟩ := List.pairwise_cons.mp sorted
      obtain ⟨later, increasing, members⟩ := dedupAfter_spec sorted least
      refine ⟨List.pairwise_cons.mpr ⟨later, increasing⟩, fun entry => ?_⟩
      rw [dedupByKey, List.mem_cons, members, lookup_cons]
      by_cases same : first.1 = entry.1
      · rw [if_pos same, Option.some.injEq]
        exact ⟨fun kept => (kept.resolve_right fun later => later.1 same.symm).symm,
          fun kept => .inl kept.symm⟩
      · rw [if_neg same]
        refine ⟨fun kept => ?_, fun found => .inr ⟨Ne.symm same, found⟩⟩
        rcases kept with rfl | found
        · exact absurd rfl same
        · exact found.2

end Order

end Dedup

/-! ## Sorting -/

/-- How a sort by a key moves the entries: the positions that they are taken from, in order. It
depends on the keys alone. -/
structure UnstableSort (K : Type) [LE K] where
  order : List K → List Nat
  perm : ∀ keys, (order keys).Perm (List.range keys.length)
  sorted : ∀ keys, ((order keys).filterMap fun i => keys[i]?).Pairwise (· ≤ ·)

/-- All the positions give all the entries. -/
theorem filterMap_getElem?_range {α : Type} (entries : List α) :
    (List.range entries.length).filterMap (fun i => entries[i]?) = entries := by
  induction entries with
  | nil => rfl
  | cons first rest ih =>
      rw [List.length_cons, List.range_succ_eq_map, List.filterMap_cons, List.getElem?_cons_zero,
        List.filterMap_map]
      exact congrArg (first :: ·) ih

namespace UnstableSort

variable [LE K] (sort : UnstableSort K)

/-- `sort_unstable_by_key`. -/
def sortByKey (entries : List (K × V)) : List (K × V) :=
  (sort.order (entries.map Prod.fst)).filterMap fun i => entries[i]?

theorem sorted_sortByKey (entries : List (K × V)) :
    (sort.sortByKey entries).Pairwise fun a b => a.1 ≤ b.1 := by
  have keys := sort.sorted (entries.map Prod.fst)
  rw [← List.pairwise_map (f := Prod.fst), sortByKey, List.map_filterMap]
  simpa only [List.getElem?_map] using keys

theorem perm_sortByKey (entries : List (K × V)) : (sort.sortByKey entries).Perm entries := by
  have moved := (sort.perm (entries.map Prod.fst)).filterMap fun i => entries[i]?
  rw [List.length_map, filterMap_getElem?_range] at moved
  exact moved

section Lookup

variable [DecidableEq K]

/-- Which entry of a key comes first after sorting is decided by the keys. -/
theorem lookup_sortByKey (key : K) (entries : List (K × V)) :
    lookup key (sort.sortByKey entries) =
      ((sort.order (entries.map Prod.fst)).find? fun i =>
        decide ((entries.map Prod.fst)[i]? = some key)).bind fun i => entries[i]? := by
  rw [lookup, sortByKey, List.find?_filterMap]
  congr 2
  funext i
  rw [List.getElem?_map]
  cases entries[i]? <;> simp

/-- Of two entries of one key, either can be the one that comes first: the entries can be given
in such an order. -/
theorem exists_perm_lookup {key : K} {value : V} {entries : List (K × V)}
    (member : (key, value) ∈ entries) :
    ∃ given, given.Perm entries ∧ lookup key (sort.sortByKey given) = some (key, value) := by
  obtain ⟨i, less, here⟩ := List.getElem_of_mem member
  have key_i : (entries.map Prod.fst)[i]? = some key := by
    rw [List.getElem?_map, List.getElem?_eq_getElem less, here]
    rfl
  -- the position that the sort puts first for this key, whatever stands there
  have listed : ∃ j ∈ sort.order (entries.map Prod.fst), (entries.map Prod.fst)[j]? = some key := by
    refine ⟨i, (sort.perm _).mem_iff.mpr ?_, key_i⟩
    rwa [List.mem_range, List.length_map]
  obtain ⟨j, first⟩ := Option.isSome_iff_exists.mp (List.find?_isSome.mpr
    (listed.imp fun j at_j => ⟨at_j.1, decide_eq_true at_j.2⟩))
  have key_j : (entries.map Prod.fst)[j]? = some key := by simpa using List.find?_some first
  have less' : j < entries.length := by
    obtain ⟨less', -⟩ := List.getElem?_eq_some_iff.mp key_j
    rwa [List.length_map] at less'
  have sameKey : entries[j].1 = key := by
    rwa [List.getElem?_map, List.getElem?_eq_getElem less', Option.map_some,
      Option.some.injEq] at key_j
  have unmoved : ∀ {keys : List K} {n : Nat}, keys[n]? = some key → keys.set n key = keys := by
    intro keys n found
    obtain ⟨within, rfl⟩ := List.getElem?_eq_some_iff.mp found
    exact List.set_getElem_self within
  have keys :
      ((entries.set i entries[j]).set j entries[i]).map Prod.fst = entries.map Prod.fst := by
    rw [List.map_set, List.map_set, sameKey, here, unmoved key_i, unmoved key_j]
  refine ⟨(entries.set i entries[j]).set j entries[i], List.set_set_perm less less', ?_⟩
  rw [sort.lookup_sortByKey, keys, first, Option.bind_some, List.getElem?_set_self, here]
  rwa [List.length_set]

/-- Sort by key and keep one entry for each. -/
def sortDedup (entries : List (K × V)) : List (K × V) := dedupByKey (sort.sortByKey entries)

variable [LT K] [Std.IsLinearOrder K] [Std.LawfulOrderLT K]

theorem increasing_sortDedup (entries : List (K × V)) :
    (sort.sortDedup entries).Pairwise fun a b => a.1 < b.1 :=
  (dedupByKey_spec (sort.sorted_sortByKey entries)).1

theorem mem_sortDedup {entries : List (K × V)} {entry : K × V} :
    entry ∈ sort.sortDedup entries ↔ lookup entry.1 (sort.sortByKey entries) = some entry :=
  (dedupByKey_spec (sort.sorted_sortByKey entries)).2 entry

/-- Of consistent entries none is lost. -/
theorem mem_sortDedup_of_consistent {entries : List (K × V)} (consistent : Consistent entries)
    {entry : K × V} : entry ∈ sort.sortDedup entries ↔ entry ∈ entries := by
  rw [mem_sortDedup]
  have same := (sort.perm_sortByKey entries).mem_iff (a := entry)
  constructor
  · exact fun found => same.mp (mem_of_lookup found).1
  · intro member
    have listed : (lookup entry.1 (sort.sortByKey entries)).isSome :=
      List.find?_isSome.mpr ⟨entry, same.mpr member, decide_eq_true rfl⟩
    obtain ⟨first, found⟩ := Option.isSome_iff_exists.mp listed
    obtain ⟨among, key⟩ := mem_of_lookup found
    have inside := (sort.perm_sortByKey entries).mem_iff.mp among
    rw [consistent entry member first inside key.symm]
    exact key ▸ found

/-- **The result is given by the set of entries** if and only if those of one key are the
same. -/
theorem sortDedup_congr_iff {entries : List (K × V)} :
    (∀ given, given.Perm entries → sort.sortDedup given = sort.sortDedup entries) ↔
      Consistent entries := by
  constructor
  · intro same a inside b inside' key
    obtain ⟨given, perm, first⟩ := @exists_perm_lookup _ _ _ sort _ a.1 a.2 _ inside
    obtain ⟨given', perm', first'⟩ := @exists_perm_lookup _ _ _ sort _ b.1 b.2 _ inside'
    have kept := sort.mem_sortDedup.mpr first
    have kept' := sort.mem_sortDedup.mpr first'
    rw [same given perm] at kept
    rw [same given' perm'] at kept'
    exact consistent_of_distinct ((sort.increasing_sortDedup entries).imp Std.ne_of_lt)
      a kept b kept' key
  · intro consistent given perm
    have consistent' : Consistent given := fun a inside b inside' =>
      consistent a (perm.mem_iff.mp inside) b (perm.mem_iff.mp inside')
    refine eq_of_increasing (sort.increasing_sortDedup given) (sort.increasing_sortDedup entries)
      fun entry => ?_
    rw [sort.mem_sortDedup_of_consistent consistent, sort.mem_sortDedup_of_consistent consistent',
      perm.mem_iff]

end Lookup

end UnstableSort

/-! ### A stable sort is one -/

section Stable

variable [LE K] [DecidableLE K] [Std.IsLinearOrder K]

/-- The positions in the order of their keys, and those of one key as they are. -/
def stableOrder (keys : List K) : List Nat :=
  (keys.zipIdx.insertionSort fun a b => a.1 ≤ b.1).map Prod.snd

/-- Insertion sort, which short lists are sorted by. -/
def stableSort : UnstableSort K where
  order := stableOrder
  perm keys := by
    have moved :=
      (List.perm_insertionSort (fun a b : K × Nat => a.1 ≤ b.1) keys.zipIdx).map Prod.snd
    rwa [List.zipIdx_map_snd, ← List.range_eq_range'] at moved
  sorted keys := by
    have total : Std.Total fun a b : K × Nat => a.1 ≤ b.1 := ⟨fun _ _ => Std.le_total⟩
    have transitive : IsTrans (K × Nat) fun a b => a.1 ≤ b.1 := ⟨fun _ _ _ => Std.le_trans⟩
    have increasing := List.pairwise_insertionSort (fun a b : K × Nat => a.1 ≤ b.1) keys.zipIdx
    have members : ∀ entry ∈ keys.zipIdx.insertionSort (fun a b => a.1 ≤ b.1),
        keys[entry.2]? = some entry.1 := fun entry member =>
      List.mem_zipIdx_iff_getElem?.mp ((List.mem_insertionSort _).mp member)
    have keysOf : (stableOrder keys).filterMap (fun i => keys[i]?) =
        (keys.zipIdx.insertionSort fun a b => a.1 ≤ b.1).map Prod.fst := by
      rw [stableOrder, List.filterMap_map, ← List.filterMap_eq_map]
      exact List.filterMap_congr fun entry member => members entry member
    rw [keysOf, List.pairwise_map]
    exact increasing

end Stable

end KeySort
