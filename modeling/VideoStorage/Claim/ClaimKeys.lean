import Mathlib.Data.List.Induction
import Mathlib.Data.List.Perm.Basic
import VideoStorage.Claim.Manager
import VideoStorage.Library.KeySort
import VideoStorage.Library.Str

/-!
# The configured claim keys

Claim keys come from the table `claim_keys` of the configuration file or from
`--claim-key` arguments, as a list of kids and keys. The table is a hash map from
strings: its entries come in any order, and different strings can be read as one kid.
The list has two readers. `get_claim_key` takes the first key of a kid, and the claim
manager the last.

A table gives the same keys in every order if and only if an entry of it cannot be read, or
no kid has two keys (`loadsInAnyOrder_iff`). The two readers agree if and only if the first
and the last key of every kid are the same, and there is one (`agree_iff`). So they agree
on the keys of a table (`agree_of_deClaimKeys`).
-/

set_option autoImplicit false

namespace VideoStorage.Claim

open RustStd Str KeySort

/-- `STANDARD.decode`: the bytes of a text, or why there are none. -/
abbrev Base64 := Str → Except Str Bytes

/-- A claim key: its kid and the key. -/
abbrev ClaimKey := UInt8 × CipherKey

/-! ## Reading the configuration -/

/-- `parse_claim_key`. -/
def parseClaimKey (base64 : Base64) (s : Str) : Except Str ClaimKey :=
  match splitOnce ':' s with
  | none => .error "Invalid format. Use kid:base64_key".toList
  | some (kidText, keyText) =>
      match parseUnsigned 255 kidText with
      | none =>
          .error ("Invalid kid '".toList ++ kidText ++ "'. Must be a number between 0-255".toList)
      | some kid =>
          match base64 keyText with
          | .error error =>
              .error
                ("Failed to decode base64 key for ".toList ++ decimal kid ++ ": ".toList ++ error)
          | .ok keyBytes =>
              if size : keyBytes.length = 32 then .ok (UInt8.ofNat kid, ⟨keyBytes, size⟩)
              else .error ("Invalid key length for kid ".toList ++ decimal kid ++
                ": expected 32 bytes, got ".toList ++ decimal keyBytes.length)

/-- Why a table of claim keys is not read. -/
inductive ClaimKeysError where
  /-- The error of parsing the kid. -/
  | kid (text : Str)
  /-- The error of decoding the key. -/
  | base64 (error : Str)
  /-- "claim_keys[{kid}] length {found}, expect 32" -/
  | length (kid : Nat) (found : Nat)
  deriving DecidableEq

/-- An entry of the table. -/
def readEntry (base64 : Base64) (entry : Str × Str) : Except ClaimKeysError ClaimKey :=
  match parseUnsigned 255 entry.1 with
  | none => .error (.kid entry.1)
  | some kid =>
      match base64 entry.2 with
      | .error error => .error (.base64 error)
      | .ok bytes =>
          if size : bytes.length = 32 then .ok (UInt8.ofNat kid, ⟨bytes, size⟩)
          else .error (.length kid bytes.length)

/-- `de_claim_keys`, of the entries in the order in which the hash map gives them. -/
def deClaimKeys (base64 : Base64) (sort : UnstableSort UInt8) :
    Option (List (Str × Str)) → Except ClaimKeysError (List ClaimKey)
  | none => .ok []
  | some repr => (repr.mapM (readEntry base64)).map sort.sortDedup

/-- `get_claim_key`. -/
def getClaimKey (claimKeys : List ClaimKey) (kid : UInt8) : Option CipherKey :=
  (lookup kid claimKeys).map Prod.snd

/-! ## The same keys in every order -/

/-- The table is read in no order, or gives one list of increasing kids in all of them. -/
def LoadsInAnyOrder (base64 : Base64) (sort : UnstableSort UInt8) (table : List (Str × Str)) :
    Prop :=
  (∀ repr, repr.Perm table → ∃ error, deClaimKeys base64 sort (some repr) = .error error) ∨
    ∃ keys : List ClaimKey, (keys.Pairwise fun a b => a.1 < b.1) ∧
      ∀ repr, repr.Perm table → deClaimKeys base64 sort (some repr) = .ok keys

/-- An entry cannot be read, or those that are read as one kid have one key. -/
def TableConsistent (base64 : Base64) (table : List (Str × Str)) : Prop :=
  (∃ entry ∈ table, ∃ error, readEntry base64 entry = .error error) ∨
    ∀ entry ∈ table, ∀ entry' ∈ table, ∀ key key', readEntry base64 entry = .ok key →
      readEntry base64 entry' = .ok key' → key.1 = key'.1 → key = key'

section Reading

variable {ε α β : Type} {read : α → Except ε β} {entries : List α} {values : List β}

/-- The entries and what is read of them, one by one. -/
abbrev ReadAs (read : α → Except ε β) : List α → List β → Prop :=
  List.Forall₂ fun entry value => read entry = .ok value

theorem mapM_eq_ok : entries.mapM read = .ok values ↔ ReadAs read entries values := by
  unfold ReadAs
  induction entries generalizing values with
  | nil =>
      rw [List.mapM_nil, List.forall₂_nil_left_iff]
      exact ⟨fun same => (Except.ok.inj same).symm, fun empty => congrArg Except.ok empty.symm⟩
  | cons entry rest ih =>
      rw [List.mapM_cons, List.forall₂_cons_left_iff]
      cases first : read entry with
      | error error => exact ⟨nofun, fun ⟨_, _, ok, _⟩ => nomatch ok⟩
      | ok value =>
          cases others : rest.mapM read with
          | error error =>
              refine ⟨nofun, fun ⟨_, more, _, read, _⟩ => ?_⟩
              rw [ih.mpr read] at others
              cases others
          | ok more =>
              constructor
              · rintro ⟨⟩
                exact ⟨value, more, rfl, ih.mp others, rfl⟩
              · rintro ⟨_, more', ⟨⟩, read, rfl⟩
                rw [ih.mpr read] at others
                cases others
                rfl

/-- The entries are not all read when one is not. -/
theorem mapM_eq_error :
    (∃ error, entries.mapM read = .error error) ↔
      ∃ entry ∈ entries, ∃ error, read entry = .error error := by
  induction entries with
  | nil =>
      exact iff_of_false (fun ⟨_, failed⟩ => nomatch failed) (fun ⟨_, member, _⟩ => nomatch member)
  | cons entry rest ih =>
      rw [List.mapM_cons, List.exists_mem_cons_iff, ← ih]
      cases first : read entry with
      | error error => exact iff_of_true ⟨error, rfl⟩ (.inl ⟨error, rfl⟩)
      | ok value =>
          cases others : rest.mapM read with
          | error error => exact iff_of_true ⟨error, rfl⟩ (.inr ⟨error, rfl⟩)
              | ok more =>
              refine iff_of_false (fun ⟨_, failed⟩ => nomatch failed) ?_
              rintro (⟨_, failed⟩ | ⟨_, failed⟩) <;> cases failed

theorem ReadAs.mem_iff (all : ReadAs read entries values) {value : β} :
    value ∈ values ↔ ∃ entry ∈ entries, read entry = .ok value := by
  induction all with
  | nil => simp
  | cons first rest ih => rw [List.mem_cons, ih, List.exists_mem_cons_iff, first]; simp [eq_comm]

end Reading

section Table

variable {base64 : Base64} {sort : UnstableSort UInt8} {table repr : List (Str × Str)}
  {keys : List ClaimKey}

theorem deClaimKeys_of_readAs (all : ReadAs (readEntry base64) repr keys) :
    deClaimKeys base64 sort (some repr) = .ok (sort.sortDedup keys) := by
  rw [deClaimKeys, mapM_eq_ok.mpr all]
  rfl

/-- **A table is read in the same way in every order** if and only if an entry cannot be read
or no kid has two keys. -/
theorem loadsInAnyOrder_iff :
    LoadsInAnyOrder base64 sort table ↔ TableConsistent base64 table := by
  cases all : table.mapM (readEntry base64) with
  | error error =>
      have failed : ∃ entry ∈ table, ∃ error, readEntry base64 entry = .error error :=
        mapM_eq_error.mp ⟨error, all⟩
      refine iff_of_true (.inl fun repr perm => ?_) (.inl failed)
      obtain ⟨entry, member, why⟩ := failed
      obtain ⟨error', none⟩ := mapM_eq_error.mpr ⟨entry, perm.mem_iff.mpr member, why⟩
      exact ⟨error', by rw [deClaimKeys, none]; rfl⟩
  | ok values =>
      have readAs := mapM_eq_ok.mp all
      have table_iff : TableConsistent base64 table ↔ Consistent values := by
        constructor
        · rintro (⟨entry, member, error, failed⟩ | consistent)
          · obtain ⟨error', none⟩ := mapM_eq_error.mpr ⟨entry, member, error, failed⟩
            rw [all] at none
            cases none
          · intro key inside key' inside' same
            obtain ⟨entry, member, ok⟩ := readAs.mem_iff.mp inside
            obtain ⟨entry', member', ok'⟩ := readAs.mem_iff.mp inside'
            exact consistent entry member entry' member' key key' ok ok' same
        · intro consistent
          refine .inr fun entry member entry' member' key key' ok ok' same => ?_
          exact consistent key (readAs.mem_iff.mpr ⟨entry, member, ok⟩) key'
            (readAs.mem_iff.mpr ⟨entry', member', ok'⟩) same
      rw [table_iff, ← sort.sortDedup_congr_iff]
      constructor
      · rintro (none | ⟨keys, -, same⟩) given perm
        · obtain ⟨error, failed⟩ := none table (.refl _)
          rw [deClaimKeys_of_readAs readAs] at failed
          cases failed
        · have swapped : Relation.Comp (ReadAs (readEntry base64)) List.Perm table given :=
            ⟨values, readAs, perm.symm⟩
          rw [ReadAs, List.forall₂_comp_perm_eq_perm_comp_forall₂] at swapped
          obtain ⟨repr, moved, readAs'⟩ := swapped
          have first := same table (.refl _)
          have second := same repr moved.symm
          rw [deClaimKeys_of_readAs readAs] at first
          rw [deClaimKeys_of_readAs readAs', ← first] at second
          exact Except.ok.inj second
      · intro same
        refine .inr ⟨sort.sortDedup values, sort.increasing_sortDedup values, fun repr perm => ?_⟩
        obtain ⟨given, readAs', perm'⟩ := List.perm_comp_forall₂ perm readAs
        rw [deClaimKeys_of_readAs readAs', same given perm']

end Table

/-! ## The two readers of the list -/

/-- The first and the last key of every kid are the same. -/
def EndsAgree (claimKeys : List ClaimKey) : Prop :=
  ∀ kid first last, lookup kid claimKeys = some first → lookup kid claimKeys.reverse = some last →
    first.2 = last.2

/-- The map of a list has the last key of a kid. -/
theorem collectKeys_eq (claimKeys : List ClaimKey) (kid : UInt8) :
    ClaimManagerInner.collectKeys claimKeys kid =
      (lookup kid claimKeys.reverse).map Prod.snd := by
  unfold ClaimManagerInner.collectKeys
  induction claimKeys using List.reverseRecOn with
  | nil => rfl
  | append_singleton rest entry ih =>
      rw [List.foldl_append, List.foldl_cons, List.foldl_nil, List.reverse_concat, lookup_cons]
      by_cases same : entry.1 = kid
      · rw [if_pos same, ← same, Function.update_self]
        rfl
      · rw [if_neg same, Function.update_of_ne (Ne.symm same), ih]

/-- A key that is first for its kid is last for it, or another one is. -/
theorem lookup_reverse_isSome {claimKeys : List ClaimKey} {kid : UInt8} :
    (lookup kid claimKeys.reverse).isSome = (lookup kid claimKeys).isSome := by
  rw [Bool.eq_iff_iff, lookup, lookup, List.find?_isSome, List.find?_isSome]
  exact exists_congr fun entry => and_congr_left fun _ => List.mem_reverse

/-- **The readers agree** if and only if there is a key, and the first and the last key of
every kid are the same. -/
theorem agree_iff (generated : CipherKey) (claimKeys : List ClaimKey) :
    (∀ kid, getClaimKey claimKeys kid =
        (ClaimManagerInner.fromKeys generated claimKeys).keys kid) ↔
      claimKeys ≠ [] ∧ EndsAgree claimKeys := by
  cases claimKeys with
  | nil =>
      refine iff_of_false (fun agree => ?_) (fun some => some.1 rfl)
      have stored : (ClaimManagerInner.new generated).keys 1 = some generated := rfl
      exact absurd ((agree 1).trans stored) (Option.some_ne_none generated).symm
  | cons entry more =>
      have stored : ∀ kid, (ClaimManagerInner.fromKeys generated (entry :: more)).keys kid =
          (lookup kid (entry :: more).reverse).map Prod.snd := collectKeys_eq (entry :: more)
      simp only [stored, getClaimKey]
      rw [and_iff_right (List.cons_ne_nil entry more)]
      refine forall_congr' fun kid => ?_
      have both := @lookup_reverse_isSome (entry :: more) kid
      cases found : lookup kid (entry :: more) with
      | none =>
          rw [found, Option.isSome_none, Option.isSome_eq_false_iff,
            Option.isNone_iff_eq_none] at both
          rw [both]
          exact iff_of_true rfl nofun
      | some first =>
          rw [found, Option.isSome_some] at both
          obtain ⟨last, found'⟩ := Option.isSome_iff_exists.mp both
          rw [found']
          simp

/-- The readers agree on the keys of a table. -/
theorem agree_of_deClaimKeys {base64 : Base64} {sort : UnstableSort UInt8}
    {repr : Option (List (Str × Str))} {keys : List ClaimKey} (generated : CipherKey)
    (loaded : deClaimKeys base64 sort repr = .ok keys) (some : keys ≠ []) (kid : UInt8) :
    getClaimKey keys kid = (ClaimManagerInner.fromKeys generated keys).keys kid := by
  cases repr with
  | none =>
      cases loaded
      exact absurd rfl some
  | some repr =>
      obtain ⟨values, rfl⟩ : ∃ values, sort.sortDedup values = keys := by
        rw [deClaimKeys] at loaded
        cases read : repr.mapM (readEntry base64) with
        | error error =>
            rw [read] at loaded
            cases loaded
        | ok values =>
            rw [read] at loaded
            exact ⟨values, Except.ok.inj loaded⟩
      refine (agree_iff generated _).mpr ⟨some, fun kid first last found found' => ?_⟩ kid
      obtain ⟨inside, same⟩ := mem_of_lookup found
      obtain ⟨inside', same'⟩ := mem_of_lookup found'
      have one := consistent_of_distinct ((sort.increasing_sortDedup values).imp Std.ne_of_lt)
      exact congrArg Prod.snd (one first inside last (List.mem_reverse.mp inside')
        (same.trans same'.symm))

/-- **Claim keys load the same way** in every order of the table, and for both readers of the
list, under these conditions and no others. -/
theorem claimKeys_iff (base64 : Base64) (sort : UnstableSort UInt8) (generated : CipherKey) :
    (∀ table, LoadsInAnyOrder base64 sort table ↔ TableConsistent base64 table) ∧
      ∀ claimKeys, (∀ kid, getClaimKey claimKeys kid =
          (ClaimManagerInner.fromKeys generated claimKeys).keys kid) ↔
        claimKeys ≠ [] ∧ EndsAgree claimKeys :=
  ⟨fun _ => loadsInAnyOrder_iff, agree_iff generated⟩

/-! ## Two keys of one kid -/

/-- The key of 32 bytes. -/
def keyOf (byte : UInt8) : CipherKey := ⟨List.replicate 32 byte, List.length_replicate⟩

def onesText : Str := "AQEBAQEBAQEBAQEBAQEBAQEBAQEBAQEBAQEBAQEBAQE=".toList

def twosText : Str := "AgICAgICAgICAgICAgICAgICAgICAgICAgICAgICAgI=".toList

/-- `STANDARD.decode` on the two texts. -/
def twoTexts : Base64 := fun text =>
  if text = onesText then .ok (keyOf 1).val
  else if text = twosText then .ok (keyOf 2).val
  else .error "Invalid padding".toList

/-- The table that has a key under "1" and another one under "01" depends on the order, and the
readers of the list that is given by the arguments with these keys do not agree. -/
theorem two_keys_of_one_kid :
    ¬ LoadsInAnyOrder twoTexts stableSort [("1".toList, onesText), ("01".toList, twosText)] ∧
      ∃ claimKeys, ["1:".toList ++ onesText, "1:".toList ++ twosText].mapM
          (parseClaimKey twoTexts) = .ok claimKeys ∧
        ¬ ∀ kid, getClaimKey claimKeys kid =
          (ClaimManagerInner.fromKeys (keyOf 0) claimKeys).keys kid := by
  have ones : readEntry twoTexts ("1".toList, onesText) = .ok (1, keyOf 1) := by decide
  have twos : readEntry twoTexts ("01".toList, twosText) = .ok (1, keyOf 2) := by decide
  have differ : keyOf 1 ≠ keyOf 2 := by decide
  constructor
  · rw [loadsInAnyOrder_iff]
    rintro (⟨entry, member, error, failed⟩ | consistent)
    · rcases List.mem_pair.mp member with rfl | rfl
      · rw [ones] at failed
        cases failed
      · rw [twos] at failed
        cases failed
    · have same := consistent _ List.mem_cons_self _ (List.mem_cons_of_mem _ List.mem_cons_self)
        _ _ ones twos rfl
      exact differ (congrArg Prod.snd same)
  · refine ⟨[(1, keyOf 1), (1, keyOf 2)], by decide, fun agree => ?_⟩
    have same := agree 1
    exact differ (Option.some.inj same)

end VideoStorage.Claim
