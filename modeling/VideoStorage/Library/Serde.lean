import VideoStorage.Library.Str

/-!
# JSON values and derived conversions

JSON values, and the conversions that a derive produces: integers of a width,
strings, sequences, optional values, enumerations without data, and structures
with named fields.

A structure is written field by field into a map ordered by key, and a skip rule
leaves a field out (`ofFields`). It is read field by field, and a field that may
be missing has a default (`required`, `defaulted`): from an object by name, or
from an array in the order of the fields (`readStruct`). What a field reads from
an object is what was written under its name (`lookup_members_cons`).
-/

set_option autoImplicit false

namespace SerdeJson

open RustStd

/-- A JSON value. The members of an object stand in the order of their keys. -/
inductive Value where
  | null
  | bool (value : Bool)
  | number (value : Int)
  /-- A number with a fraction or an exponent, by its bits. -/
  | float (bits : UInt64)
  | string (value : Str)
  | array (items : List Value)
  | object (members : List (Str × Value))

/-- A type with a derived conversion in both directions. -/
class Serde (α : Type) where
  toValue : α → Value
  fromValue : Value → Option α

export Serde (toValue fromValue)

/-- What is written is read back, and it is not `null`. -/
class LawfulSerde (α : Type) [Serde α] : Prop where
  fromValue_toValue : ∀ a : α, fromValue (toValue a) = some a
  toValue_ne_null : ∀ a : α, toValue a ≠ .null

export LawfulSerde (fromValue_toValue toValue_ne_null)

attribute [simp] fromValue_toValue

/-! ## Integers, strings, sequences and optional values -/

/-- An integer below a bound. -/
def unsigned {α : Type} (bound : Nat) (ofNat : Nat → α) : Value → Option α
  | .number value => if 0 ≤ value ∧ value < bound then some (ofNat value.toNat) else none
  | _ => none

theorem unsigned_number {α : Type} {bound n : Nat} (small : n < bound) (ofNat : Nat → α) :
    unsigned bound ofNat (.number n) = some (ofNat n) := by
  have fits : (0 : Int) ≤ n ∧ (n : Int) < bound := ⟨Int.natCast_nonneg n, Int.ofNat_lt.mpr small⟩
  exact (if_pos fits).trans (congrArg (some ∘ ofNat) (Int.toNat_natCast n))

instance : Serde UInt8 where
  toValue value := .number value.toNat
  fromValue := unsigned UInt8.size UInt8.ofNat

instance : LawfulSerde UInt8 where
  fromValue_toValue value :=
    (unsigned_number value.toNat_lt _).trans (congrArg some UInt8.ofNat_toNat)
  toValue_ne_null _ := nofun

instance : Serde UInt16 where
  toValue value := .number value.toNat
  fromValue := unsigned UInt16.size UInt16.ofNat

instance : LawfulSerde UInt16 where
  fromValue_toValue value :=
    (unsigned_number value.toNat_lt _).trans (congrArg some UInt16.ofNat_toNat)
  toValue_ne_null _ := nofun

instance : Serde UInt32 where
  toValue value := .number value.toNat
  fromValue := unsigned UInt32.size UInt32.ofNat

instance : LawfulSerde UInt32 where
  fromValue_toValue value :=
    (unsigned_number value.toNat_lt _).trans (congrArg some UInt32.ofNat_toNat)
  toValue_ne_null _ := nofun

instance : Serde Str where
  toValue := .string
  fromValue
    | .string value => some value
    | _ => none

instance : LawfulSerde Str where
  fromValue_toValue _ := rfl
  toValue_ne_null _ := nofun

variable {α : Type} [Serde α]

instance : Serde (List α) where
  toValue items := .array (items.map toValue)
  fromValue
    | .array items => items.mapM fromValue
    | _ => none

theorem mapM_fromValue [LawfulSerde α] (items : List α) :
    (items.map toValue).mapM (fromValue (α := α)) = some items := by
  induction items with
  | nil => rfl
  | cons item rest ih => rw [List.map_cons, List.mapM_cons, ih, fromValue_toValue]; rfl

instance [LawfulSerde α] : LawfulSerde (List α) where
  fromValue_toValue := mapM_fromValue
  toValue_ne_null _ := nofun

/-- An optional value is `null` or the value. -/
instance : Serde (Option α) where
  toValue
    | none => .null
    | some value => toValue value
  fromValue
    | .null => some none
    | value => (fromValue value).map some

theorem fromValue_toValue_some [LawfulSerde α] (a : α) :
    fromValue (α := Option α) (toValue a) = some (some a) := by
  have read := fromValue_toValue a
  have present := toValue_ne_null a
  cases shape : toValue a with
  | null => exact absurd shape present
  | bool _ | number _ | float _ | string _ | array _ | object _ =>
      rw [shape] at read
      exact congrArg (Option.map some) read

/-! ## Objects -/

/-- `Map::insert`, in the order of the keys. -/
def insert (key : Str) (value : Value) : List (Str × Value) → List (Str × Value)
  | [] => [(key, value)]
  | (k, v) :: rest =>
      if key = k then (key, value) :: rest
      else if key < k then (key, value) :: (k, v) :: rest
      else (k, v) :: insert key value rest

theorem lookup_cons_ite (key other : Str) (value : Value) (rest : List (Str × Value)) :
    ((key, value) :: rest).lookup other = if other = key then some value else rest.lookup other := by
  rw [List.lookup_cons]
  by_cases same : other = key
  · subst same
    simp
  · simp [same, beq_eq_false_iff_ne.mpr same]

theorem lookup_insert (key other : Str) (value : Value) (members : List (Str × Value)) :
    (insert key value members).lookup other =
      if other = key then some value else members.lookup other := by
  induction members with
  | nil => exact lookup_cons_ite key other value []
  | cons member rest ih =>
      obtain ⟨k, v⟩ := member
      unfold insert
      split
      · rename_i equal
        subst equal
        simp only [lookup_cons_ite]
        split <;> rfl
      · rename_i differ
        split
        · rw [lookup_cons_ite]
        · rw [lookup_cons_ite, lookup_cons_ite, ih]
          by_cases same : other = key
          · subst same
            rw [if_neg differ, if_pos rfl, if_pos rfl]
          · rw [if_neg same, if_neg same]

/-- The members of a structure: each field with its value, unless it is
skipped. -/
def members : List (Str × Option Value) → List (Str × Value)
  | [] => []
  | (key, some value) :: rest => insert key value (members rest)
  | (_, none) :: rest => members rest

/-- A structure as an object. -/
def ofFields (fields : List (Str × Option Value)) : Value := .object (members fields)

@[simp] theorem lookup_members_cons (key other : Str) (field : Option Value)
    (rest : List (Str × Option Value)) :
    (members ((key, field) :: rest)).lookup other =
      if other = key then field.or ((members rest).lookup other)
      else (members rest).lookup other := by
  cases field with
  | some value => exact lookup_insert key other value (members rest)
  | none => exact (ite_self _).symm

@[simp] theorem lookup_members_nil (other : Str) : (members []).lookup other = none := rfl

/-- `Value::get` by key. -/
def Value.get (value : Value) (key : Str) : Option Value :=
  match value with
  | .object members => members.lookup key
  | _ => none

/-- `Value::as_str`. -/
def Value.asStr : Value → Option Str
  | .string value => some value
  | _ => none

/-- Where a structure finds its fields: in an object under their names, or in an
array one after the other. -/
inductive Fields where
  | members (members : List (Str × Value))
  | items (items : List Value)

/-- Reading fields in their order, and what is left for the next ones. -/
abbrev FieldReader := StateT Fields Option

/-- A field that must be there. -/
def required (key : Str) : FieldReader α
  | .members members => do
      let field ← members.lookup key
      let value ← fromValue field
      some (value, .members members)
  | .items [] => none
  | .items (item :: rest) => do
      let value ← fromValue item
      some (value, .items rest)

/-- A field that has a default. -/
def defaulted (key : Str) (default : α) : FieldReader α
  | .members members =>
      match members.lookup key with
      | some field => do
          let value ← fromValue field
          some (value, .members members)
      | none => some (default, .members members)
  | .items [] => some (default, .items [])
  | .items (item :: rest) => do
      let value ← fromValue item
      some (value, .items rest)

/-- `deserialize_struct`: an object may have other members, and an array has no
other items. -/
def readStruct {β : Type} (fields : FieldReader β) : Value → Option β
  | .object members => (fields (.members members)).map Prod.fst
  | .array items =>
      match fields (.items items) with
      | some (value, .items []) => some value
      | _ => none
  | _ => none

/-- `deserialize_enum` of variants without data: the name of one, alone or as the
only key of an object with `null`. -/
def readUnitEnum {β : Type} (variant : Str → Option β) : Value → Option β
  | .string name => variant name
  | .object [(name, .null)] => variant name
  | _ => none

@[simp] theorem get_ofFields (fields : List (Str × Option Value)) (key : Str) :
    (ofFields fields).get key = (members fields).lookup key := rfl

theorem required_eq [LawfulSerde α] {members : List (Str × Value)} {key : Str} {a : α}
    (here : members.lookup key = some (toValue a)) :
    required key (.members members) = some (a, .members members) := by
  simp only [required, here, Option.bind_eq_bind, Option.bind_some, fromValue_toValue]

/-- A field written under a skip rule reads as its value, or as the default where
the rule skipped it. -/
theorem defaulted_eq [LawfulSerde α] {members : List (Str × Value)} {key : Str} {a : α}
    {skip : Bool} (here : members.lookup key = if skip then none else some (toValue a))
    (default : α) :
    defaulted key default (.members members) =
      some (if skip then default else a, .members members) := by
  unfold defaulted
  cases skip <;> simp [here]

/-- An optional field that is skipped when empty reads as it was. -/
theorem defaulted_option_eq [LawfulSerde α] {members : List (Str × Value)} {key : Str}
    {a : Option α} (here : members.lookup key = a.map toValue) :
    defaulted key none (.members members) = some (a, .members members) := by
  unfold defaulted
  cases a with
  | none => simp only [here, Option.map_none]
  | some a =>
      simp only [here, Option.map_some, fromValue_toValue_some, Option.bind_eq_bind,
        Option.bind_some]

/-- The fields after one that is read. -/
theorem bind_eq {β γ : Type} {field : FieldReader β} {rest : β → FieldReader γ} {value : β}
    {fields left : Fields} (read : field fields = some (value, left)) :
    (field >>= rest) fields = rest value left := by
  change (field fields).bind _ = _
  rw [read]
  rfl

/-- A structure that was written is read by its names. -/
theorem readStruct_ofFields {β : Type} {reader : FieldReader β}
    {fields : List (Str × Option Value)} {value : β}
    (read : reader (.members (members fields)) = some (value, .members (members fields))) :
    readStruct reader (ofFields fields) = some value :=
  congrArg (Option.map Prod.fst) read

end SerdeJson
