import Mathlib.Algebra.Group.Nat.Defs
import Mathlib.Tactic.Common

/-!
# Byte strings and checked reads

A decoder reads fields off a byte slice at an offset. Reading outside the slice
panics, which is an outcome of its own (`Failure.panic`) next to the errors the
decoder returns.

Fixed-width integers are written least significant byte first. The class
`LittleEndian` collects a width, the two conversions and their laws, so that one
rule covers the fields of every type (`Cursor.readLE`). A `Cursor` says which
bytes are still unread at an offset: decoding what an encoder wrote moves the
cursor from field to field.
-/

set_option autoImplicit false

namespace RustStd

abbrev Bytes := List UInt8

/-- `[u8; n]`. -/
abbrev FixedBytes (n : Nat) := {bytes : Bytes // bytes.length = n}

/-! ## Outcomes -/

/-- How a computation that may panic fails. -/
inductive Failure (ε : Type) where
  | panic
  | err (error : ε)
  deriving DecidableEq, Repr

/-- The outcome of a computation that returns a value, an error or panics. -/
abbrev Checked (ε α : Type) := Except (Failure ε) α

variable {ε δ α β : Type}

/-- Return an error. -/
def fail (error : ε) : Checked ε α := .error (.err error)

/-- Return an error when a condition holds. -/
def failIf (condition : Prop) [Decidable condition] (error : ε) : Checked ε Unit :=
  if condition then fail error else .ok ()

/-- `ok_or`. -/
def okOr (value : Option α) (error : ε) : Checked ε α :=
  match value with
  | some a => .ok a
  | none => fail error

/-- `map_err`: replace the error, but not a panic. -/
def mapErr (f : ε → δ) : Checked ε α → Checked δ α
  | .ok a => .ok a
  | .error .panic => .error .panic
  | .error (.err error) => .error (.err (f error))

@[simp] theorem bind_ok (a : α) (f : α → Checked ε β) : (Except.ok a >>= f) = f a := rfl

@[simp] theorem bind_error (failure : Failure ε) (f : α → Checked ε β) :
    (Except.error failure >>= f) = .error failure := rfl

@[simp] theorem mapErr_ok (f : ε → δ) (a : α) : mapErr f (.ok a) = .ok a := rfl

/-- A computation that succeeds went through its first part. -/
theorem bind_eq_ok {m : Except ε α} {f : α → Except ε β} {b : β} (ok : m >>= f = .ok b) :
    ∃ a, m = .ok a ∧ f a = .ok b := by
  cases m with
  | error failure => cases ok
  | ok a => exact ⟨a, rfl, ok⟩

theorem mapErr_eq_ok {f : ε → δ} {m : Checked ε α} {a : α} (ok : mapErr f m = .ok a) :
    m = .ok a := by
  cases m with
  | ok b =>
      cases ok
      rfl
  | error failure => cases failure <;> cases ok

/-- A result that was mapped to a success was a success. -/
theorem map_eq_ok {m : Except ε α} {f : α → β} {b : β} (ok : m.map f = .ok b) :
    ∃ a, m = .ok a ∧ f a = b := by
  cases m with
  | error error => cases ok
  | ok a =>
      cases ok
      exact ⟨a, rfl, rfl⟩

/-- A computation panics only where a part of it does. -/
theorem bind_ne_panic {m : Checked ε α} {f : α → Checked ε β} (first : m ≠ .error .panic)
    (next : ∀ a, m = .ok a → f a ≠ .error .panic) : m >>= f ≠ .error .panic := by
  cases m with
  | error failure => exact fun panics => first (congrArg Except.error (Except.error.inj panics))
  | ok a => exact next a rfl

/-- The computation returns a value: it neither panics nor fails. -/
def Returns (m : Checked ε α) : Prop := ∃ a, m = .ok a

theorem Returns.pure (a : α) : Returns (ε := ε) (.ok a) := ⟨a, rfl⟩

/-- A computation returns where its parts do. -/
theorem Returns.andThen {m : Checked ε α} {f : α → Checked ε β} (first : Returns m)
    (next : ∀ a, m = .ok a → Returns (f a)) : Returns (m >>= f) := by
  obtain ⟨a, ok⟩ := first
  obtain ⟨b, done⟩ := next a ok
  exact ⟨b, by rw [ok, bind_ok, done]⟩

/-- What the first computation returns, the second one returns too. -/
def Agrees (m m' : Checked ε α) : Prop := ∀ a, m = .ok a → m' = .ok a

theorem Agrees.refl (m : Checked ε α) : Agrees m m := fun _ => id

/-- Computations agree where their parts do. -/
theorem Agrees.andThen {m m' : Checked ε α} {f f' : α → Checked ε β} (first : Agrees m m')
    (next : ∀ a, Agrees (f a) (f' a)) : Agrees (m >>= f) (m' >>= f') := by
  intro b ok
  obtain ⟨a, here, rest⟩ := bind_eq_ok ok
  rw [first a here, bind_ok]
  exact next a b rest

theorem failIf_ne_panic (condition : Prop) [Decidable condition] (error : ε) :
    failIf condition error ≠ .error .panic := by
  unfold failIf
  split
  · exact nofun
  · exact nofun

theorem failIf_of_not {condition : Prop} [Decidable condition] {error : ε}
    (absent : ¬ condition) : failIf condition error = .ok () :=
  if_neg absent

theorem failIf_of {condition : Prop} [Decidable condition] {error : ε} (holds : condition) :
    failIf condition error = .error (.err error) :=
  if_pos holds

theorem failIf_eq_ok {condition : Prop} [Decidable condition] {error : ε} {u : Unit}
    (ok : failIf condition error = .ok u) : ¬ condition := by
  intro holds
  rw [failIf, if_pos holds] at ok
  cases ok

theorem okOr_eq_ok {value : Option α} {error : ε} {a : α} (ok : okOr value error = .ok a) :
    value = some a := by
  cases value with
  | none => cases ok
  | some b =>
      cases ok
      rfl

/-! ## The errors of a computation -/

/-- All errors the computation may return have a property. -/
def ErrorsAre (p : ε → Prop) (m : Checked ε α) : Prop := ∀ error, m = .error (.err error) → p error

/-- The errors of a computation are those of its parts. -/
theorem ErrorsAre.andThen {p : ε → Prop} {m : Checked ε α} {f : α → Checked ε β}
    (first : ErrorsAre p m) (next : ∀ a, ErrorsAre p (f a)) : ErrorsAre p (m >>= f) := by
  intro error failed
  cases m with
  | error failure => exact first error (congrArg Except.error (Except.error.inj failed))
  | ok a => exact next a error failed

theorem ErrorsAre.pure {p : ε → Prop} (a : α) : ErrorsAre p (.ok a : Checked ε α) := nofun

theorem ErrorsAre.fail {p : ε → Prop} {error : ε} (holds : p error) :
    ErrorsAre p (RustStd.fail error : Checked ε α) := by
  intro other failed
  cases failed
  exact holds

theorem ErrorsAre.failIf {p : ε → Prop} {condition : Prop} [Decidable condition] {error : ε}
    (holds : p error) : ErrorsAre p (RustStd.failIf condition error) := by
  unfold RustStd.failIf
  split
  · exact .fail holds
  · exact .pure ()

theorem ErrorsAre.okOr {p : ε → Prop} (value : Option α) {error : ε} (holds : p error) :
    ErrorsAre p (RustStd.okOr value error) := by
  cases value with
  | none => exact .fail holds
  | some a => exact .pure a

theorem ErrorsAre.mapErr {p : ε → Prop} {q : δ → Prop} {f : ε → δ} {m : Checked ε α}
    (errors : ErrorsAre p m) (maps : ∀ error, p error → q (f error)) :
    ErrorsAre q (RustStd.mapErr f m) := by
  intro error failed
  cases m with
  | ok a => cases failed
  | error failure =>
      cases failure with
      | panic => cases failed
      | err cause =>
          cases failed
          exact maps cause (errors cause rfl)

/-! ## Checked arrays -/

/-- `array[index]`. -/
def item (array : List α) (index : Nat) : Checked ε α :=
  match array[index]? with
  | some a => .ok a
  | none => .error .panic

/-- `array[index] = value`. -/
def setItem (array : List α) (index : Nat) (value : α) : Checked ε (List α) :=
  if index < array.length then .ok (array.set index value) else .error .panic

theorem length_of_setItem {array next : List α} {index : Nat} {value : α}
    (ok : setItem (ε := ε) array index value = .ok next) : next.length = array.length := by
  unfold setItem at ok
  split at ok
  · cases ok
    exact List.length_set
  · cases ok

/-! ## Little-endian integers -/

/-- The `n` low bytes of a number, least significant first. -/
def toLE : Nat → Nat → Bytes
  | 0, _ => []
  | n + 1, value => UInt8.ofNat (value % 256) :: toLE n (value / 256)

/-- The number with the given bytes, least significant first. -/
def ofLE : Bytes → Nat
  | [] => 0
  | b :: rest => b.toNat + 256 * ofLE rest

theorem length_toLE (n value : Nat) : (toLE n value).length = n := by
  induction n generalizing value with
  | zero => rfl
  | succ n ih => rw [toLE, List.length_cons, ih]

theorem ofLE_toLE {n value : Nat} (small : value < 256 ^ n) : ofLE (toLE n value) = value := by
  induction n generalizing value with
  | zero =>
      rw [Nat.pow_zero] at small
      rw [toLE, ofLE]
      omega
  | succ n ih =>
      have low : value % 256 < UInt8.size := Nat.mod_lt _ (by decide)
      have high : value / 256 < 256 ^ n := by
        rw [Nat.pow_succ, Nat.mul_comm] at small
        exact Nat.div_lt_of_lt_mul small
      rw [toLE, ofLE, ih high, UInt8.toNat_ofNat_of_lt' low]
      omega

theorem ofLE_lt {bytes : Bytes} {n : Nat} (length : bytes.length = n) : ofLE bytes < 256 ^ n := by
  subst length
  induction bytes with
  | nil => exact Nat.one_pos
  | cons b rest ih =>
      have byte : b.toNat < 256 := b.toNat_lt
      rw [ofLE, List.length_cons, Nat.pow_succ]
      omega

theorem ofLE_append (front back : Bytes) :
    ofLE (front ++ back) = ofLE front + 256 ^ front.length * ofLE back := by
  induction front with
  | nil => rw [List.nil_append, ofLE, List.length_nil, Nat.pow_zero, Nat.one_mul, Nat.zero_add]
  | cons b front ih =>
      rw [List.cons_append, ofLE, ofLE, ih, List.length_cons, Nat.pow_succ, Nat.mul_add,
        Nat.add_assoc, Nat.mul_comm _ 256, Nat.mul_assoc]

theorem toLE_ofLE {bytes : Bytes} {n : Nat} (length : bytes.length = n) :
    toLE n (ofLE bytes) = bytes := by
  subst length
  induction bytes with
  | nil => rfl
  | cons b rest ih =>
      have byte : b.toNat < 256 := b.toNat_lt
      have low : (b.toNat + 256 * ofLE rest) % 256 = b.toNat := by omega
      have high : (b.toNat + 256 * ofLE rest) / 256 = ofLE rest := by omega
      rw [List.length_cons, ofLE, toLE, low, high, ih, UInt8.ofNat_toNat]

/-- An integer type with a fixed-width little-endian encoding. -/
class LittleEndian (α : Type) where
  width : Nat
  toBytes : α → Bytes
  ofBytes : Bytes → α
  length_toBytes (value : α) : (toBytes value).length = width
  ofBytes_toBytes (value : α) : ofBytes (toBytes value) = value
  toBytes_ofBytes (bytes : Bytes) (length : bytes.length = width) : toBytes (ofBytes bytes) = bytes

open LittleEndian

instance : LittleEndian UInt16 where
  width := 2
  toBytes value := toLE 2 value.toNat
  ofBytes bytes := UInt16.ofNat (ofLE bytes)
  length_toBytes value := length_toLE 2 value.toNat
  ofBytes_toBytes value := by rw [ofLE_toLE value.toNat_lt, UInt16.ofNat_toNat]
  toBytes_ofBytes bytes length := by
    have small : ofLE bytes < UInt16.size := ofLE_lt length
    rw [UInt16.toNat_ofNat_of_lt' small, toLE_ofLE length]

instance : LittleEndian UInt32 where
  width := 4
  toBytes value := toLE 4 value.toNat
  ofBytes bytes := UInt32.ofNat (ofLE bytes)
  length_toBytes value := length_toLE 4 value.toNat
  ofBytes_toBytes value := by rw [ofLE_toLE value.toNat_lt, UInt32.ofNat_toNat]
  toBytes_ofBytes bytes length := by
    have small : ofLE bytes < UInt32.size := ofLE_lt length
    rw [UInt32.toNat_ofNat_of_lt' small, toLE_ofLE length]

instance : LittleEndian UInt64 where
  width := 8
  toBytes value := toLE 8 value.toNat
  ofBytes bytes := UInt64.ofNat (ofLE bytes)
  length_toBytes value := length_toLE 8 value.toNat
  ofBytes_toBytes value := by rw [ofLE_toLE value.toNat_lt, UInt64.ofNat_toNat]
  toBytes_ofBytes bytes length := by
    have small : ofLE bytes < UInt64.size := ofLE_lt length
    rw [UInt64.toNat_ofNat_of_lt' small, toLE_ofLE length]

/-- `u128`. -/
instance : LittleEndian (BitVec 128) where
  width := 16
  toBytes value := toLE 16 value.toNat
  ofBytes bytes := BitVec.ofNat 128 (ofLE bytes)
  length_toBytes value := length_toLE 16 value.toNat
  ofBytes_toBytes value := by rw [ofLE_toLE value.isLt, BitVec.ofNat_toNat, BitVec.setWidth_eq]
  toBytes_ofBytes bytes length := by
    have small : ofLE bytes < 2 ^ 128 := ofLE_lt length
    rw [BitVec.toNat_ofNat, Nat.mod_eq_of_lt small, toLE_ofLE length]

/-! ## UTF-8 -/

/-- `str::as_bytes`. -/
def utf8 (text : List Char) : Bytes := text.flatMap String.utf8EncodeChar

/-- `String::from_utf8`. -/
def fromUtf8 (bytes : Bytes) : Option (List Char) :=
  bytes.toByteArray.utf8Decode?.map Array.toList

theorem fromUtf8_utf8 (text : List Char) : fromUtf8 (utf8 text) = some text := by
  have whole : (utf8 text).toByteArray = text.utf8Encode := rfl
  rw [fromUtf8, whole, List.utf8Decode?_utf8Encode]
  rfl

theorem utf8_eq_of_fromUtf8 {bytes : Bytes} {text : List Char}
    (read : fromUtf8 bytes = some text) : utf8 text = bytes := by
  obtain ⟨chars, decoded, rfl⟩ := Option.map_eq_some_iff.mp read
  have encoded : chars.toList.utf8Encode = bytes.toByteArray := by
    have valid : bytes.toByteArray.utf8Decode?.isSome := by rw [decoded]; rfl
    have whole := ByteArray.utf8Encode_get_utf8Decode? (b := bytes.toByteArray) (h := valid)
    simpa only [decoded, Option.get_some] using whole
  have lists := congrArg (fun array => array.data.toList) encoded
  simpa [List.utf8Encode, utf8] using lists

/-- The first character of a text is told by its bytes, whatever follows them. -/
theorem utf8DecodeChar?_utf8 (c : Char) (text : List Char) (rest : Bytes) :
    (utf8 (c :: text) ++ rest).toByteArray.utf8DecodeChar? 0 = some c := by
  rw [utf8, List.flatMap_cons, List.append_assoc, List.toByteArray_append,
    ByteArray.utf8DecodeChar?_utf8EncodeChar_append]

/-- Bytes that begin those of a text and are a text themselves begin that text. -/
theorem prefix_of_utf8 {part text : List Char} {rest : Bytes}
    (split : utf8 part ++ rest = utf8 text) : part <+: text := by
  induction part generalizing text with
  | nil => exact List.nil_prefix
  | cons c part ih =>
      cases text with
      | nil =>
          have first := utf8DecodeChar?_utf8 c part rest
          rw [split] at first
          cases first
      | cons d text =>
          have first := utf8DecodeChar?_utf8 c part rest
          have second := utf8DecodeChar?_utf8 d text []
          rw [List.append_nil, ← split, first] at second
          obtain rfl := Option.some.inj second
          rw [utf8, utf8, List.flatMap_cons, List.flatMap_cons, List.append_assoc] at split
          exact List.cons_prefix_cons.mpr ⟨rfl, ih (List.append_cancel_left split)⟩
/-- A text that is read from the first bytes of a text is a prefix of it, and a
proper one when bytes are missing. -/
theorem fromUtf8_take {text part : List Char} {k : Nat}
    (read : fromUtf8 ((utf8 text).take k) = some part) :
    part <+: text ∧ (k < (utf8 text).length → part ≠ text) := by
  have bytes := utf8_eq_of_fromUtf8 read
  refine ⟨prefix_of_utf8 (by rw [bytes, List.take_append_drop]), ?_⟩
  rintro short rfl
  have lengths := congrArg List.length bytes
  rw [List.length_take] at lengths
  omega

/-! ## Reading at an offset -/

/-- `bytes[start..stop]`. -/
def slice (bytes : Bytes) (start stop : Nat) : Checked ε Bytes :=
  if start ≤ stop ∧ stop ≤ bytes.length then .ok ((bytes.drop start).take (stop - start))
  else .error .panic

/-- `bytes[offset]`. -/
def byteAt (bytes : Bytes) (offset : Nat) : Checked ε UInt8 :=
  match bytes[offset]? with
  | some b => .ok b
  | none => .error .panic

/-- `bytes[offset..offset + n].try_into()`, with the error of the failed
conversion. -/
def readArray (bytes : Bytes) (offset n : Nat) (error : ε) : Checked ε (FixedBytes n) := do
  let field ← slice bytes offset (offset + n)
  if size : field.length = n then pure ⟨field, size⟩ else fail error

/-- The little-endian integer at an offset. -/
def readLE [LittleEndian α] (bytes : Bytes) (offset : Nat) (error : ε) : Checked ε α := do
  let field ← readArray bytes offset (width α) error
  pure (ofBytes field.val)

/-- `u16::from_le_bytes([bytes[offset], bytes[offset + 1]])`. -/
def peekU16 (bytes : Bytes) (offset : Nat) : Checked ε UInt16 := do
  let low ← byteAt bytes offset
  let high ← byteAt bytes (offset + 1)
  pure (ofBytes [low, high])

/-- Slicing panics, and returns no error. -/
theorem ErrorsAre.slice {p : ε → Prop} (bytes : Bytes) (start stop : Nat) :
    ErrorsAre p (RustStd.slice bytes start stop) := by
  unfold RustStd.slice
  split
  · exact .pure _
  · exact nofun

theorem ErrorsAre.byteAt {p : ε → Prop} (bytes : Bytes) (offset : Nat) :
    ErrorsAre p (RustStd.byteAt bytes offset) := by
  unfold RustStd.byteAt
  split
  · exact .pure _
  · exact nofun

theorem ErrorsAre.readArray {p : ε → Prop} (bytes : Bytes) (offset n : Nat) {error : ε}
    (holds : p error) : ErrorsAre p (RustStd.readArray bytes offset n error) := by
  refine (ErrorsAre.slice bytes offset (offset + n)).andThen fun field => ?_
  split
  · exact .pure _
  · exact .fail holds

theorem ErrorsAre.readLE [LittleEndian α] {p : ε → Prop} (bytes : Bytes) (offset : Nat) {error : ε}
    (holds : p error) : ErrorsAre p (RustStd.readLE (α := α) bytes offset error) :=
  (ErrorsAre.readArray bytes offset _ holds).andThen fun _ => .pure _

/-- The little-endian integers from an offset on, one after the other. -/
def readLEs [LittleEndian α] (bytes : Bytes) (error : ε) : Nat → Nat → Checked ε (List α)
  | 0, _ => pure []
  | count + 1, offset => do
      let first ← readLE bytes offset error
      let more ← readLEs bytes error count (offset + width α)
      pure (first :: more)

theorem length_of_readLEs [LittleEndian α] {bytes : Bytes} {error : ε} {count offset : Nat}
    {values : List α} (ok : readLEs bytes error count offset = .ok values) :
    values.length = count := by
  induction count generalizing offset values with
  | zero =>
      cases ok
      rfl
  | succ count ih =>
      obtain ⟨first, -, ok⟩ := bind_eq_ok ok
      obtain ⟨more, rest, here⟩ := bind_eq_ok ok
      cases here
      rw [List.length_cons, ih rest]

/-- The bytes of a list of integers. -/
def leBytes [LittleEndian α] (values : List α) : Bytes := values.flatMap toBytes

theorem length_leBytes [LittleEndian α] (values : List α) :
    (leBytes values).length = values.length * width α := by
  induction values with
  | nil => rw [leBytes, List.flatMap_nil, List.length_nil, List.length_nil, Nat.zero_mul]
  | cons value more ih =>
      rw [leBytes, List.flatMap_cons, List.length_append, length_toBytes, List.length_cons,
        Nat.succ_mul, ← ih, Nat.add_comm, leBytes]

/-- At the offset the bytes `rest` are still to be read. -/
def Cursor (bytes : Bytes) (offset : Nat) (rest : Bytes) : Prop :=
  ∃ front, front.length = offset ∧ bytes = front ++ rest

namespace Cursor

variable {bytes field rest : Bytes} {offset : Nat}

theorem start (bytes : Bytes) : Cursor bytes 0 bytes := ⟨[], rfl, rfl⟩

theorem length (cursor : Cursor bytes offset rest) : bytes.length = offset + rest.length := by
  obtain ⟨front, rfl, rfl⟩ := cursor
  exact List.length_append

/-- Reading a field moves the cursor behind it. -/
theorem advance (cursor : Cursor bytes offset (field ++ rest)) :
    Cursor bytes (offset + field.length) rest := by
  obtain ⟨front, rfl, rfl⟩ := cursor
  exact ⟨front ++ field, List.length_append, (List.append_assoc ..).symm⟩

theorem slice (cursor : Cursor bytes offset (field ++ rest)) :
    slice (ε := ε) bytes offset (offset + field.length) = .ok field := by
  have within : offset ≤ offset + field.length ∧ offset + field.length ≤ bytes.length := by
    rw [cursor.length, List.length_append]
    omega
  obtain ⟨front, rfl, rfl⟩ := cursor
  rw [RustStd.slice, if_pos within, List.drop_left, Nat.add_sub_cancel_left, List.take_left]

theorem byteAt {b : UInt8} (cursor : Cursor bytes offset (b :: rest)) :
    byteAt (ε := ε) bytes offset = .ok b := by
  obtain ⟨front, rfl, rfl⟩ := cursor
  rw [RustStd.byteAt, List.getElem?_append_right (Nat.le_refl _), Nat.sub_self]
  rfl

theorem readArray {n : Nat} {field : FixedBytes n}
    (cursor : Cursor bytes offset (field.val ++ rest)) (error : ε) :
    readArray bytes offset n error = .ok field := by
  obtain ⟨field, rfl⟩ := field
  rw [RustStd.readArray, cursor.slice, bind_ok, dif_pos rfl]
  rfl

theorem peekU16 {value : UInt16} (cursor : Cursor bytes offset (toBytes value ++ rest)) :
    peekU16 (ε := ε) bytes offset = .ok value := by
  obtain ⟨low, high, equal⟩ : ∃ low high, toBytes value = [low, high] := ⟨_, _, rfl⟩
  have value' := ofBytes_toBytes value
  rw [equal] at cursor value'
  have next := @advance bytes [low] (high :: rest) offset cursor
  rw [List.length_singleton] at next
  rw [RustStd.peekU16, cursor.byteAt, bind_ok, next.byteAt, bind_ok, value']
  rfl

variable [LittleEndian α]

theorem readLE {value : α} (cursor : Cursor bytes offset (toBytes value ++ rest)) (error : ε) :
    readLE bytes offset error = .ok value := by
  have read := @readArray _ bytes rest offset _ ⟨toBytes value, length_toBytes value⟩ cursor error
  rw [RustStd.readLE, read, bind_ok, ofBytes_toBytes]
  rfl

/-- Reading an integer moves the cursor by its width. -/
theorem advanceLE {value : α} (cursor : Cursor bytes offset (toBytes value ++ rest)) :
    Cursor bytes (offset + width α) rest := by
  have moved := cursor.advance
  rwa [length_toBytes] at moved

theorem readLEs {values : List α} (cursor : Cursor bytes offset (leBytes values ++ rest))
    (error : ε) : readLEs bytes error values.length offset = .ok values := by
  induction values generalizing offset with
  | nil => rfl
  | cons value more ih =>
      rw [leBytes, List.flatMap_cons, List.append_assoc] at cursor
      rw [List.length_cons, RustStd.readLEs, cursor.readLE, bind_ok, ih cursor.advanceLE]
      rfl

/-! What was read stood there. -/

theorem of_slice {n : Nat} (cursor : Cursor bytes offset rest)
    (ok : RustStd.slice (ε := ε) bytes offset (offset + n) = .ok field) :
    ∃ rest', rest = field ++ rest' ∧ Cursor bytes (offset + n) rest' := by
  have total := cursor.length
  obtain ⟨front, rfl, rfl⟩ := cursor
  unfold RustStd.slice at ok
  split at ok
  · rename_i within
    cases ok
    have size : (rest.take n).length = n := by
      rw [List.length_take]
      omega
    rw [List.drop_left, Nat.add_sub_cancel_left]
    refine ⟨rest.drop n, (List.take_append_drop n rest).symm, front ++ rest.take n, ?_, ?_⟩
    · rw [List.length_append, size]
    · rw [List.append_assoc, List.take_append_drop]
  · cases ok

theorem of_readArray {n : Nat} {field : FixedBytes n} {error : ε}
    (cursor : Cursor bytes offset rest) (ok : RustStd.readArray bytes offset n error = .ok field) :
    ∃ rest', rest = field.val ++ rest' ∧ Cursor bytes (offset + n) rest' := by
  obtain ⟨taken, cut, converted⟩ := bind_eq_ok ok
  split at converted
  · cases converted
    exact cursor.of_slice cut
  · cases converted

theorem of_byteAt {b : UInt8} (cursor : Cursor bytes offset rest)
    (ok : RustStd.byteAt (ε := ε) bytes offset = .ok b) :
    ∃ rest', rest = b :: rest' ∧ Cursor bytes (offset + 1) rest' := by
  obtain ⟨front, rfl, rfl⟩ := cursor
  cases rest with
  | nil =>
      rw [RustStd.byteAt, List.append_nil, List.getElem?_eq_none (Nat.le_refl _)] at ok
      cases ok
  | cons c rest' =>
      have here : RustStd.byteAt (ε := ε) (front ++ c :: rest') front.length = .ok c :=
        byteAt ⟨front, rfl, rfl⟩
      rw [here] at ok
      cases ok
      exact ⟨rest', rfl, front ++ [b], List.length_append, by simp⟩

theorem of_readLE {value : α} {error : ε} (cursor : Cursor bytes offset rest)
    (ok : RustStd.readLE bytes offset error = .ok value) :
    ∃ rest', rest = toBytes value ++ rest' ∧ Cursor bytes (offset + width α) rest' := by
  obtain ⟨field, read, here⟩ := bind_eq_ok ok
  cases here
  rw [toBytes_ofBytes field.val field.property]
  exact cursor.of_readArray read

theorem of_readLEs {values : List α} {count : Nat} {error : ε} (cursor : Cursor bytes offset rest)
    (ok : RustStd.readLEs bytes error count offset = .ok values) :
    ∃ rest', rest = leBytes values ++ rest' := by
  induction count generalizing offset rest values with
  | zero =>
      cases ok
      exact ⟨rest, rfl⟩
  | succ count ih =>
      obtain ⟨first, readFirst, ok⟩ := bind_eq_ok ok
      obtain ⟨more, readMore, here⟩ := bind_eq_ok ok
      cases here
      obtain ⟨_, rfl, next⟩ := cursor.of_readLE readFirst
      obtain ⟨rest', rfl⟩ := ih next readMore
      exact ⟨rest', (List.append_assoc ..).symm⟩

end Cursor

/-! A read inside the slice does not panic. -/

theorem slice_within {bytes : Bytes} {start stop : Nat} (order : start ≤ stop)
    (within : stop ≤ bytes.length) :
    slice (ε := ε) bytes start stop = .ok ((bytes.drop start).take (stop - start)) :=
  if_pos ⟨order, within⟩

theorem byteAt_returns {bytes : Bytes} {offset : Nat} (within : offset < bytes.length) :
    Returns (byteAt (ε := ε) bytes offset) :=
  ⟨bytes[offset], by rw [byteAt, List.getElem?_eq_getElem within]⟩

theorem readArray_ne_panic {bytes : Bytes} {offset n : Nat} (within : offset + n ≤ bytes.length)
    (error : ε) : readArray bytes offset n error ≠ .error .panic := by
  rw [readArray, slice_within (Nat.le_add_right _ _) within, bind_ok]
  split
  · exact nofun
  · exact nofun

theorem byteAt_ne_panic {bytes : Bytes} {offset : Nat} (within : offset < bytes.length) :
    byteAt (ε := ε) bytes offset ≠ .error .panic := by
  obtain ⟨b, read⟩ := byteAt_returns (ε := ε) within
  rw [read]
  exact nofun

theorem readLE_ne_panic [LittleEndian α] {bytes : Bytes} {offset : Nat}
    (within : offset + width α ≤ bytes.length) (error : ε) :
    readLE (α := α) bytes offset error ≠ .error .panic :=
  bind_ne_panic (readArray_ne_panic within error) fun _ _ => nofun

theorem readLEs_ne_panic [LittleEndian α] {bytes : Bytes} {count offset : Nat}
    (within : offset + count * width α ≤ bytes.length) (error : ε) :
    readLEs (α := α) bytes error count offset ≠ .error .panic := by
  induction count generalizing offset with
  | zero => exact nofun
  | succ count ih =>
      rw [Nat.succ_mul] at within
      refine bind_ne_panic (readLE_ne_panic (by omega) error) fun first _ => ?_
      exact bind_ne_panic (ih (by omega)) fun more _ => nofun

end RustStd
