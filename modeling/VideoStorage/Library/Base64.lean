import VideoStorage.Library.Bytes
import VideoStorage.Library.Str

/-!
# Base64 for URLs

Three bytes are four letters of six bits each, in the alphabet for URLs and
without padding. What is left over is two letters for one byte and three letters
for two, and the bits that stand for nothing must be zero. Decoding gives back
what was encoded (`decode_encode`).
-/

set_option autoImplicit false

namespace Base64

open RustStd

/-! ## The alphabet -/

def alphabet : Str := "ABCDEFGHIJKLMNOPQRSTUVWXYZabcdefghijklmnopqrstuvwxyz0123456789-_".toList

/-- The letter of six bits. -/
def letter (sextet : Nat) : Char := alphabet.getD sextet 'A'

/-- The six bits of a letter. -/
def sextet (c : Char) : Option Nat := alphabet.findIdx? (· == c)

theorem sextet_letter {n : Nat} (small : n < 64) : sextet (letter n) = some n := by
  have all : ∀ n : Fin 64, sextet (letter n) = some n.val := by decide +kernel
  exact all ⟨n, small⟩

theorem letter_mem (n : Nat) : letter n ∈ alphabet := by
  unfold letter
  rw [List.getD_eq_getElem?_getD]
  cases here : alphabet[n]? with
  | none => decide
  | some c => exact List.mem_of_getElem? here

/-! ## Encoding and decoding -/

def encode : Bytes → Str
  | a :: b :: c :: rest =>
      letter (a.toNat / 4) :: letter (a.toNat % 4 * 16 + b.toNat / 16) ::
        letter (b.toNat % 16 * 4 + c.toNat / 64) :: letter (c.toNat % 64) :: encode rest
  | [a, b] =>
      [letter (a.toNat / 4), letter (a.toNat % 4 * 16 + b.toNat / 16), letter (b.toNat % 16 * 4)]
  | [a] => [letter (a.toNat / 4), letter (a.toNat % 4 * 16)]
  | [] => []

def decode : Str → Option Bytes
  | w :: x :: y :: z :: rest => do
      let w ← sextet w
      let x ← sextet x
      let y ← sextet y
      let z ← sextet z
      let bytes ← decode rest
      some (UInt8.ofNat (w * 4 + x / 16) :: UInt8.ofNat (x % 16 * 16 + y / 4) ::
        UInt8.ofNat (y % 4 * 64 + z) :: bytes)
  | [w, x, y] => do
      let w ← sextet w
      let x ← sextet x
      let y ← sextet y
      if y % 4 = 0 then some [UInt8.ofNat (w * 4 + x / 16), UInt8.ofNat (x % 16 * 16 + y / 4)]
      else none
  | [w, x] => do
      let w ← sextet w
      let x ← sextet x
      if x % 16 = 0 then some [UInt8.ofNat (w * 4 + x / 16)] else none
  | [_] => none
  | [] => some []

/-- The first byte of three is in the first letter and the front of the second. -/
theorem first_byte (a : UInt8) {b : Nat} (small : b < 256) :
    UInt8.ofNat (a.toNat / 4 * 4 + (a.toNat % 4 * 16 + b / 16) / 16) = a := by
  have value : a.toNat / 4 * 4 + (a.toNat % 4 * 16 + b / 16) / 16 = a.toNat := by omega
  rw [value, UInt8.ofNat_toNat]

theorem second_byte (a : Nat) (b : UInt8) {c : Nat} (small : c < 256) :
    UInt8.ofNat ((a % 4 * 16 + b.toNat / 16) % 16 * 16 + (b.toNat % 16 * 4 + c / 64) / 4) = b := by
  have bound := b.toNat_lt
  have value : (a % 4 * 16 + b.toNat / 16) % 16 * 16 + (b.toNat % 16 * 4 + c / 64) / 4 =
      b.toNat := by omega
  rw [value, UInt8.ofNat_toNat]

theorem third_byte (b : Nat) (c : UInt8) :
    UInt8.ofNat ((b % 16 * 4 + c.toNat / 64) % 4 * 64 + c.toNat % 64) = c := by
  have bound := c.toNat_lt
  have value : (b % 16 * 4 + c.toNat / 64) % 4 * 64 + c.toNat % 64 = c.toNat := by omega
  rw [value, UInt8.ofNat_toNat]

/-- What is encoded is written in the alphabet. -/
theorem mem_alphabet_of_mem_encode {bytes : Bytes} {c : Char} (member : c ∈ encode bytes) :
    c ∈ alphabet := by
  induction bytes using encode.induct with
  | case1 a b d rest ih =>
      rw [encode] at member
      simp only [List.mem_cons] at member
      rcases member with rfl | rfl | rfl | rfl | later
      · exact letter_mem _
      · exact letter_mem _
      · exact letter_mem _
      · exact letter_mem _
      · exact ih later
  | case2 a b =>
      rw [encode] at member
      simp only [List.mem_cons, List.not_mem_nil, or_false] at member
      rcases member with rfl | rfl | rfl <;> exact letter_mem _
  | case3 a =>
      rw [encode] at member
      simp only [List.mem_cons, List.not_mem_nil, or_false] at member
      rcases member with rfl | rfl <;> exact letter_mem _
  | case4 => cases member

/-- **Round trip.** -/
theorem decode_encode (bytes : Bytes) : decode (encode bytes) = some bytes := by
  induction bytes using encode.induct with
  | case1 a b c rest ih =>
      have smallA := a.toNat_lt
      have smallB := b.toNat_lt
      have smallC := c.toNat_lt
      rw [encode, decode, sextet_letter (by omega), sextet_letter (by omega),
        sextet_letter (by omega), sextet_letter (by omega), ih]
      simp only [Option.bind_eq_bind, Option.bind_some, first_byte a smallB,
        second_byte a.toNat b smallC, third_byte b.toNat c]
  | case2 a b =>
      have smallA := a.toNat_lt
      have smallB := b.toNat_lt
      have second := second_byte a.toNat b (c := 0) (by decide)
      rw [Nat.zero_div, Nat.add_zero] at second
      rw [encode, decode, sextet_letter (by omega), sextet_letter (by omega),
        sextet_letter (by omega)]
      simp only [Option.bind_eq_bind, Option.bind_some, first_byte a smallB, second]
      rw [if_pos (by omega)]
  | case3 a =>
      have smallA := a.toNat_lt
      have first := first_byte a (b := 0) (by decide)
      rw [Nat.zero_div, Nat.add_zero] at first
      rw [encode, decode, sextet_letter (by omega), sextet_letter (by omega)]
      simp only [Option.bind_eq_bind, Option.bind_some, first]
      rw [if_pos (by omega)]
  | case4 => rfl

end Base64
