import VideoStorage.Library.Bytes

/-!
# Ideal authenticated encryption

An ideal cipher is consulted together with everything sealed so far: it opens a
ciphertext only when that ciphertext was sealed before, under the same key,
nonce and associated data, and then gives the message that was sealed. A correct
one opens everything it sealed itself (`IdealAead.Correct`).
-/

set_option autoImplicit false

namespace RustStd

/-- One call of the encryption, with what it returned. -/
structure Sealing (K N : Type) where
  key : K
  nonce : N
  aad : Bytes
  message : Bytes
  ciphertext : Bytes

/-- A cipher that opens nothing that was not sealed. -/
structure IdealAead (K N : Type) where
  encrypt : K → N → Bytes → Bytes → Option Bytes
  decrypt : List (Sealing K N) → K → N → Bytes → Bytes → Option Bytes
  authentic {sealings : List (Sealing K N)} {key : K} {nonce : N} {aad ciphertext message : Bytes}
    (opened : decrypt sealings key nonce aad ciphertext = some message) :
    ⟨key, nonce, aad, message, ciphertext⟩ ∈ sealings

/-- The ideal cipher that looks a ciphertext up in what was sealed. Its
ciphertexts carry a tag of zeros. -/
def IdealAead.table {K N : Type} [DecidableEq K] [DecidableEq N] (tagSize : Nat) :
    IdealAead K N where
  encrypt _ _ _ message := some (message ++ List.replicate tagSize 0)
  decrypt sealings key nonce aad ciphertext :=
    (sealings.find? fun sealing => sealing.key = key ∧ sealing.nonce = nonce ∧ sealing.aad = aad ∧
      sealing.ciphertext = ciphertext).map fun sealing => sealing.message
  authentic opened := by
    obtain ⟨sealing, found, rfl⟩ := Option.map_eq_some_iff.mp opened
    have same := List.find?_some found
    simp only [decide_eq_true_eq] at same
    obtain ⟨rfl, rfl, rfl, rfl⟩ := same
    exact List.mem_of_find?_eq_some found

/-- The ciphertext is what the encryption returned. -/
def Sealing.Made {K N : Type} (aead : IdealAead K N) (sealing : Sealing K N) : Prop :=
  aead.encrypt sealing.key sealing.nonce sealing.aad sealing.message = some sealing.ciphertext

/-- Decryption gives back what the cipher itself encrypted, and a ciphertext has
room for its tag. -/
structure IdealAead.Correct {K N : Type} (aead : IdealAead K N) (tagSize : Nat) : Prop where
  opens {sealings : List (Sealing K N)} (made : ∀ sealing ∈ sealings, sealing.Made aead)
    {sealing : Sealing K N} (member : sealing ∈ sealings) :
    aead.decrypt sealings sealing.key sealing.nonce sealing.aad sealing.ciphertext =
      some sealing.message
  tagged {key : K} {nonce : N} {aad message ciphertext : Bytes}
    (encrypted : aead.encrypt key nonce aad message = some ciphertext) :
    tagSize ≤ ciphertext.length

theorem IdealAead.correct_table {K N : Type} [DecidableEq K] [DecidableEq N] (tagSize : Nat) :
    (IdealAead.table (K := K) (N := N) tagSize).Correct tagSize where
  opens {sealings} made sealing member := by
    have first : (sealings.find? fun other => other.key = sealing.key ∧
        other.nonce = sealing.nonce ∧ other.aad = sealing.aad ∧
        other.ciphertext = sealing.ciphertext).isSome := by
      rw [List.find?_isSome]
      exact ⟨sealing, member, by simp⟩
    obtain ⟨other, found⟩ := Option.isSome_iff_exists.mp first
    have same := List.find?_some found
    simp only [decide_eq_true_eq] at same
    -- Both messages stand before the same tag.
    have ours := Option.some.inj (made sealing member)
    have theirs := Option.some.inj (made other (List.mem_of_find?_eq_some found))
    rw [same.2.2.2, ← ours] at theirs
    change (sealings.find? _).map _ = _
    rw [found, Option.map_some, List.append_cancel_right theirs]
  tagged encrypted := by
    cases encrypted
    rw [List.length_append, List.length_replicate]
    exact Nat.le_add_left ..

end RustStd
