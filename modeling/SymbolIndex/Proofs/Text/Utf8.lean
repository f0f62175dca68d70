import SymbolIndex.Text.Utf8

/-!
# Proofs.Text.Utf8 — text comes back from its bytes

`decode?_encode` is the round trip; `encode_append`, `encode_ofList` and `encode_ascii` give the bytes of a
text piece by piece.
-/

namespace SymbolIndex.Text

set_option autoImplicit false

theorem decode?_encode (s : String) : decode? (encode s) = some s := by
  have same : (⟨(encode s).toArray⟩ : ByteArray) = s.toUTF8 := rfl
  rw [decode?, same, String.fromUTF8?, String.toUTF8_eq_toByteArray, dif_pos s.isValidUTF8]
  rfl

theorem encode_injective {s t : String} (same : encode s = encode t) : s = t :=
  Option.some.inj (by rw [← decode?_encode s, same, decode?_encode])

theorem encode_ne {s t : String} (other : s ≠ t) : encode s ≠ encode t := fun same => other (encode_injective same)

theorem encode_append (s t : String) : encode (s ++ t) = encode s ++ encode t := by
  have same : (s ++ t).toUTF8 = s.toUTF8 ++ t.toUTF8 := String.toByteArray_append
  rw [encode, encode, encode, same]
  simp

/-- The bytes of a text are those of its characters. -/
theorem encode_ofList (cs : List Char) : encode (String.ofList cs) = cs.flatMap String.utf8EncodeChar := by
  have same : (String.ofList cs).toUTF8 = cs.utf8Encode := String.toByteArray_ofList
  rw [encode, same, List.utf8Encode]
  simp

/-- A character below 128 is one byte. -/
theorem encode_ascii {cs : List Char} (ascii : ∀ c ∈ cs, c.toNat < 128) :
    encode (String.ofList cs) = cs.map (fun c => UInt8.ofNat c.toNat) := by
  rw [encode_ofList]
  induction cs with
  | nil => rfl
  | cons c cs ih =>
      have one : c.utf8Size = 1 := by
        rw [Char.utf8Size_eq_one_iff, UInt32.le_iff_toNat_le]
        have small : c.val.toNat < 128 := ascii c (by simp)
        have bound : (127 : UInt32).toNat = 127 := rfl
        omega
      rw [List.flatMap_cons, String.utf8EncodeChar_eq_singleton one, ih fun d member => ascii d (by simp [member])]
      rfl

end SymbolIndex.Text
