/-
UTF-8 texts as lists of bytes.
-/
import GarageDoor.Library.Ascii

namespace GarageDoor
namespace Library

open Ascii

/-- The bytes encode a string of Unicode scalar values. -/
def ValidUtf8 (bytes : List UInt8) : Prop := (ByteArray.mk bytes.toArray).IsValidUTF8

instance : DecidablePred ValidUtf8 := fun _ => inferInstanceAs (Decidable (ByteArray.IsValidUTF8 _))

/-- The bytes as a text, if they are one. -/
def fromUtf8 (bytes : List UInt8) : Option Text :=
  if ValidUtf8 bytes then some bytes else none

theorem validUtf8_append {s t : List UInt8} (hs : ValidUtf8 s) (ht : ValidUtf8 t) :
    ValidUtf8 (s ++ t) := by
  have happend := ByteArray.IsValidUTF8.append hs ht
  rwa [show ByteArray.mk s.toArray ++ ByteArray.mk t.toArray = ByteArray.mk (s ++ t).toArray from
    ByteArray.ext (by simp)] at happend

theorem validUtf8_text (s : String) : ValidUtf8 (text s) := s.isValidUTF8

/-- The character of an ASCII byte. -/
def asciiChar (b : UInt8) : Char := Char.ofNat b.toNat

theorem utf8Encode_asciiChar {b : UInt8} (h : b < 128) :
    [asciiChar b].utf8Encode = ByteArray.mk #[b] := by
  have hlt : b.toNat < 128 := UInt8.lt_iff_toNat_lt.mp h
  have hval : (Char.ofNat b.toNat).val = b.toUInt32 := by
    unfold Char.ofNat
    rw [dif_pos (by left; omega)]
    apply UInt32.toNat_inj.mp
    show b.toNat = b.toUInt32.toNat
    simp
  have hsize : (Char.ofNat b.toNat).utf8Size = 1 := by
    rw [Char.utf8Size_eq_one_iff, hval, UInt32.le_iff_toNat_le]
    simp
    omega
  rw [asciiChar, List.utf8Encode_singleton, String.utf8EncodeChar_eq_singleton hsize, hval]
  apply ByteArray.ext
  simp

theorem validUtf8_singleton {b : UInt8} (h : b < 128) : ValidUtf8 [b] :=
  ⟨[asciiChar b], (utf8Encode_asciiChar h).symm⟩

/-- ASCII is valid. -/
theorem validUtf8_of_ascii {bytes : List UInt8} (h : ∀ b ∈ bytes, b < 128) : ValidUtf8 bytes := by
  induction bytes with
  | nil => exact ByteArray.isValidUTF8_empty
  | cons b bytes ih =>
    exact validUtf8_append (validUtf8_singleton (h b List.mem_cons_self))
      (ih fun c hc => h c (List.mem_cons_of_mem b hc))

theorem fromUtf8_of_valid {bytes : List UInt8} (h : ValidUtf8 bytes) :
    fromUtf8 bytes = some bytes :=
  if_pos h

/-- The characters of a text. -/
def decodeUtf8 (bytes : List UInt8) : Option (List Char) :=
  (String.fromUTF8? (ByteArray.mk bytes.toArray)).map String.toList

def encodeUtf8 (cs : List Char) : Text := text (String.ofList cs)

theorem utf8Encode_ascii {bytes : List UInt8} (h : ∀ b ∈ bytes, b < 128) :
    (bytes.map asciiChar).utf8Encode = ByteArray.mk bytes.toArray := by
  induction bytes with
  | nil => rfl
  | cons b bytes ih =>
    have hhead := utf8Encode_asciiChar (h b List.mem_cons_self)
    have htail := ih fun c hc => h c (List.mem_cons_of_mem b hc)
    rw [List.map_cons, ← List.singleton_append, List.utf8Encode_append, hhead, htail]
    apply ByteArray.ext
    simp

theorem encodeUtf8_ascii {bytes : List UInt8} (h : ∀ b ∈ bytes, b < 128) :
    encodeUtf8 (bytes.map asciiChar) = bytes := by
  rw [encodeUtf8, text, String.toUTF8_eq_toByteArray, String.toByteArray_ofList,
    utf8Encode_ascii h]

theorem decodeUtf8_ascii {bytes : List UInt8} (h : ∀ b ∈ bytes, b < 128) :
    decodeUtf8 bytes = some (bytes.map asciiChar) := by
  have hvalid : (ByteArray.mk bytes.toArray).IsValidUTF8 :=
    ⟨bytes.map asciiChar, (utf8Encode_ascii h).symm⟩
  have hstring : String.fromUTF8 (ByteArray.mk bytes.toArray) hvalid =
      String.ofList (bytes.map asciiChar) := by
    rw [← String.toByteArray_inj, String.toByteArray_ofList, utf8Encode_ascii h]
    rfl
  rw [decodeUtf8, String.fromUTF8?, dif_pos hvalid, hstring, Option.map_some, String.toList_ofList]

end Library
end GarageDoor
