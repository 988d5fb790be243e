/-
Lowercase hexadecimal.
-/
import GarageDoor.Library.Ascii

namespace GarageDoor
namespace Library
namespace Hex

open Ascii

/-- The digit of a four-bit value. -/
def digit (v : Nat) : UInt8 := if v < 10 then 48 + UInt8.ofNat v else 87 + UInt8.ofNat v

/-- Two digits for every byte, the high one first. -/
def encode (bytes : List UInt8) : Text :=
  bytes.flatMap fun b => [digit (b.toNat / 16), digit (b.toNat % 16)]

@[simp] theorem encode_nil : encode [] = [] := rfl

@[simp] theorem encode_cons (b : UInt8) (bytes : List UInt8) :
    encode (b :: bytes) = digit (b.toNat / 16) :: digit (b.toNat % 16) :: encode bytes := rfl

theorem length_encode (bytes : List UInt8) : (encode bytes).length = 2 * bytes.length := by
  induction bytes with
  | nil => rfl
  | cons b bytes ih =>
    simp only [encode_cons, List.length_cons, ih]
    omega

/-- A decimal digit or one of the lowercase letters to `f`. -/
def IsDigit (c : UInt8) : Prop := 48 ≤ c ∧ c ≤ 57 ∨ 97 ≤ c ∧ c ≤ 102

theorem isDigit_digit {v : Nat} (h : v < 16) : IsDigit (digit v) := by
  have hall : ∀ v < 16, 48 ≤ digit v ∧ digit v ≤ 57 ∨ 97 ≤ digit v ∧ digit v ≤ 102 := by decide
  exact hall v h

theorem isDigit_encode {bytes : List UInt8} : ∀ c ∈ encode bytes, IsDigit c := by
  induction bytes with
  | nil => simp
  | cons b bytes ih =>
    have hb := b.toNat_lt
    intro c hc
    rw [encode_cons, List.mem_cons, List.mem_cons] at hc
    rcases hc with rfl | rfl | hc
    · exact isDigit_digit (by omega)
    · exact isDigit_digit (by omega)
    · exact ih c hc

theorem digit_injective {v w : Nat} (hv : v < 16) (hw : w < 16) (h : digit v = digit w) :
    v = w := by
  have hall : ∀ v < 16, ∀ w < 16, digit v = digit w → v = w := by decide
  exact hall v hv w hw h

theorem encode_injective {bytes bytes' : List UInt8} (h : encode bytes = encode bytes') :
    bytes = bytes' := by
  induction bytes generalizing bytes' with
  | nil =>
    cases bytes' with
    | nil => rfl
    | cons b' bytes' => cases h
  | cons b bytes ih =>
    cases bytes' with
    | nil => cases h
    | cons b' bytes' =>
      have hb := b.toNat_lt
      have hb' := b'.toNat_lt
      simp only [encode_cons, List.cons.injEq] at h
      have hhigh := digit_injective (by omega) (by omega) h.1
      have hlow := digit_injective (by omega) (by omega) h.2.1
      have hbyte : b = b' := UInt8.toNat_inj.mp (by omega)
      rw [hbyte, ih h.2.2]

end Hex
end Library
end GarageDoor
