/-
Base64 with the standard alphabet and padding: encoder, decoder and their round trip.

Three bytes are one number of 24 bits and four symbols of six bits each.  A last group
of one or two bytes is filled up with zero bits and its missing symbols are padding.
-/
import GarageDoor.Library.Ascii

namespace GarageDoor
namespace Library
namespace Base64

open Ascii

def pad : UInt8 := 61

/-- The symbol of a six-bit value. -/
def symbol (v : Nat) : UInt8 :=
  if v < 26 then 65 + UInt8.ofNat v
  else if v < 52 then 97 + UInt8.ofNat (v - 26)
  else if v < 62 then 48 + UInt8.ofNat (v - 52)
  else if v = 62 then 43
  else 47

/-- The six-bit value of a symbol. -/
def value (c : UInt8) : Option Nat :=
  if 65 ≤ c ∧ c ≤ 90 then some (c.toNat - 65)
  else if 97 ≤ c ∧ c ≤ 122 then some (c.toNat - 97 + 26)
  else if 48 ≤ c ∧ c ≤ 57 then some (c.toNat - 48 + 52)
  else if c = 43 then some 62
  else if c = 47 then some 63
  else none

/-- Three bytes as one number. -/
def group (b₀ b₁ b₂ : UInt8) : Nat := b₀.toNat * 2 ^ 16 + b₁.toNat * 2 ^ 8 + b₂.toNat

/-- The symbol `shift` bits up in a group. -/
def symbolAt (n shift : Nat) : UInt8 := symbol (n / 2 ^ shift % 64)

def encode : List UInt8 → Text
  | [] => []
  | [b₀] => [symbolAt (group b₀ 0 0) 18, symbolAt (group b₀ 0 0) 12, pad, pad]
  | [b₀, b₁] =>
    [symbolAt (group b₀ b₁ 0) 18, symbolAt (group b₀ b₁ 0) 12, symbolAt (group b₀ b₁ 0) 6, pad]
  | b₀ :: b₁ :: b₂ :: bytes =>
    symbolAt (group b₀ b₁ b₂) 18 :: symbolAt (group b₀ b₁ b₂) 12 ::
      symbolAt (group b₀ b₁ b₂) 6 :: symbolAt (group b₀ b₁ b₂) 0 :: encode bytes

/-- The byte `shift` bits up in four six-bit values. -/
def byteAt (v₀ v₁ v₂ v₃ shift : Nat) : UInt8 :=
  UInt8.ofNat ((v₀ * 2 ^ 18 + v₁ * 2 ^ 12 + v₂ * 2 ^ 6 + v₃) / 2 ^ shift)

/-- Padding may only end the text, and the bits it leaves unused must be zero. -/
def decode : Text → Option (List UInt8)
  | [] => some []
  | c₀ :: c₁ :: c₂ :: c₃ :: rest =>
    match value c₀, value c₁, value c₂, value c₃ with
    | some v₀, some v₁, some v₂, some v₃ =>
      (decode rest).map fun bytes =>
        byteAt v₀ v₁ v₂ v₃ 16 :: byteAt v₀ v₁ v₂ v₃ 8 :: byteAt v₀ v₁ v₂ v₃ 0 :: bytes
    | some v₀, some v₁, some v₂, none =>
      if c₃ = pad ∧ rest = [] ∧ v₂ % 4 = 0 then
        some [byteAt v₀ v₁ v₂ 0 16, byteAt v₀ v₁ v₂ 0 8]
      else
        none
    | some v₀, some v₁, none, none =>
      if c₂ = pad ∧ c₃ = pad ∧ rest = [] ∧ v₁ % 16 = 0 then some [byteAt v₀ v₁ 0 0 16] else none
    | _, _, _, _ => none
  | _ => none

/-! ## Symbols -/

theorem value_symbol {v : Nat} (h : v < 64) : value (symbol v) = some v := by
  revert v
  decide

theorem value_pad : value pad = none := by decide

theorem value_symbolAt (n shift : Nat) : value (symbolAt n shift) = some (n / 2 ^ shift % 64) :=
  value_symbol (Nat.mod_lt _ (by decide))

/-- What is neither a symbol nor padding does not occur in encoded text. -/
theorem mem_encode {c : UInt8} {bytes : List UInt8} (h : c ∈ encode bytes) :
    c = pad ∨ ∃ v < 64, c = symbol v := by
  have hsymbol : ∀ n shift, ∃ v < 64, symbolAt n shift = symbol v := fun n shift =>
    ⟨_, Nat.mod_lt _ (by decide), rfl⟩
  induction bytes using encode.induct with
  | case1 => simp [encode] at h
  | case2 b₀ | case3 b₀ b₁ =>
    simp only [encode, List.mem_cons, List.not_mem_nil, or_false] at h
    rcases h with rfl | rfl | rfl | rfl <;> simp [hsymbol]
  | case4 b₀ b₁ b₂ bytes ih =>
    simp only [encode, List.mem_cons] at h
    rcases h with rfl | rfl | rfl | rfl | h
    · exact .inr (hsymbol _ _)
    · exact .inr (hsymbol _ _)
    · exact .inr (hsymbol _ _)
    · exact .inr (hsymbol _ _)
    · exact ih h

theorem length_encode (bytes : List UInt8) :
    (encode bytes).length = 4 * ((bytes.length + 2) / 3) := by
  induction bytes using encode.induct with
  | case1 => rfl
  | case2 b₀ => simp [encode]
  | case3 b₀ b₁ => simp [encode]
  | case4 b₀ b₁ b₂ bytes ih =>
    simp only [encode, List.length_cons, ih]
    omega

/-! ## The round trip -/

/-- The six-bit values of a group make up the group. -/
theorem byteAt_group (b₀ b₁ b₂ : UInt8) :
    let n := group b₀ b₁ b₂
    byteAt (n / 2 ^ 18 % 64) (n / 2 ^ 12 % 64) (n / 2 ^ 6 % 64) (n / 2 ^ 0 % 64) 16 = b₀ ∧
      byteAt (n / 2 ^ 18 % 64) (n / 2 ^ 12 % 64) (n / 2 ^ 6 % 64) (n / 2 ^ 0 % 64) 8 = b₁ ∧
      byteAt (n / 2 ^ 18 % 64) (n / 2 ^ 12 % 64) (n / 2 ^ 6 % 64) (n / 2 ^ 0 % 64) 0 = b₂ := by
  have h₀ := b₀.toNat_lt
  have h₁ := b₁.toNat_lt
  have h₂ := b₂.toNat_lt
  have hwhole : ∀ n < 2 ^ 24, n / 2 ^ 18 % 64 * 2 ^ 18 + n / 2 ^ 12 % 64 * 2 ^ 12 +
      n / 2 ^ 6 % 64 * 2 ^ 6 + n / 2 ^ 0 % 64 = n := by
    intro n hn
    omega
  simp only [byteAt]
  rw [hwhole (group b₀ b₁ b₂) (by simp only [group]; omega)]
  refine ⟨?_, ?_, ?_⟩ <;> apply UInt8.toNat_inj.mp <;> simp only [group, UInt8.toNat_ofNat'] <;>
    omega

/-- The bits that a missing last byte leaves unused are zero. -/
theorem group_two (b₀ b₁ : UInt8) :
    group b₀ b₁ 0 / 2 ^ 0 % 64 = 0 ∧ group b₀ b₁ 0 / 2 ^ 6 % 64 % 4 = 0 := by
  have h₂ : (0 : UInt8).toNat = 0 := rfl
  simp only [group, h₂]
  omega

theorem group_one (b₀ : UInt8) :
    group b₀ 0 0 / 2 ^ 6 % 64 = 0 ∧ group b₀ 0 0 / 2 ^ 12 % 64 % 16 = 0 := by
  have h₂ : (0 : UInt8).toNat = 0 := rfl
  simp only [group, h₂]
  omega

theorem decode_encode (bytes : List UInt8) : decode (encode bytes) = some bytes := by
  induction bytes using encode.induct with
  | case1 => simp [encode, decode]
  | case2 b₀ =>
    obtain ⟨h₀, -, -⟩ := byteAt_group b₀ 0 0
    rw [(group_two b₀ 0).1, (group_one b₀).1] at h₀
    simp only [encode, decode, value_symbolAt, value_pad, (group_one b₀).2, and_self, if_true, h₀]
  | case3 b₀ b₁ =>
    obtain ⟨h₀, h₁, -⟩ := byteAt_group b₀ b₁ 0
    rw [(group_two b₀ b₁).1] at h₀ h₁
    simp only [encode, decode, value_symbolAt, value_pad, (group_two b₀ b₁).2, and_self, if_true,
      h₀, h₁]
  | case4 b₀ b₁ b₂ bytes ih =>
    obtain ⟨h₀, h₁, h₂⟩ := byteAt_group b₀ b₁ b₂
    simp only [encode, decode, value_symbolAt, ih, Option.map_some, h₀, h₁, h₂]

theorem encode_injective {bytes bytes' : List UInt8} (h : encode bytes = encode bytes') :
    bytes = bytes' := by
  have := congrArg decode h
  rwa [decode_encode, decode_encode, Option.some.injEq] at this

end Base64
end Library
end GarageDoor
