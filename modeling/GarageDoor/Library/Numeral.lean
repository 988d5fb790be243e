/-
Decimal numerals as texts.

Of the digit strings with a given value, the numeral is the one without a leading zero.
-/
import GarageDoor.Library.Utf8

namespace GarageDoor
namespace Library
namespace Ascii

/-- The byte of a decimal digit. -/
def digitByte (d : Nat) : UInt8 := 48 + UInt8.ofNat d

/-- The numeral of `n`, without sign or padding. -/
def numeral (n : Nat) : Text := text (toString n)

theorem text_append (s t : String) : text (s ++ t) = text s ++ text t := by
  simp [text]

theorem digitByte_toNat {d : Nat} (h : d < 10) : (digitByte d).toNat = 48 + d := by
  revert d
  decide

theorem isDigit_digitByte {d : Nat} (h : d < 10) : isDigit (digitByte d) = true := by
  revert d
  decide

theorem digitByte_of_isDigit {b : UInt8} (h : isDigit b = true) :
    digitByte (b.toNat - 48) = b := by
  have hb := isDigit_iff.mp h
  apply UInt8.toNat_inj.mp
  rw [digitByte_toNat (by omega)]
  omega

/-! ## One digit at a time -/

theorem numeral_of_lt {n : Nat} (h : n < 10) : numeral n = [digitByte n] := by
  revert n
  decide

theorem numeral_of_ge {n : Nat} (h : 10 ≤ n) :
    numeral n = numeral (n / 10) ++ [digitByte (n % 10)] := by
  have hmod : n % 10 < 10 := Nat.mod_lt n (by decide)
  rw [← numeral_of_lt hmod]
  simp only [numeral]
  rw [← text_append, Nat.toString_eq_ofList_toDigits, Nat.toString_eq_ofList_toDigits,
    Nat.toString_eq_ofList_toDigits, Nat.toDigits_of_base_le (by decide) h,
    Nat.toDigits_of_lt_base hmod, String.ofList_append]

/-- What holds of the digits, and of a numeral with a digit added, holds of all numerals. -/
theorem numeral_induction {P : Nat → Text → Prop} (hdigit : ∀ n < 10, P n [digitByte n])
    (hpush : ∀ n, 10 ≤ n → P (n / 10) (numeral (n / 10)) →
      P n (numeral (n / 10) ++ [digitByte (n % 10)])) (n : Nat) : P n (numeral n) := by
  induction n using Nat.strongRecOn with
  | ind n ih =>
    by_cases h : n < 10
    · rw [numeral_of_lt h]
      exact hdigit n h
    · have hge : 10 ≤ n := by omega
      rw [numeral_of_ge hge]
      exact hpush n hge (ih (n / 10) (by omega))

theorem numeral_ne_nil (n : Nat) : numeral n ≠ [] :=
  numeral_induction (P := fun _ ds => ds ≠ []) (fun _ _ => by simp) (fun _ _ _ => by simp) n

theorem isDigit_numeral (n : Nat) : ∀ b ∈ numeral n, isDigit b = true := by
  refine numeral_induction (P := fun _ ds => ∀ b ∈ ds, isDigit b = true) ?_ ?_ n
  · intro n h b hb
    rw [List.mem_singleton.mp hb]
    exact isDigit_digitByte h
  · intro n _ ih b hb
    rcases List.mem_append.mp hb with hb | hb
    · exact ih b hb
    · rw [List.mem_singleton.mp hb]
      exact isDigit_digitByte (Nat.mod_lt n (by decide))

theorem decimal_append (ds : Text) (d : UInt8) :
    decimal (ds ++ [d]) = pushDigit (decimal ds) d := by
  rw [decimal, decimal, decimalFrom, List.foldl_append]
  rfl

theorem decimal_numeral (n : Nat) : decimal (numeral n) = n := by
  refine numeral_induction (P := fun n ds => decimal ds = n) ?_ ?_ n
  · intro n h
    show 0 * 10 + ((digitByte n).toNat - 48) = n
    rw [digitByte_toNat h]
    omega
  · intro n _ ih
    rw [decimal_append, ih, pushDigit, digitByte_toNat (Nat.mod_lt n (by decide))]
    omega

theorem numeral_length {n k : Nat} (h : n < 10 ^ (k + 1)) : (numeral n).length ≤ k + 1 := by
  induction k generalizing n with
  | zero =>
    rw [numeral_of_lt (by omega)]
    exact Nat.le_refl 1
  | succ k ih =>
    by_cases hn : n < 10
    · rw [numeral_of_lt hn]
      exact Nat.succ_le_succ (Nat.zero_le _)
    · rw [numeral_of_ge (by omega), List.length_append, List.length_singleton]
      have := ih (n := n / 10) (by omega)
      omega

/-! ## Leading zeros -/

/-- A digit string without a leading zero. -/
def Canonical (ds : Text) : Prop := ds = [48] ∨ ds.head? ≠ some 48

instance (ds : Text) : Decidable (Canonical ds) := inferInstanceAs (Decidable (_ ∨ _))

theorem head_digitByte {n : Nat} (h : n < 10) (hn : n ≠ 0) : digitByte n ≠ 48 := by
  intro heq
  have := congrArg UInt8.toNat heq
  rw [digitByte_toNat h] at this
  simp at this
  omega

theorem numeral_canonical (n : Nat) : Canonical (numeral n) := by
  have hhead : n ≠ 0 → (numeral n).head? ≠ some 48 := by
    refine numeral_induction (P := fun n ds => n ≠ 0 → ds.head? ≠ some 48) ?_ ?_ n
    · intro n h hn heq
      exact head_digitByte h hn (Option.some.inj heq)
    · intro n hge ih _ heq
      rw [List.head?_append_of_ne_nil _ (numeral_ne_nil (n / 10))] at heq
      exact ih (by omega) heq
  by_cases hn : n = 0
  · subst hn
    exact .inl (numeral_of_lt (by decide))
  · exact .inr (hhead hn)

theorem decimal_pos {d : UInt8} {ds : Text} (hd : isDigit d = true) (hne : d ≠ 48) :
    0 < decimal (d :: ds) := by
  have hb := isDigit_iff.mp hd
  have hne' : d.toNat ≠ 48 := fun h => hne (UInt8.toNat_inj.mp h)
  have hpush : 0 < pushDigit 0 d := by
    unfold pushDigit
    omega
  exact Nat.lt_of_lt_of_le hpush (le_decimalFrom _ ds)

/-- The numeral is the only digit string of its value without a leading zero. -/
theorem numeral_decimal {ds : Text} (hne : ds ≠ []) (hdigits : ∀ d ∈ ds, isDigit d = true)
    (hcanonical : Canonical ds) : numeral (decimal ds) = ds := by
  induction ds using List.reverseRecOn with
  | nil => exact absurd rfl hne
  | append_singleton ds d ih =>
    have hd : isDigit d = true := hdigits d (by simp)
    have hb := isDigit_iff.mp hd
    cases ds with
    | nil =>
      show numeral (0 * 10 + (d.toNat - 48)) = [d]
      rw [Nat.zero_mul, Nat.zero_add, numeral_of_lt (by omega), digitByte_of_isDigit hd]
    | cons c ds =>
      have hc : c ≠ 48 := by
        rcases hcanonical with h | h
        · simp at h
        · exact fun hc => h (by rw [hc]; rfl)
      have hpos : 0 < decimal (c :: ds) := decimal_pos (hdigits c (by simp)) hc
      have hfront := ih (by simp) (fun b hb => hdigits b (List.mem_append_left _ hb))
        (.inr fun h => hc (Option.some.inj h))
      rw [decimal_append, pushDigit, numeral_of_ge (by omega),
        show (decimal (c :: ds) * 10 + (d.toNat - 48)) / 10 = decimal (c :: ds) by omega,
        show (decimal (c :: ds) * 10 + (d.toNat - 48)) % 10 = d.toNat - 48 by omega, hfront,
        digitByte_of_isDigit hd]

/-- With a leading zero it is another text. -/
theorem numeral_decimal_iff {ds : Text} (hne : ds ≠ []) (hdigits : ∀ d ∈ ds, isDigit d = true) :
    numeral (decimal ds) = ds ↔ Canonical ds := by
  constructor
  · intro h
    rw [← h]
    exact numeral_canonical _
  · exact numeral_decimal hne hdigits

/-! ## In 32 bits -/

/-- Rust's `u32::checked_mul`. -/
def checkedMul (a b : UInt32) : Option UInt32 :=
  if a.toNat * b.toNat < 2 ^ 32 then some (a * b) else none

/-- Rust's `u32::checked_add`. -/
def checkedAdd (a b : UInt32) : Option UInt32 :=
  if a.toNat + b.toNat < 2 ^ 32 then some (a + b) else none

/-- One more digit, given up if the number does not fit. -/
def checkedPush (value : UInt32) (b : UInt8) : Option UInt32 :=
  (checkedMul value 10).bind fun value => checkedAdd value (b - 48).toUInt32

/-- One more digit; the number wraps. -/
def wrappingPush (value : UInt32) (b : UInt8) : UInt32 := value * 10 + (b - 48).toUInt32

theorem digit_toNat {b : UInt8} (h : isDigit b = true) :
    (b - 48).toUInt32.toNat = b.toNat - 48 := by
  have hge : (48 : UInt8) ≤ b := UInt8.le_iff_toNat_le.mpr (isDigit_iff.mp h).1
  rw [UInt8.toNat_toUInt32, UInt8.toNat_sub_of_le _ _ hge]
  rfl

theorem wrappingPush_eq (value : UInt32) {b : UInt8} (h : isDigit b = true) :
    wrappingPush value b = UInt32.ofNat (pushDigit value.toNat b) := by
  apply UInt32.toNat_inj.mp
  rw [wrappingPush, UInt32.toNat_add, UInt32.toNat_mul, digit_toNat h, UInt32.toNat_ofNat']
  show (value.toNat * 10 % 2 ^ 32 + (b.toNat - 48)) % 2 ^ 32 = _
  rw [Nat.mod_add_mod]
  rfl

theorem checkedPush_eq (value : UInt32) {b : UInt8} (h : isDigit b = true) :
    checkedPush value b =
      if pushDigit value.toNat b < 2 ^ 32 then some (UInt32.ofNat (pushDigit value.toNat b))
      else none := by
  have hten : (10 : UInt32).toNat = 10 := rfl
  rw [← wrappingPush_eq value h]
  unfold checkedPush checkedMul pushDigit
  rw [hten]
  by_cases hmul : value.toNat * 10 < 2 ^ 32
  · have hproduct : (value * 10).toNat = value.toNat * 10 := by
      rw [UInt32.toNat_mul, hten]
      exact Nat.mod_eq_of_lt hmul
    rw [if_pos hmul, Option.bind_some, checkedAdd, hproduct, digit_toNat h]
    rfl
  · rw [if_neg hmul, if_neg (by omega)]
    rfl

/-- The checked fold computes the number as long as it fits. -/
theorem foldlM_checkedPush {ds : Text} (h : ∀ d ∈ ds, isDigit d = true) (value : UInt32) :
    ds.foldlM checkedPush value = (checkedDecimal (2 ^ 32) value.toNat ds).map UInt32.ofNat := by
  induction ds generalizing value with
  | nil =>
    rw [checkedDecimal, Option.map_some, UInt32.ofNat_toNat]
    rfl
  | cons d ds ih =>
    rw [List.foldlM_cons, checkedPush_eq value (h d List.mem_cons_self), checkedDecimal]
    by_cases hfits : pushDigit value.toNat d < 2 ^ 32
    · rw [if_pos hfits, if_pos hfits]
      show ds.foldlM checkedPush _ = _
      rw [ih (fun d hd => h d (List.mem_cons_of_mem _ hd)), UInt32.toNat_ofNat_of_lt' hfits]
    · rw [if_neg hfits, if_neg hfits]
      rfl

theorem decimalFrom_mod (m v : Nat) (ds : Text) :
    decimalFrom (v % m) ds % m = decimalFrom v ds % m := by
  induction ds generalizing v with
  | nil => exact Nat.mod_mod v m
  | cons d ds ih =>
    have hpush : pushDigit (v % m) d % m = pushDigit v d % m := by
      rw [pushDigit, pushDigit, Nat.add_mod, Nat.mod_mul_mod, ← Nat.add_mod]
    rw [decimalFrom_cons, decimalFrom_cons, ← ih, hpush, ih]

/-- The unchecked fold computes it modulo `2 ^ 32`. -/
theorem foldl_wrappingPush {ds : Text} (h : ∀ d ∈ ds, isDigit d = true) (value : UInt32) :
    ds.foldl wrappingPush value = UInt32.ofNat (decimalFrom value.toNat ds) := by
  induction ds generalizing value with
  | nil => exact (UInt32.ofNat_toNat).symm
  | cons d ds ih =>
    have hwrap : (wrappingPush value d).toNat = pushDigit value.toNat d % 2 ^ 32 := by
      rw [wrappingPush_eq value (h d List.mem_cons_self), UInt32.toNat_ofNat']
    rw [List.foldl_cons, ih (fun d hd => h d (List.mem_cons_of_mem _ hd)), hwrap,
      decimalFrom_cons]
    apply UInt32.toNat_inj.mp
    rw [UInt32.toNat_ofNat', UInt32.toNat_ofNat']
    exact decimalFrom_mod (2 ^ 32) _ ds

end Ascii
end Library
end GarageDoor
