/-
ASCII text as lists of bytes: character classes, trimming, splitting, decimal numbers.
-/
import Mathlib.Data.List.DropRight
import Mathlib.Data.Nat.Basic
import Mathlib.Algebra.Group.Nat.Defs

namespace GarageDoor
namespace Library
namespace Ascii

abbrev Text : Type := List UInt8

/-- The bytes of a string. -/
def text (s : String) : Text := s.toUTF8.data.toList

def isDigit (b : UInt8) : Bool := 48 ≤ b && b ≤ 57

def isHexDigit (b : UInt8) : Bool := isDigit b || 97 ≤ b && b ≤ 102 || 65 ≤ b && b ≤ 70

/-- Space, tab, line feed, form feed and carriage return. -/
def isWhitespace (b : UInt8) : Bool := b == 32 || b == 9 || b == 10 || b == 12 || b == 13

def toLower (b : UInt8) : UInt8 := if 65 ≤ b && b ≤ 90 then b + 32 else b

def eqIgnoreCase (s t : Text) : Bool := s.map toLower == t.map toLower

def trim (s : Text) : Text := (s.dropWhile isWhitespace).rdropWhile isWhitespace

/-- What stands before and after the first occurrence of `pattern`. -/
def splitOnce (pattern : Text) : Text → Option (Text × Text)
  | [] => none
  | b :: s =>
    if pattern.isPrefixOf (b :: s) then
      some ([], (b :: s).drop pattern.length)
    else
      (splitOnce pattern s).map fun (before, after) => (b :: before, after)

/-- What stands before and after the last `sep`. -/
def rsplitOnce (sep : UInt8) : Text → Option (Text × Text)
  | [] => none
  | b :: s =>
    match rsplitOnce sep s with
    | some (before, after) => some (b :: before, after)
    | none => if b = sep then some ([], s) else none

/-! ## Trimming -/

theorem rdropWhile_append_of_pos {p : UInt8 → Bool} (s : Text) {after : Text}
    (h : ∀ c ∈ after, p c = true) : (s ++ after).rdropWhile p = s.rdropWhile p := by
  induction after using List.reverseRecOn with
  | nil => rw [List.append_nil]
  | append_singleton after c ih =>
    rw [← List.append_assoc, List.rdropWhile_concat_pos _ _ _ (h c (by simp))]
    exact ih fun c hc => h c (List.mem_append_left _ hc)

/-- Whitespace put around a text does not survive trimming. -/
theorem trim_surrounded {before after : Text} (s : Text)
    (hbefore : ∀ c ∈ before, isWhitespace c = true)
    (hafter : ∀ c ∈ after, isWhitespace c = true) : trim (before ++ s ++ after) = trim s := by
  rw [trim, List.append_assoc, List.dropWhile_append_of_pos hbefore, List.dropWhile_append]
  split
  · next hempty =>
    have hs : s.dropWhile isWhitespace = [] := List.isEmpty_iff.mp hempty
    have hall : after.dropWhile isWhitespace = [] := List.dropWhile_eq_nil_iff.mpr hafter
    rw [trim, hs, hall]
  · exact rdropWhile_append_of_pos _ hafter

theorem trim_eq_self {s : Text} (h : ∀ c ∈ s, ¬ isWhitespace c = true) : trim s = s := by
  have hfront : s.dropWhile isWhitespace = s := by
    cases s with
    | nil => rfl
    | cons c s => exact List.dropWhile_cons_of_neg (h c List.mem_cons_self)
  rw [trim, hfront, List.rdropWhile_eq_self_iff]
  exact fun hne => h _ (List.getLast_mem hne)

theorem isDigit_iff {b : UInt8} : isDigit b = true ↔ 48 ≤ b.toNat ∧ b.toNat ≤ 57 := by
  simp [isDigit, UInt8.le_iff_toNat_le]

theorem not_whitespace_of_ge {b : UInt8} (h : 33 ≤ b.toNat) : ¬ isWhitespace b = true := by
  simp only [isWhitespace, Bool.or_eq_true, beq_iff_eq]
  rintro ((((rfl | rfl) | rfl) | rfl) | rfl) <;> exact absurd h (by decide)

theorem not_whitespace_of_digit {b : UInt8} (h : isDigit b = true) : ¬ isWhitespace b = true :=
  not_whitespace_of_ge (Nat.le_trans (by decide) (isDigit_iff.mp h).1)

/-! ## Decimal numbers -/

def pushDigit (v : Nat) (d : UInt8) : Nat := v * 10 + (d.toNat - 48)

/-- The value of `v` with the digits of `ds` after it. -/
def decimalFrom (v : Nat) (ds : Text) : Nat := ds.foldl pushDigit v

def decimal (ds : Text) : Nat := decimalFrom 0 ds

/-- The decimal value, computed digit by digit and given up once it reaches `limit`. -/
def checkedDecimal (limit : Nat) : Nat → Text → Option Nat
  | v, [] => some v
  | v, d :: ds =>
    if pushDigit v d < limit then checkedDecimal limit (pushDigit v d) ds else none

@[simp] theorem decimalFrom_nil (v : Nat) : decimalFrom v [] = v := rfl

@[simp] theorem decimalFrom_cons (v : Nat) (d : UInt8) (ds : Text) :
    decimalFrom v (d :: ds) = decimalFrom (pushDigit v d) ds := by
  simp only [decimalFrom, List.foldl_cons]

theorem le_pushDigit (v : Nat) (d : UInt8) : v ≤ pushDigit v d := by
  unfold pushDigit
  omega

theorem le_decimalFrom (v : Nat) (ds : Text) : v ≤ decimalFrom v ds := by
  induction ds generalizing v with
  | nil => exact Nat.le_refl v
  | cons d ds ih => exact Nat.le_trans (le_pushDigit v d) (ih _)

/-- Giving up early loses nothing: the value never shrinks. -/
theorem checkedDecimal_eq_some {limit v w : Nat} {ds : Text} (hv : v < limit) :
    checkedDecimal limit v ds = some w ↔ decimalFrom v ds = w ∧ w < limit := by
  induction ds generalizing v with
  | nil =>
    simp only [checkedDecimal, decimalFrom_nil, Option.some.injEq]
    constructor
    · rintro rfl
      exact ⟨rfl, hv⟩
    · exact And.left
  | cons d ds ih =>
    rw [checkedDecimal, decimalFrom_cons]
    by_cases hd : pushDigit v d < limit
    · rw [if_pos hd, ih hd]
    · rw [if_neg hd]
      have := le_decimalFrom (pushDigit v d) ds
      constructor
      · intro h
        cases h
      · rintro ⟨rfl, hw⟩
        omega

/-- What the guard before a checked fold accepts. -/
theorem guardedDecimal_eq_some {limit v : Nat} {ds : Text} (hlimit : 0 < limit) :
    (if ds = [] ∨ ¬ ds.all isDigit then none else checkedDecimal limit 0 ds) = some v ↔
      (ds ≠ [] ∧ ∀ d ∈ ds, isDigit d = true) ∧ decimal ds = v ∧ v < limit := by
  rw [← List.all_eq_true]
  by_cases hgood : ds ≠ [] ∧ ds.all isDigit = true
  · rw [if_neg (not_or.mpr ⟨hgood.1, not_not.mpr hgood.2⟩), checkedDecimal_eq_some hlimit]
    exact ⟨fun h => ⟨hgood, h⟩, And.right⟩
  · have hbad : ds = [] ∨ ¬ ds.all isDigit = true := by
      rwa [not_and_or, not_not] at hgood
    rw [if_pos hbad]
    exact ⟨fun h => absurd h (by simp), fun h => absurd h.1 hgood⟩

end Ascii
end Library
end GarageDoor
