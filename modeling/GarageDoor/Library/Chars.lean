/-
Strings as lists of characters: white space, the first place of a pattern, lines, numbers.
-/
import GarageDoor.Library.Lines
import Mathlib.Data.List.DropRight
import Mathlib.Data.List.Infix
import Mathlib.Algebra.Group.Int.Defs
import Mathlib.Algebra.GroupWithZero.Nat

namespace GarageDoor
namespace Library

abbrev Chars : Type := List Char

namespace Chars

/-- The Unicode property `White_Space`. -/
def isWhitespace (c : Char) : Bool :=
  9 ≤ c.toNat && c.toNat ≤ 13 || 0x2000 ≤ c.toNat && c.toNat ≤ 0x200A ||
    [0x20, 0x85, 0xA0, 0x1680, 0x2028, 0x2029, 0x202F, 0x205F, 0x3000].contains c.toNat

def trim (s : Chars) : Chars := (s.dropWhile isWhitespace).rdropWhile isWhitespace

/-- What stands before and after the first occurrence of a pattern that is not empty. -/
def splitOnce (pattern : Chars) : Chars → Option (Chars × Chars)
  | [] => none
  | c :: s =>
    if pattern.isPrefixOf (c :: s) then
      some ([], (c :: s).drop pattern.length)
    else
      (splitOnce pattern s).map fun (before, after) => (c :: before, after)

/-- A line without the carriage return that its line feed came with. -/
def stripReturn (line : Chars) : Chars :=
  if line.getLast? = some '\r' then line.dropLast else line

/-- The line feed at the end is optional. -/
def lines (s : Chars) : List Chars :=
  (endedLines '\n' s).map stripReturn ++ (if openLine '\n' s = [] then [] else [openLine '\n' s])

/-- `char::to_digit`. -/
def digitValue (radix : Nat) (c : Char) : Option Nat :=
  let value :=
    if '0' ≤ c ∧ c ≤ '9' then some (c.toNat - 48)
    else if 'a' ≤ c ∧ c ≤ 'z' then some (c.toNat - 87)
    else if 'A' ≤ c ∧ c ≤ 'Z' then some (c.toNat - 55)
    else none
  value.filter (· < radix)

/-- The number that more digits make of one. -/
def digitsFrom (radix : Nat) : Nat → Chars → Option Nat
  | value, [] => some value
  | value, c :: cs => (digitValue radix c).bind fun d => digitsFrom radix (value * radix + d) cs

/-- The number that digits stand for, if there are any. -/
def digits (radix : Nat) (s : Chars) : Option Nat :=
  if s = [] then none else digitsFrom radix 0 s

/-- `i64::from_str_radix`, and with radix 10 `str::parse`. -/
def parseI64 (radix : Nat) (s : Chars) : Option Int :=
  match s with
  | '-' :: ds => (digits radix ds).bind fun v => if v ≤ 2 ^ 63 then some (-(v : Int)) else none
  | '+' :: ds => (digits radix ds).bind fun v => if v < 2 ^ 63 then some (v : Int) else none
  | ds => (digits radix ds).bind fun v => if v < 2 ^ 63 then some (v : Int) else none

/-! ## White space -/

section

variable {s before after pattern : Chars} {c : Char}

theorem rdropWhile_append_of_pos {p : Char → Bool} (s : Chars) {after : Chars}
    (h : ∀ c ∈ after, p c = true) : (s ++ after).rdropWhile p = s.rdropWhile p := by
  induction after using List.reverseRecOn with
  | nil => rw [List.append_nil]
  | append_singleton after c ih =>
    rw [← List.append_assoc, List.rdropWhile_concat_pos _ _ _ (h c (by simp))]
    exact ih fun c hc => h c (List.mem_append_left _ hc)

/-- A text between white space, if it neither begins nor ends with any. -/
theorem trim_surrounded (hbefore : ∀ c ∈ before, isWhitespace c = true)
    (hafter : ∀ c ∈ after, isWhitespace c = true) (hs : trim s = s) (hne : s ≠ []) :
    trim (before ++ (s ++ after)) = s := by
  have hkeep : (s ++ after).dropWhile isWhitespace = s.dropWhile isWhitespace ++ after := by
    rw [List.dropWhile_append, if_neg]
    intro hempty
    rw [trim, List.isEmpty_iff.mp hempty] at hs
    exact hne hs.symm
  rw [trim, List.dropWhile_append_of_pos hbefore, hkeep, rdropWhile_append_of_pos _ hafter]
  exact hs

theorem trim_eq_self (h : ∀ c ∈ s, isWhitespace c = false) : trim s = s := by
  have hfront : s.dropWhile isWhitespace = s := by
    cases s with
    | nil => rfl
    | cons c s => exact List.dropWhile_cons_of_neg (by simp [h c List.mem_cons_self])
  rw [trim, hfront, List.rdropWhile_eq_self_iff]
  intro hne
  simp [h _ (List.getLast_mem hne)]

/-! ## Patterns -/

section

variable {radix v : Nat}

theorem isSome_digitValue_of_digitsFrom {ds : Chars} (h : digitsFrom radix v ds ≠ none) :
    ∀ c ∈ ds, digitValue radix c ≠ none := by
  induction ds generalizing v with
  | nil => nofun
  | cons c ds ih =>
    rw [digitsFrom] at h
    cases hc : digitValue radix c with
    | none => simp [hc] at h
    | some d =>
      rw [hc] at h
      exact List.forall_mem_cons.mpr ⟨by simp [hc], ih h⟩

theorem digits_eq_some (h : digits radix s = some v) :
    s ≠ [] ∧ ∀ c ∈ s, digitValue radix c ≠ none := by
  rw [digits] at h
  split at h
  · cases h
  · next hne => exact ⟨hne, isSome_digitValue_of_digitsFrom (by rw [h]; nofun)⟩

end

end

end Chars
end Library
end GarageDoor
