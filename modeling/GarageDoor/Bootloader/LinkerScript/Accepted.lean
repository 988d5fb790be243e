/-
The scripts that the build accepts.
-/
import GarageDoor.Bootloader.LinkerScript.Table

namespace GarageDoor
namespace Bootloader

open Library

/-- What the checks rely on: regions that are not empty, start in flash and end below 2^32. -/
def InRange (regions : Regions) : Prop :=
  ∀ name, ∀ region ∈ regions name, flashBase ≤ region.origin ∧
    region.origin.toNat + region.length.toNat < 2 ^ 32 ∧ 0 < region.length

section

variable {mode : Overflow} {map : Partition → Region} {regions : Regions} {text : Chars}
  {s : Script}

def number (base : Base) (digits : Chars) (value : Nat)
    (reads : Chars.digits base.radix digits = some value) (small : value < 2 ^ 63) (scale : Scale) :
    Operand :=
  { before := [' '], number := { base, digits, value, reads, small }, scale, after := [' ']
    blankBefore := by decide, blankAfter := by decide }

def address (digits : Chars) (value : Nat)
    (reads : Chars.digits 16 digits = some value) (small : value < 2 ^ 63) : Expr :=
  { first := { negative := false, operand := number .hex digits value reads small .one }
    rest := [] }

def boot2Bytes : Operand := number .hex "100".toList 0x100 (by decide) (by decide) .one

theorem forall_of_all {p : Char → Prop} [DecidablePred p] {s : Chars}
    (h : s.all (fun c => decide (p c)) = true) : ∀ c ∈ s, p c :=
  fun c hc => of_decide_eq_true (List.all_eq_true.mp h c hc)

def entry (name : Partition) (origin length : Expr) : Entry :=
  { name := name.name, origin, length, indent := [' '], afterName := [' '], beforeOrigin := [' ']
    afterOrigin := [' '], beforeLength := [' '], afterLength := [' ']
    named := by cases name <;> decide, trimmed := by cases name <;> decide
    plain := by cases name <;> exact forall_of_all rfl, blank := by cases name <;> decide }

end

end Bootloader
end GarageDoor
