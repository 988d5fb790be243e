/-
`memory.x` as the build of the bootloader reads it.

The build takes the regions from the text by itself, without the linker, and checks the
table and the linker symbols.
-/
import GarageDoor.Bootloader.MemoryMap
import GarageDoor.Library.Chars
import Mathlib.Data.List.AList

namespace GarageDoor
namespace Bootloader

open Library

/-- What makes the build panic on a text. -/
inductive Panic where
  | noMemoryBlock
  | hexTerm
  | decimalTerm
  | overflow
  | refused (refusal : Refusal)
  | missingSymbol (symbol : Chars)
  | absoluteSymbol (line : Chars)
  deriving DecidableEq

/-- The result of `i64` arithmetic. -/
def narrow (mode : Overflow) (x : Int) : Except Panic Int :=
  match mode with
  | .panics => if -2 ^ 63 ≤ x ∧ x < 2 ^ 63 then .ok x else .error .overflow
  | .wraps => .ok (x.bmod (2 ^ 64))

/-! ## Comments -/

/-- Where `strip_comments` is. -/
inductive Scan where
  | code
  | block
  | line

/-- The second slash of a line comment is one of the characters skipped. -/
def strip : Scan → Chars → Chars
  | .code, '/' :: '*' :: s => strip .block s
  | .code, '/' :: '/' :: s => strip .line s
  | .code, c :: s => c :: strip .code s
  | .block, '*' :: '/' :: s => strip .code s
  | .block, _ :: s => strip .block s
  | .line, '\n' :: s => '\n' :: strip .code s
  | .line, _ :: s => strip .line s
  | _, [] => []

def stripComments (text : Chars) : Chars := strip .code text

/-! ## Expressions -/

/-- The digits of a term, and what its last letter multiplies them by. -/
def splitScale (term : Chars) : Chars × Int :=
  match term.getLast? with
  | some 'K' | some 'k' => (term.dropLast, 1024)
  | some 'M' | some 'm' => (term.dropLast, 1024 * 1024)
  | _ => (term, 1)

def parseTerm (mode : Overflow) (term : Chars) : Except Panic Int := do
  let (digits, scale) := splitScale term
  let value ← match digits with
    | '0' :: 'x' :: hex | '0' :: 'X' :: hex =>
      ((Chars.parseI64 16 (Chars.trim hex)).elim (.error .hexTerm) .ok)
    | _ => (Chars.parseI64 10 (Chars.trim digits)).elim (.error .decimalTerm) .ok
  narrow mode (value * scale)

structure Eval where
  total : Int
  sign : Int
  term : Chars

/-- A round of the loop; a blank term stays and is not counted. -/
def evalChar (mode : Overflow) (s : Eval) (ch : Char) : Except Panic Eval :=
  if ch = '+' ∨ ch = '-' then do
    let sign := if ch = '-' then -1 else 1
    if Chars.trim s.term = [] then
      pure { s with sign }
    else
      let value ← parseTerm mode (Chars.trim s.term)
      let product ← narrow mode (s.sign * value)
      let total ← narrow mode (s.total + product)
      pure { total, sign, term := [] }
  else
    pure { s with term := s.term ++ [ch] }

abbrev Table : Type := AList fun _ : Chars => Region

def Partition.name : Partition → Chars
  | .boot2 => "BOOT2".toList
  | .flash => "FLASH".toList
  | .active => "ACTIVE".toList
  | .dfu => "DFU".toList
  | .state => "STATE".toList

def Table.regions (table : Table) : Regions := fun name => table.lookup name.name

end Bootloader
end GarageDoor
