/-
The scanner with its accesses checked.

The functions are those of the scanner in the shape of the source.  Every step past a
byte and every slice asserts that it stays within the payload, every loop that a round
consumes a byte, every scan that its success does, and a value holds a nested one only
while `depth` allows.  No payload makes an assertion fail.
-/
import GarageDoor.Core.Mqtt.Scanner
import GarageDoor.Library.Checked

namespace GarageDoor
namespace Mqtt

open Library Ascii

/-- A scan that may fault. -/
abbrev Scan (α : Type) : Type := Checked Scanner StatusRequestError α

namespace Scan

open Checked

def peek : Scan (Option UInt8) := fun s => .ok s.peek s

/-- `self.pos += n`, within the payload. -/
def consume (n : Nat) : Scan Unit := do
  let s ← get
  check (s.pos + n ≤ s.bytes.length)
  put { s with pos := s.pos + n }

def advance : Scan Unit := consume 1

def next : Scan (Option UInt8) := do
  match ← peek with
  | none => pure none
  | some byte =>
    advance
    pure (some byte)

/-- `self.next().ok_or(StatusRequestError::Malformed)?`. -/
def nextByte : Scan UInt8 := do
  match ← next with
  | none => throw .malformed
  | some byte => pure byte

/-- `self.bytes[start..stop]`. -/
def slice (start stop : Nat) : Scan (List UInt8) := do
  let s ← get
  check (start ≤ stop ∧ stop ≤ s.bytes.length)
  pure (s.slice start stop)

/-- `self.bytes[self.pos..]`. -/
def rest : Scan (List UInt8) := do
  let s ← get
  check (s.pos ≤ s.bytes.length)
  pure (s.bytes.drop s.pos)

/-- A scan that consumes a byte when it succeeds. -/
def consuming {α : Type} (c : Scan α) : Scan α := ensuring (fun s s' => s.pos < s'.pos) c

/-- A loop every round of which consumes a byte. -/
def loop {τ α : Type} (body : τ → Scan (τ ⊕ α)) (t : τ) : Scan α :=
  Checked.loop Scanner.left body t

/-! ## Whitespace and strings -/

def skipWhile (p : UInt8 → Bool) : Scan Unit :=
  loop (fun _ => do
    if (← peek).any p then
      advance
      pure (.inl ())
    else
      pure (.inr ())) ()

def skipWs : Scan Unit := skipWhile isWs

/-- `for _ in 0..n`. -/
def skipHex : Nat → Scan Unit
  | 0 => pure ()
  | n + 1 => do
    let digit ← nextByte
    if isHexDigit digit then skipHex n else throw .malformed

def skipEscape : Scan Unit := do
  let b ← nextByte
  if b ∈ [34, 92, 47, 98, 102, 110, 114, 116] then pure ()
  else if b = 117 then skipHex 4
  else throw .malformed

/-- One round of `parse_string_raw`. -/
def stringRound (start : Nat) : Scan (Unit ⊕ Text) := do
  let b ← nextByte
  if b = 34 then
    let s ← get
    check (1 ≤ s.pos)
    let raw ← slice start (s.pos - 1)
    match fromUtf8 raw with
    | none => throw .malformed
    | some raw => pure (.inr raw)
  else if b = 92 then
    skipEscape
    pure (.inl ())
  else if b < 32 then
    throw .malformed
  else
    pure (.inl ())

def parseStringRaw : Scan Text := consuming do
  advance
  let start := (← get).pos
  loop (fun _ => stringRound start) ()

/-! ## Literals and numbers -/

def skipLiteralOf : List Text → Scan Unit
  | [] => throw .malformed
  | literal :: literals => do
    if literal.isPrefixOf (← rest) then consume literal.length else skipLiteralOf literals

def skipLiteral : Scan Unit := consuming (skipLiteralOf [text "true", text "false", text "null"])

def skipDigits : Scan Bool := do
  let start := (← get).pos
  skipWhile isDigit
  let s ← get
  pure (start < s.pos)

def requireDigits : Scan Unit := do
  if ← skipDigits then pure () else throw .malformed

/-- Advances past a byte that `p` accepts. -/
def skipIf (p : Option UInt8 → Prop) [DecidablePred p] : Scan Unit := do
  if p (← peek) then advance else pure ()

def skipFraction : Scan Unit := do
  if (← peek) = some 46 then
    advance
    requireDigits
  else
    pure ()

def skipExponent : Scan Unit := do
  let b ← peek
  if b = some 101 ∨ b = some 69 then
    advance
    skipIf fun b => b = some 43 ∨ b = some 45
    requireDigits
  else
    pure ()

def skipNumber : Scan Unit := consuming do
  skipIf fun b => b = some 45
  requireDigits
  skipFraction
  skipExponent

/-! ## Values -/

/-- A key and a colon. -/
def memberKey : Scan Text := do
  skipWs
  if (← peek) ≠ some 34 then
    throw .malformed
  else
    let key ← parseStringRaw
    skipWs
    if (← peek) ≠ some 58 then
      throw .malformed
    else
      advance
      pure key

/-- The end of a round: a comma goes on with `t`, the closing byte leaves with `result`. -/
def separator {τ α : Type} (close : UInt8) (t : τ) (result : α) : Scan (τ ⊕ α) := do
  skipWs
  let b ← peek
  if b = some 44 then
    advance
    pure (.inl t)
  else if b = some close then
    advance
    pure (.inr result)
  else
    throw .malformed

/-- From an opening byte on: nothing, or rounds of an item and what separates it. -/
def nested {τ α : Type} (close : UInt8) (empty : α) (item : τ → Scan τ) (result : τ → α) (t : τ) :
    Scan α := do
  advance
  skipWs
  if (← peek) = some close then
    advance
    pure empty
  else
    loop (fun t => do
      let t ← item t
      separator close t (result t)) t

def skipValueOnly (parseValue : Scan Value) : Scan Unit := do
  let _ ← parseValue
  pure ()

def skipObject (parseValue : Scan Value) : Scan Unit := consuming do
  nested 125 () (fun _ => do
    let _ ← memberKey
    skipValueOnly parseValue) id ()

def skipArray (parseValue : Scan Value) : Scan Unit := consuming do
  nested 93 () (fun _ => skipValueOnly parseValue) id ()

/-- A value, with the nested ones scanned by `inner`. -/
def valueOver (inner : Scan Value) : Scan Value := consuming do
  skipWs
  let b ← peek
  if b = some 34 then
    let raw ← parseStringRaw
    pure (.string raw)
  else if b = some 123 then
    skipObject inner
    pure .other
  else if b = some 91 then
    skipArray inner
    pure .other
  else if b = some 116 ∨ b = some 102 ∨ b = some 110 then
    skipLiteral
    pure .other
  else if b = some 45 ∨ b.any isDigit then
    skipNumber
    pure .other
  else
    throw .malformed

/-- At most `depth` values inside one another within the value. -/
def parseValue : Nat → Scan Value
  | 0 => valueOver fault
  | depth + 1 => valueOver (parseValue depth)

def ofExcept {α : Type} : Except StatusRequestError α → Scan α
  | .ok a => pure a
  | .error e => throw e

/-- A member of the outermost object. -/
def statusMember (depth : Nat) (found : Option Text) : Scan (Option Text) := do
  let key ← memberKey
  let value ← parseValue depth
  ofExcept (record found key value)

/-- Behind the outermost object. -/
def atEnd (found : Option Text) : Scan Text := do
  skipWs
  let s ← get
  if s.pos ≠ s.bytes.length then throw .malformed else ofExcept (statusOf found)

/-- `parse_status_request` on a scanner at the start. -/
def parseStatusRequest (depth : Nat) : Scan Text := do
  skipWs
  if (← peek) ≠ some 123 then
    throw .notObject
  else
    let found ← nested 125 none (statusMember depth) id none
    atEnd found

end Scan

/-! ## Where a scan gets to -/

/-- A scan from `s` may be at `s'`. -/
structure Reaches (s s' : Scanner) : Prop where
  bytes : s'.bytes = s.bytes
  pos : s.pos ≤ s'.pos
  within : s'.pos ≤ s'.bytes.length

/-- A scan from `s` may be at `s'`, with a byte consumed. -/
structure Passes (s s' : Scanner) : Prop extends Reaches s s' where
  lt : s.pos < s'.pos

section

variable {s t u : Scanner} {b : UInt8}

def Scanner.Within (s : Scanner) : Prop := s.pos ≤ s.bytes.length

theorem Reaches.refl (h : s.Within) : Reaches s s := ⟨rfl, Nat.le_refl _, h⟩

theorem Reaches.trans (hst : Reaches s t) (htu : Reaches t u) : Reaches s u :=
  ⟨htu.bytes.trans hst.bytes, Nat.le_trans hst.pos htu.pos, htu.within⟩

theorem Reaches.passes (hst : Reaches s t) (htu : Passes t u) : Passes s u :=
  ⟨hst.trans htu.toReaches, Nat.lt_of_le_of_lt hst.pos htu.lt⟩

theorem Passes.reaches (hst : Passes s t) (htu : Reaches t u) : Passes s u :=
  ⟨hst.toReaches.trans htu, Nat.lt_of_lt_of_le hst.lt htu.pos⟩

theorem Passes.trans (hst : Passes s t) (htu : Passes t u) : Passes s u :=
  hst.reaches htu.toReaches

theorem Reaches.left_le (h : Reaches s t) : t.left ≤ s.left := by
  have hpos := h.pos
  unfold Scanner.left
  rw [h.bytes]
  omega

theorem Passes.left_lt (h : Passes s t) : t.left < s.left := by
  have hlt := h.lt
  have hwithin := h.within
  unfold Scanner.left
  rw [h.bytes] at hwithin ⊢
  omega

theorem Scanner.lt_of_peek (h : s.peek = some b) : s.pos < s.bytes.length :=
  (List.getElem?_eq_some_iff.mp h).1

theorem passes_advance (h : s.peek = some b) : Passes s s.advance :=
  ⟨⟨rfl, Nat.le_succ _, Scanner.lt_of_peek h⟩, Nat.lt_succ_self _⟩

end

end Mqtt
end GarageDoor
