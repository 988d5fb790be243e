/-
The scanner behind the status request codec.

The scanner walks a payload by position.  Its recursive functions take fuel; a scan
that runs out of it says so, and enough of it is a multiple of what is left to scan.
-/
import GarageDoor.Library.Loop
import GarageDoor.Library.Utf8

namespace GarageDoor
namespace Mqtt

open Library Ascii

inductive StatusRequestError where
  | notObject
  | missingUuid
  | uuidNotString
  | emptyUuid
  | malformed
  deriving DecidableEq, Repr

structure Scanner where
  bytes : List UInt8
  pos : Nat

/-- The result of a scan, with the scanner where it stopped. -/
inductive Scanned (α : Type) where
  | ok (value : α) (scanner : Scanner)
  | error (error : StatusRequestError)
  | outOfFuel

namespace Scanned

variable {α β : Type}

def bind (x : Scanned α) (f : α → Scanner → Scanned β) : Scanned β :=
  match x with
  | .ok value scanner => f value scanner
  | .error e => .error e
  | .outOfFuel => .outOfFuel

@[simp] theorem ok_bind (value : α) (scanner : Scanner) (f : α → Scanner → Scanned β) :
    (ok value scanner).bind f = f value scanner := rfl

end Scanned

inductive Value where
  | string (raw : Text)
  | other
  deriving DecidableEq

def isWs (b : UInt8) : Bool := b == 32 || b == 9 || b == 13 || b == 10

namespace Scanner

def peek (s : Scanner) : Option UInt8 := s.bytes[s.pos]?

def advance (s : Scanner) : Scanner := { s with pos := s.pos + 1 }

def next (s : Scanner) : Option (UInt8 × Scanner) :=
  match s.peek with
  | none => none
  | some b => some (b, s.advance)

/-- The bytes from `start` up to `stop`. -/
def slice (s : Scanner) (start stop : Nat) : List UInt8 := (s.bytes.drop start).take (stop - start)

/-- How many bytes are left. -/
def left (s : Scanner) : Nat := s.bytes.length - s.pos

theorem left_advance {s : Scanner} {b : UInt8} (h : s.peek = some b) :
    s.advance.left < s.left := by
  have := (List.getElem?_eq_some_iff.mp h).1
  simp only [left, advance]
  omega

/-! ## Whitespace and strings -/

/-- Goes on past the bytes that `p` accepts. -/
def whileLoop (p : UInt8 → Bool) : Loop Scanner Scanner where
  body s := if s.peek.any p then .inl s.advance else .inr s
  variant := left
  decreases := by
    intro s s' h
    cases hpeek : s.peek with
    | none => simp [hpeek] at h
    | some b =>
      by_cases hp : p b
      · simp only [hpeek, Option.any_some, hp, if_true, Sum.inl.injEq] at h
        rw [← h]
        exact left_advance hpeek
      · simp [hpeek, hp] at h

def skipWs (s : Scanner) : Scanner := (whileLoop isWs).run s

/-- Four hex digits. -/
def skipHex : Nat → Scanner → Option Scanner
  | 0, s => some s
  | n + 1, s =>
    match s.next with
    | none => none
    | some (digit, s) => if isHexDigit digit then skipHex n s else none

/-- What follows a backslash. -/
def skipEscape (s : Scanner) : Option Scanner :=
  match s.next with
  | none => none
  | some (b, s) =>
    if b ∈ [34, 92, 47, 98, 102, 110, 114, 116] then some s
    else if b = 117 then skipHex 4 s
    else none

/-- One round of `parse_string_raw`, for a string that begins at `start`. -/
def stringStep (start : Nat) (s : Scanner) : Scanner ⊕ Scanned Text :=
  match s.next with
  | none => .inr (.error .malformed)
  | some (b, s) =>
    if b = 34 then
      match fromUtf8 (s.slice start (s.pos - 1)) with
      | none => .inr (.error .malformed)
      | some raw => .inr (.ok raw s)
    else if b = 92 then
      match s.skipEscape with
      | none => .inr (.error .malformed)
      | some s => .inl s
    else if b < 32 then
      .inr (.error .malformed)
    else
      .inl s

theorem left_skipHex {n : Nat} {s s' : Scanner} (h : skipHex n s = some s') :
    s'.left ≤ s.left := by
  induction n generalizing s with
  | zero =>
    cases h
    exact Nat.le_refl _
  | succ n ih =>
    unfold skipHex next at h
    cases hpeek : s.peek with
    | none => simp [hpeek] at h
    | some digit =>
      by_cases hhex : isHexDigit digit
      · simp only [hpeek, hhex, if_true] at h
        exact Nat.le_trans (ih h) (Nat.le_of_lt (left_advance hpeek))
      · simp [hpeek, hhex] at h

theorem left_skipEscape {s s' : Scanner} (h : s.skipEscape = some s') : s'.left ≤ s.left := by
  unfold skipEscape next at h
  cases hpeek : s.peek with
  | none => simp [hpeek] at h
  | some b =>
    have hle := Nat.le_of_lt (left_advance hpeek)
    simp only [hpeek] at h
    by_cases hsimple : b ∈ [34, 92, 47, 98, 102, 110, 114, 116]
    · rw [if_pos hsimple, Option.some.injEq] at h
      rwa [← h]
    · rw [if_neg hsimple] at h
      by_cases hu : b = 117
      · rw [if_pos hu] at h
        exact Nat.le_trans (left_skipHex h) hle
      · rw [if_neg hu] at h
        cases h

def stringLoop (start : Nat) : Loop Scanner (Scanned Text) where
  body := stringStep start
  variant := left
  decreases := by
    intro s s' h
    unfold stringStep next at h
    cases hpeek : s.peek with
    | none => simp [hpeek] at h
    | some b =>
      have hlt := left_advance hpeek
      simp only [hpeek] at h
      by_cases hquote : b = 34
      · rw [if_pos hquote] at h
        cases hutf8 : fromUtf8 (s.advance.slice start (s.advance.pos - 1)) <;> simp [hutf8] at h
      rw [if_neg hquote] at h
      by_cases hbackslash : b = 92
      · rw [if_pos hbackslash] at h
        cases hescape : s.advance.skipEscape with
        | none => simp [hescape] at h
        | some t =>
          simp only [hescape, Sum.inl.injEq] at h
          rw [← h]
          exact Nat.lt_of_le_of_lt (left_skipEscape hescape) hlt
      rw [if_neg hbackslash] at h
      by_cases hcontrol : b < 32
      · simp [hcontrol] at h
      · rw [if_neg hcontrol, Sum.inl.injEq] at h
        rwa [← h]

/-- The raw body of the string at the scanner, whose opening quote was seen. -/
def parseStringRaw (s : Scanner) : Scanned Text := (stringLoop (s.pos + 1)).run s.advance

/-! ## Literals and numbers -/

def skipLiteral (s : Scanner) : Scanned Unit :=
  match [text "true", text "false", text "null"].find? fun literal =>
      literal.isPrefixOf (s.bytes.drop s.pos) with
  | some literal => .ok () { s with pos := s.pos + literal.length }
  | none => .error .malformed

/-- Skips digits; the flag says whether there were any. -/
def skipDigits (s : Scanner) : Bool × Scanner :=
  let s' := (whileLoop isDigit).run s
  (s.pos < s'.pos, s')

def requireDigits (s : Scanner) : Scanned Unit :=
  match s.skipDigits with
  | (true, s) => .ok () s
  | (false, _) => .error .malformed

def skipFraction (s : Scanner) : Scanned Unit :=
  if s.peek = some 46 then s.advance.requireDigits else .ok () s

def skipExponent (s : Scanner) : Scanned Unit :=
  if s.peek = some 101 ∨ s.peek = some 69 then
    let s := s.advance
    let s := if s.peek = some 43 ∨ s.peek = some 45 then s.advance else s
    s.requireDigits
  else
    .ok () s

def skipNumber (s : Scanner) : Scanned Unit :=
  let s := if s.peek = some 45 then s.advance else s
  s.requireDigits.bind fun _ s => s.skipFraction.bind fun _ s => s.skipExponent

/-! ## Values -/

/-- A key, a colon and a value. -/
def member (parseValue : Scanner → Scanned Value) (s : Scanner) : Scanned (Text × Value) :=
  let s := s.skipWs
  if s.peek ≠ some 34 then
    .error .malformed
  else
    s.parseStringRaw.bind fun key s =>
      let s := s.skipWs
      if s.peek ≠ some 58 then .error .malformed
      else (parseValue s.advance).bind fun value s => .ok (key, value) s

/-- A comma and more, or the closing byte. -/
def separator {α : Type} (close : UInt8) (more : Scanner → Scanned α) (result : α) (s : Scanner) :
    Scanned α :=
  let s := s.skipWs
  if s.peek = some 44 then more s.advance
  else if s.peek = some close then .ok result s.advance
  else .error .malformed

/-- From an opening byte on, given the loop over what it opens. -/
def skipNested {α : Type} (close : UInt8) (empty : α) (loop : Scanner → Scanned α) (s : Scanner) :
    Scanned α :=
  let s := s.advance.skipWs
  if s.peek = some close then .ok empty s.advance else loop s

mutual

def parseValue : Nat → Scanner → Scanned Value
  | 0, _ => .outOfFuel
  | fuel + 1, s =>
    let s := s.skipWs
    if s.peek = some 34 then
      s.parseStringRaw.bind fun raw s => .ok (.string raw) s
    else if s.peek = some 123 then
      (s.skipNested 125 () (skipMembers fuel)).bind fun _ s => .ok .other s
    else if s.peek = some 91 then
      (s.skipNested 93 () (skipItems fuel)).bind fun _ s => .ok .other s
    else if s.peek = some 116 ∨ s.peek = some 102 ∨ s.peek = some 110 then
      s.skipLiteral.bind fun _ s => .ok .other s
    else if s.peek = some 45 ∨ s.peek.any isDigit then
      s.skipNumber.bind fun _ s => .ok .other s
    else
      .error .malformed

/-- The loop of `skip_object`. -/
def skipMembers : Nat → Scanner → Scanned Unit
  | 0, _ => .outOfFuel
  | fuel + 1, s =>
    (s.member (parseValue fuel)).bind fun _ s => s.separator 125 (skipMembers fuel) ()

/-- The loop of `skip_array`. -/
def skipItems : Nat → Scanner → Scanned Unit
  | 0, _ => .outOfFuel
  | fuel + 1, s =>
    (parseValue fuel s).bind fun _ s => s.separator 93 (skipItems fuel) ()

end

end Scanner

/-! ## The status request -/

/-- The first top-level `uuid` wins. -/
def record (found : Option Text) (key : Text) (value : Value) :
    Except StatusRequestError (Option Text) :=
  if key = text "uuid" ∧ found = none then
    match value with
    | .string uuid => .ok (some uuid)
    | .other => .error .uuidNotString
  else
    .ok found

/-- The loop over the members of the outermost object. -/
def statusMembers : Nat → Option Text → Scanner → Scanned (Option Text)
  | 0, _, _ => .outOfFuel
  | fuel + 1, found, s =>
    (s.member (Scanner.parseValue fuel)).bind fun (key, value) s =>
      match record found key value with
      | .error e => .error e
      | .ok found => s.separator 125 (statusMembers fuel found) found

/-- What the found `uuid` makes of a payload that was scanned to its end. -/
def statusOf : Option Text → Except StatusRequestError Text
  | none => .error .missingUuid
  | some [] => .error .emptyUuid
  | some uuid => .ok uuid

/-- Nothing but whitespace may follow the outermost object. -/
def atEnd : Scanned (Option Text) → Except StatusRequestError Text
  | .outOfFuel => .error .malformed
  | .error e => .error e
  | .ok found s =>
    let s := s.skipWs
    if s.pos ≠ s.bytes.length then .error .malformed else statusOf found

def parseStatusRequest (payload : List UInt8) : Except StatusRequestError Text :=
  let s := Scanner.skipWs { bytes := payload, pos := 0 }
  if s.peek ≠ some 123 then
    .error .notObject
  else
    atEnd (s.skipNested 125 none (statusMembers (2 * payload.length + 2) none))

end Mqtt
end GarageDoor
