/-
Byte-fed HTTP/1.0 response-head parser.
-/
import GarageDoor.Library.Ascii

namespace GarageDoor
namespace Ota

open Library Ascii

/-- Upper bound on the whole response-head block, including the status line. -/
def maxHeadBytes : Nat := 2048

abbrev lineFeed : UInt8 := 10
abbrev carriageReturn : UInt8 := 13
abbrev space : UInt8 := 32
abbrev colon : UInt8 := 58

structure ResponseHead where
  status : Nat
  /-- Declared body length; `none` only for a 404. -/
  contentLength : Option Nat
  deriving DecidableEq, Repr

inductive HeadError where
  | malformedStatusLine
  | tooFewStatusTokens
  | nonNumericStatus
  | unexpectedStatus
  | transferEncoding
  | missingContentLength
  | duplicateContentLength
  | malformedHeader
  | oversizedHeader
  deriving DecidableEq, Repr

inductive HeadEvent where
  | needMore
  | complete (head : ResponseHead)
  | reject (error : HeadError)
  deriving DecidableEq, Repr

inductive HeadState where
  | status
  | headers
  | done
  deriving DecidableEq, Repr

structure HeaderUpdate where
  transferEncoding : Bool
  contentLength : Option Nat
  deriving DecidableEq

inductive Action where
  | skip
  | status (value : Nat)
  | header (update : HeaderUpdate)
  | finish
  | fail (error : HeadError)

/-- `line` holds the bytes of the buffer up to `line_len`. -/
structure HeadParser where
  state : HeadState
  terminal : Option HeadEvent
  line : Text
  total : Nat
  status : Nat
  contentLength : Option Nat
  transferEncoding : Bool
  deriving DecidableEq

/-- The line without one trailing carriage return. -/
def dropCr (line : Text) : Text :=
  if line.getLast? = some carriageReturn then line.dropLast else line

def parseStatus (line : Text) : Except HeadError Nat :=
  if ¬ (text "HTTP/1.0 " <+: line ∨ text "HTTP/1.1 " <+: line) then
    .error .malformedStatusLine
  else if ((line.splitOn space).filter fun token => !token.isEmpty).length < 3 then
    .error .tooFewStatusTokens
  else
    let rest := line.drop 9
    let code := rest.takeWhile (· != space)
    if code = [] ∨ ¬ code.all isDigit then
      .error .nonNumericStatus
    else
      match checkedDecimal (2 ^ 16) 0 code with
      | none => .error .nonNumericStatus
      | some value => .ok value

/-- The value of `Content-Length`, continuing from `parsed`. -/
def parseLength : Nat → Text → Option Nat
  | parsed, [] => some parsed
  | parsed, d :: ds =>
    if isDigit d then
      if pushDigit parsed d < 2 ^ 64 then parseLength (pushDigit parsed d) ds else none
    else none

def parseHeader (line : Text) : Except HeadError HeaderUpdate :=
  if colon ∈ line then
    let name := trim (line.takeWhile (· != colon))
    let value := trim ((line.dropWhile (· != colon)).drop 1)
    if eqIgnoreCase name (text "transfer-encoding") then
      .ok { transferEncoding := true, contentLength := none }
    else if eqIgnoreCase name (text "content-length") then
      if value = [] then
        .error .malformedHeader
      else
        match parseLength 0 value with
        | none => .error .malformedHeader
        | some parsed => .ok { transferEncoding := false, contentLength := some parsed }
    else
      .ok { transferEncoding := false, contentLength := none }
  else
    .error .malformedHeader

namespace HeadParser

/-- A parser awaiting the first status-line byte. -/
def new : HeadParser where
  state := .status
  terminal := none
  line := []
  total := 0
  status := 0
  contentLength := none
  transferEncoding := false

def consumed (p : HeadParser) : Nat := p.total

def finishWith (p : HeadParser) (event : HeadEvent) : HeadEvent × HeadParser :=
  (event, { p with state := .done, terminal := some event })

def complete (p : HeadParser) (contentLength : Option Nat) : HeadEvent × HeadParser :=
  p.finishWith (.complete { status := p.status, contentLength })

def reject (p : HeadParser) (error : HeadError) : HeadEvent × HeadParser :=
  p.finishWith (.reject error)

def finish (p : HeadParser) : HeadEvent × HeadParser :=
  if p.transferEncoding then
    p.reject .transferEncoding
  else if ¬ (200 ≤ p.status ∧ p.status ≤ 299) ∧ p.status ≠ 404 then
    p.reject .unexpectedStatus
  else
    match p.contentLength with
    | some length => p.complete (some length)
    | none => if p.status = 404 then p.complete none else p.reject .missingContentLength

/-- What a complete line asks for. -/
def action (state : HeadState) (line : Text) : Action :=
  match state with
  | .status =>
    match parseStatus line with
    | .ok status => .status status
    | .error error => .fail error
  | .headers =>
    if line = [] then
      .finish
    else
      match parseHeader line with
      | .ok update => .header update
      | .error error => .fail error
  | .done => .skip

def act (p : HeadParser) : Action → HeadEvent × HeadParser
  | .skip => (.needMore, p)
  | .fail error => p.reject error
  | .status status => (.needMore, { p with status, state := .headers })
  | .header update =>
    let p := if update.transferEncoding then { p with transferEncoding := true } else p
    match update.contentLength with
    | some length =>
      if p.contentLength.isSome then
        p.reject .duplicateContentLength
      else
        (.needMore, { p with contentLength := some length })
    | none => (.needMore, p)
  | .finish => p.finish

/-- A byte pushed while no event is latched. -/
def read (p : HeadParser) (b : UInt8) : HeadEvent × HeadParser :=
  let p := { p with total := p.total + 1 }
  if maxHeadBytes < p.total then
    p.reject .oversizedHeader
  else if b ≠ lineFeed then
    if maxHeadBytes ≤ p.line.length then
      p.reject .malformedHeader
    else
      (.needMore, { p with line := p.line ++ [b] })
  else
    act { p with line := [] } (action p.state (dropCr p.line))

/-- Feeds one byte, returning the event and the parser after it. -/
def push (p : HeadParser) (b : UInt8) : HeadEvent × HeadParser :=
  match p.terminal with
  | some event => (event, p)
  | none => p.read b

/-- The parser after the bytes of `s`. -/
def feed (p : HeadParser) (s : List UInt8) : HeadParser :=
  s.foldl (fun p b => (p.push b).2) p

@[simp] theorem feed_nil (p : HeadParser) : p.feed [] = p := rfl

@[simp] theorem feed_cons (p : HeadParser) (b : UInt8) (s : List UInt8) :
    p.feed (b :: s) = (p.push b).2.feed s := rfl

@[simp] theorem feed_append (p : HeadParser) (s t : List UInt8) :
    p.feed (s ++ t) = (p.feed s).feed t :=
  List.foldl_append

end HeadParser

end Ota
end GarageDoor
