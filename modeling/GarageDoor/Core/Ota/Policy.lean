/-
OTA policy: the version decision, the request target, version and digest texts and
Basic authorization.
-/
import GarageDoor.Core.Ota.Session.Apply
import GarageDoor.Library.Utf8

namespace GarageDoor
namespace Ota

open Library Ascii

inductive Decision where
  | update
  | skip
  deriving DecidableEq, Repr

/-- Any difference updates, a rollback included. -/
def decide (localVersion remote : Nat) : Decision :=
  if remote ≠ localVersion then .update else .skip

/-! ## The request target -/

/-- Capacity for the assembled path. -/
def pathBytes : Nat := 192

abbrev slash : UInt8 := 47

inductive UrlError where
  | scheme
  | host
  | port
  | project
  | path
  deriving DecidableEq, Repr

def validHostByte (b : UInt8) : Bool :=
  isDigit b || 65 ≤ b && b ≤ 90 || 97 ≤ b && b ≤ 122 || b == 46 || b == 45 || b == 95

def validSegment (segment : Text) : Bool := !segment.isEmpty && segment.all validHostByte

/-- A path of clean segments that fits its buffer. -/
structure UriPath where
  bytes : Text
  length_le : bytes.length ≤ pathBytes
  clean : ∀ b ∈ bytes, b = slash ∨ validHostByte b = true

def UriPath.empty : UriPath where
  bytes := []
  length_le := Nat.zero_le _
  clean := by simp

/-- A slash and a segment after the path. -/
def UriPath.push (path : UriPath) (segment : Text) : Except UrlError UriPath :=
  if h : path.bytes.length + 1 + segment.length ≤ pathBytes ∧ validSegment segment = true then
    .ok
      { bytes := path.bytes ++ slash :: segment
        length_le := by
          rw [List.length_append, List.length_cons]
          omega
        clean := by
          have hsegment := (Bool.and_eq_true _ _).mp h.2
          intro b hb
          rcases List.mem_append.mp hb with hb | hb
          · exact path.clean b hb
          · rcases List.mem_cons.mp hb with hb | hb
            · exact .inl hb
            · exact .inr (List.all_eq_true.mp hsegment.2 b hb) }
  else
    .error .path

structure Uri where
  tls : Bool
  host : Text
  port : Nat
  path : UriPath

/-- The assembled path as a text. -/
def Uri.pathText (uri : Uri) : Text := (fromUtf8 uri.path.bytes).getD []

theorem lt_of_validHostByte {b : UInt8} (h : validHostByte b = true) : b < 128 := by
  simp only [validHostByte, isDigit, Bool.or_eq_true, Bool.and_eq_true, decide_eq_true_eq,
    beq_iff_eq, UInt8.le_iff_toNat_le] at h
  rw [UInt8.lt_iff_toNat_lt]
  rcases h with ((((h | h) | h) | h) | h) | h
  · exact Nat.lt_of_le_of_lt h.2 (by decide)
  · exact Nat.lt_of_le_of_lt h.2 (by decide)
  · exact Nat.lt_of_le_of_lt h.2 (by decide)
  · rw [h]
    decide
  · rw [h]
    decide
  · rw [h]
    decide

/-- A clean path is ASCII. -/
theorem UriPath.utf8 (path : UriPath) : ValidUtf8 path.bytes := by
  refine validUtf8_of_ascii fun b hb => ?_
  rcases path.clean b hb with rfl | hvalid
  · decide
  · exact lt_of_validHostByte hvalid

/-- Nothing of a path is lost when it is read as a text. -/
@[simp] theorem Uri.pathText_eq (uri : Uri) : uri.pathText = uri.path.bytes := by
  rw [Uri.pathText, fromUtf8_of_valid uri.path.utf8, Option.getD_some]

/-- Rust's `u16::from_str`: an optional plus sign, then digits. -/
def parseU16 (s : Text) : Option Nat :=
  let digits := if s.head? = some 43 then s.tail else s
  if digits = [] ∨ ¬ digits.all isDigit then none else checkedDecimal (2 ^ 16) 0 digits

/-- The host and the port, by default that of the scheme. -/
def hostAndPort (authority : Text) (tls : Bool) : Except UrlError (Text × Nat) :=
  match rsplitOnce 58 authority with
  | some (host, port) =>
    match parseU16 port with
    | none => .error .port
    | some port => if port = 0 then .error .port else .ok (host, port)
  | none => .ok (authority, if tls then 443 else 80)

def parseAuthority (authority : Text) (tls : Bool) : Except UrlError (Text × Nat) :=
  match hostAndPort authority tls with
  | .error e => .error e
  | .ok (host, port) =>
    if host = [] ∨ ¬ host.all validHostByte then .error .host else .ok (host, port)

/-- Parses `scheme://host[:port][/segment...]` and appends `project` to the path. -/
def parseUrl (base project : Text) : Except UrlError Uri :=
  match splitOnce (text "://") base with
  | none => .error .scheme
  | some (scheme, rest) =>
    if scheme ≠ text "https" ∧ scheme ≠ text "http" then
      .error .scheme
    else
      let tls := scheme == text "https"
      if ¬ validSegment project then
        .error .project
      else
        match parseAuthority (rest.takeWhile (· != slash)) tls with
        | .error e => .error e
        | .ok (host, port) =>
          let segments := ((rest.dropWhile (· != slash)).splitOn slash).filter (!·.isEmpty)
          match (segments ++ [project]).foldlM UriPath.push .empty with
          | .error e => .error e
          | .ok path => .ok { tls, host, port, path }

/-! ## Version and digest texts -/

/-- A trimmed bare decimal number below `2 ^ 32`. -/
def parseVersion (body : List UInt8) : Option Nat :=
  let s := trim body
  if s = [] ∨ ¬ s.all isDigit then none else checkedDecimal (2 ^ 32) 0 s

def hexNibble (b : UInt8) : Option UInt8 :=
  if 48 ≤ b ∧ b ≤ 57 then some (b - 48)
  else if 97 ≤ b ∧ b ≤ 102 then some (b - 97 + 10)
  else none

/-- One byte for every two characters. -/
def hexBytes : Text → Option (List UInt8)
  | [] => some []
  | [_] => none
  | hi :: lo :: s =>
    match hexNibble hi with
    | none => none
    | some hi =>
      match hexNibble lo with
      | none => none
      | some lo => (hexBytes s).map fun bytes => ((hi <<< 4) ||| lo) :: bytes

/-- What `hexBytes` accepts is read two digits at a time. -/
theorem hexBytes_rule {P : Text → List UInt8 → Prop} (nil : P [] [])
    (pair : ∀ {hi lo n m : UInt8} {s : Text} {bytes : List UInt8}, hexNibble hi = some n →
      hexNibble lo = some m → P s bytes → P (hi :: lo :: s) (((n <<< 4) ||| m) :: bytes))
    {s : Text} {bytes : List UInt8} (h : hexBytes s = some bytes) : P s bytes := by
  induction s using hexBytes.induct generalizing bytes with
  | case1 =>
    cases h
    exact nil
  | case2 b => cases h
  | case3 hi lo s hhi => simp [hexBytes, hhi] at h
  | case4 hi lo s n hhi hlo => simp [hexBytes, hhi, hlo] at h
  | case5 hi lo s n hhi m hlo ih =>
    simp only [hexBytes, hhi, hlo, Option.map_eq_some_iff] at h
    obtain ⟨tail, htail, rfl⟩ := h
    exact pair hhi hlo (ih htail)

theorem length_of_hexBytes {s : Text} {bytes : List UInt8} (h : hexBytes s = some bytes) :
    2 * bytes.length = s.length := by
  refine hexBytes_rule (P := fun s bytes => 2 * bytes.length = s.length) rfl ?_ h
  intro hi lo n m s bytes _ _ ih
  simp only [List.length_cons]
  omega

/-- Exactly 64 lowercase hex characters, with whitespace around them. -/
def parseSha256Hex (body : List UInt8) : Option Digest :=
  if hlength : (trim body).length = 64 then
    match hbytes : hexBytes (trim body) with
    | none => none
    | some bytes =>
      some ⟨bytes.toArray, by
        have := length_of_hexBytes hbytes
        rw [List.size_toArray]
        omega⟩
  else
    none

/-! ## Basic authorization -/

def base64Alphabet : Text :=
  text "ABCDEFGHIJKLMNOPQRSTUVWXYZabcdefghijklmnopqrstuvwxyz0123456789+/"

def base64Char (n shift : Nat) : UInt8 := base64Alphabet.getD (n / 2 ^ shift % 64) 0

/-- Four characters at `o` in the buffer, for up to three bytes. -/
def base64Quad (out : List UInt8) (o : Nat) (b₀ : UInt8) (b₁ b₂ : Option UInt8) : List UInt8 :=
  let n := b₀.toNat * 2 ^ 16 + (b₁.getD 0).toNat * 2 ^ 8 + (b₂.getD 0).toNat
  let out := out.set o (base64Char n 18)
  let out := out.set (o + 1) (base64Char n 12)
  let out := out.set (o + 2) (if b₁.isSome then base64Char n 6 else 61)
  out.set (o + 3) (if b₂.isSome then base64Char n 0 else 61)

/-- Base64 of the input from position `o` of the buffer on, and where it ends. -/
def base64Fill (out : List UInt8) (o : Nat) : List UInt8 → Option Nat × List UInt8
  | [] => (some o, out)
  | [b₀] =>
    if out.length < o + 4 then (none, out)
    else (some (o + 4), base64Quad out o b₀ none none)
  | [b₀, b₁] =>
    if out.length < o + 4 then (none, out)
    else (some (o + 4), base64Quad out o b₀ (some b₁) none)
  | b₀ :: b₁ :: b₂ :: input =>
    if out.length < o + 4 then (none, out)
    else base64Fill (base64Quad out o b₀ (some b₁) (some b₂)) (o + 4) input

/-- Writes `Basic <base64(user:pass)>` and returns its length; `none` if there are no
credentials or they do not fit. -/
def basicAuthorization (user pass : Text) (out : List UInt8) : Option Nat × List UInt8 :=
  let scheme := text "Basic "
  if user = [] ∧ pass = [] then
    (none, out)
  else if out.length < scheme.length then
    (none, out)
  else
    match base64Fill (out.drop scheme.length) 0 (user ++ 58 :: pass) with
    | (none, rest) => (none, scheme ++ rest)
    | (some n, rest) => (some (scheme.length + n), scheme ++ rest)

end Ota
end GarageDoor
