/-
One OTA check: resolve, fetch, verify and only then commit an update.
-/
import GarageDoor.App.Ota.Request

namespace GarageDoor
namespace Ota

open Library Ascii

def versionMaxBytes : Nat := 64

def shaMaxBytes : Nat := 128

def nameMaxBytes : Nat := 48

/-- The three connections of a check. -/
inductive Fetch where
  | version
  | checksum
  | image
  deriving DecidableEq

structure Network where
  dns : Text → DnsAnswer
  connect : Endpoint → Fetch → Connection

/-- What a check does on its way: the requests it writes, the version it decides on. -/
inductive CheckEvent where
  | request (bytes : List UInt8)
  | decide (remote : Nat)
  deriving DecidableEq

/-- What the steps of a check share: the leftover buffer, and the events so far. -/
structure Scratch where
  leftover : Vector UInt8 readChunk
  log : List CheckEvent

/-- A step leaves the check with a result or goes on with a value. -/
abbrev Step (α : Type) : Type := (Except OtaError Unit ⊕ α) × Scratch

/-- An accepted response with status 200: its declared length, and how many bytes of
its body are in the leftover buffer. -/
structure Answer where
  len : Nat
  extra : Nat
  link : Transport

section

variable (secrets : Secrets) (uri : Uri) (connect : Fetch → Connection)

/-- Request `name` and read the head of the response. -/
def ask (fetch : Fetch) (name : Text) (s : Scratch) : Step Answer :=
  match buildRequest secrets uri name with
  | .error e => (.inl (.error e), s)
  | .ok request =>
    match openConnection uri (connect fetch) with
    | .error e => (.inl (.error e), s)
    | .ok link =>
      let log := s.log ++ [.request request.bytes]
      match get link request.bytes s.leftover with
      | (.error e, leftover, _) => (.inl (.error (.transport e)), { leftover, log })
      | (.ok (head, extra), leftover, link) =>
        let s := { leftover, log }
        if head.status ≠ 200 then
          (.inl (.ok ()), s)
        else
          match head.contentLength with
          | none => (.inl (.error .head), s)
          | some len => (.inr { len, extra, link }, s)

/-- Request a short text and read its body. -/
def askText (fetch : Fetch) (name : Text) (maxBytes : Nat) (s : Scratch) : Step (List UInt8) :=
  match ask secrets uri connect fetch name s with
  | (.inl result, s) => (.inl result, s)
  | (.inr answer, s) =>
    if maxBytes < answer.len then
      (.inl (.error .head), s)
    else
      match (readSmall answer.link (s.leftover.toList.take answer.extra) answer.len
          maxBytes).1 with
      | .error e => (.inl (.error (.transport e)), s)
      | .ok body => (.inr body, s)

def fetchRemote (s : Scratch) : Step Nat :=
  match askText secrets uri connect .version (text "version") versionMaxBytes s with
  | (.inl result, s) => (.inl result, s)
  | (.inr body, s) =>
    match parseVersion body with
    | none => (.inl (.error .version), s)
    | some remote => (.inr remote, s)

/-- The name of a published file of the remote version. -/
def fileName (remote : Nat) (suffix : String) : Option Text :=
  ((TextBuf.new : TextBuf nameMaxBytes).write [text (toString remote), text suffix]).map
    TextBuf.asStr

def fetchExpected (remote : Nat) (s : Scratch) : Step Digest :=
  match fileName remote ".bin.sha256" with
  | none => (.inl (.error .request), s)
  | some name =>
    match askText secrets uri connect .checksum name shaMaxBytes s with
    | (.inl result, s) => (.inl result, s)
    | (.inr body, s) =>
      match parseSha256Hex body with
      | none => (.inl (.error .sha), s)
      | some expected => (.inr expected, s)

def fetchImage (remote : Nat) (s : Scratch) : Step Answer :=
  match fileName remote ".bin" with
  | none => (.inl (.error .request), s)
  | some name => ask secrets uri connect .image name s

end

def updateCode {ε₁ ε₂ : Type} : UpdateError ε₁ ε₂ → String
  | .oversize _ _ => "oversize"
  | .tooShort => "too_short"
  | .tooLong => "too_long"
  | .hashMismatch => "hash_mismatch"
  | .flash _ => "flash"
  | .read _ => "read"

inductive Outcome where
  | returned (result : Except OtaError Unit)
  | reset
  deriving DecidableEq

structure Check (φ : Type) where
  outcome : Outcome
  flasher : φ
  log : List CheckEvent

section

variable {η φ ε : Type} (sha : StreamingDigest η Digest) (F : Flasher φ ε)

/-- Stream the image into the sink; a committed image resets the device. -/
def applyImage (expected : Digest) (answer : Answer) (flasher : φ) (s : Scratch) : Check φ :=
  let body := { link := answer.link, leftover := s.leftover.toList.take answer.extra }
  match applyUpdate sha F httpBody flasher body answer.len expected with
  | (.error e, flasher, _) =>
    { outcome := .returned (.error (.update (updateCode e))), flasher, log := s.log }
  | (.ok (), flasher, _) => { outcome := .reset, flasher, log := s.log }

/-- The three requests of a check. -/
def checkServer (version : Nat) (secrets : Secrets) (uri : Uri) (connect : Fetch → Connection)
    (flasher : φ) : Check φ :=
  match fetchRemote secrets uri connect { leftover := Vector.replicate readChunk 0, log := [] } with
  | (.inl result, s) => { outcome := .returned result, flasher, log := s.log }
  | (.inr remote, s) =>
    let s := { s with log := s.log ++ [.decide remote] }
    match decide version remote with
    | .skip => { outcome := .returned (.ok ()), flasher, log := s.log }
    | .update =>
      match fetchExpected secrets uri connect remote s with
      | (.inl result, s) => { outcome := .returned result, flasher, log := s.log }
      | (.inr expected, s) =>
        match fetchImage secrets uri connect remote s with
        | (.inl result, s) => { outcome := .returned result, flasher, log := s.log }
        | (.inr answer, s) => applyImage sha F expected answer flasher s

def checkAndUpdate (version : Nat) (secrets : Secrets) (net : Network) (flasher : φ) : Check φ :=
  match parseUrl secrets.otaUrl secrets.otaProject with
  | .error _ => { outcome := .returned (.error .url), flasher, log := [] }
  | .ok uri =>
    match resolve net.dns uri with
    | .error e => { outcome := .returned (.error e), flasher, log := [] }
    | .ok endpoint => checkServer sha F version secrets uri (net.connect endpoint) flasher

end

end Ota
end GarageDoor
