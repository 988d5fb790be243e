/-
OTA transport: one request over one connection.

A connection delivers a stream of bytes in pieces of its own choosing and then
ends: it is closed, a read times out or a read fails.  Plain TCP and TLS differ in
nothing else that `get` and the body readers see, so one model stands for both.
-/
import GarageDoor.Core.Ota.Http.Parser
import GarageDoor.Core.Ota.Session.Apply
import GarageDoor.Library.Buffer

namespace GarageDoor
namespace Ota

open Library Ascii

/-- Bytes read from the transport while feeding the head parser. -/
def readChunk : Nat := 256

inductive FetchError where
  | timeout
  | write
  | flush
  | read
  | closed
  | head (code : String)
  | leftover
  | bodyTooLarge
  deriving DecidableEq, Repr

/-- How a write or a flush ends. -/
inductive IoResult where
  | done
  | timedOut
  | failed
  deriving DecidableEq, Repr

/-- What a read finds once the stream is delivered. -/
inductive Ending where
  | closed
  | timedOut
  | failed
  deriving DecidableEq, Repr

def Ending.result : Ending → Except FetchError (List UInt8)
  | .closed => .ok []
  | .timedOut => .error .timeout
  | .failed => .error .read

/-- How many bytes a read gets, by what was received before and what is requested. -/
structure Fragmentation where
  size : Nat → Nat → Nat
  size_pos : ∀ received requested, 0 < requested → 0 < size received requested
  size_le : ∀ received requested, size received requested ≤ requested

/-- What the other side of a connection does. -/
structure Peer where
  write : IoResult
  flush : IoResult
  fragmentation : Fragmentation
  ending : Ending
  stream : List UInt8

/-- A connection; `sent` records the bytes written and `issued`, for each read, how
many bytes had been received when it was issued. -/
structure Transport where
  peer : Peer
  pending : List UInt8
  received : Nat
  sent : List UInt8
  issued : List Nat

namespace Transport

def connect (peer : Peer) : Transport where
  peer := peer
  pending := peer.stream
  received := 0
  sent := []
  issued := []

/-- A read is issued. -/
def issue (t : Transport) : Transport := { t with issued := t.issued ++ [t.received] }

/-- `data` arrives, with `rest` still to come. -/
def deliver (t : Transport) (data rest : List UInt8) : Transport :=
  { t with pending := rest, received := t.received + data.length }

def readTimed (t : Transport) (requested : Nat) : Except FetchError (List UInt8) × Transport :=
  if t.pending = [] then
    (t.peer.ending.result, t.issue)
  else
    let size := t.peer.fragmentation.size t.received requested
    (.ok (t.pending.take size), t.issue.deliver (t.pending.take size) (t.pending.drop size))

theorem readTimed_of_ended {t : Transport} (h : t.pending = []) (requested : Nat) :
    t.readTimed requested = (t.peer.ending.result, t.issue) :=
  if_pos h

/-- A read finds the end of the stream or takes some bytes off its front. -/
theorem readTimed_cases (t : Transport) (requested : Nat) :
    (t.pending = [] ∧ t.readTimed requested = (t.peer.ending.result, t.issue)) ∨
    ∃ data rest, t.pending = data ++ rest ∧ data.length ≤ requested ∧
      (0 < requested → data ≠ []) ∧
      t.readTimed requested = (.ok data, t.issue.deliver data rest) := by
  by_cases hp : t.pending = []
  · exact .inl ⟨hp, readTimed_of_ended hp requested⟩
  · refine .inr ⟨_, _, (List.take_append_drop _ _).symm, ?_, fun hpos hnil => ?_, if_neg hp⟩
    · have := t.peer.fragmentation.size_le t.received requested
      rw [List.length_take]
      omega
    · have := t.peer.fragmentation.size_pos t.received requested hpos
      rw [List.take_eq_nil_iff] at hnil
      exact hnil.elim (by omega) hp

end Transport

def headCode : HeadError → String
  | .malformedStatusLine => "malformed_status"
  | .tooFewStatusTokens => "too_few_status_tokens"
  | .nonNumericStatus => "non_numeric_status"
  | .unexpectedStatus => "unexpected_status"
  | .transferEncoding => "transfer_encoding"
  | .missingContentLength => "missing_content_length"
  | .duplicateContentLength => "duplicate_content_length"
  | .malformedHeader => "malformed_header"
  | .oversizedHeader => "oversized_header"

/-! ## The response head -/

/-- What the head parser makes of one chunk. -/
inductive Scan where
  | more (parser : HeadParser)
  | complete (head : ResponseHead) (extra : List UInt8)
  | reject (error : HeadError)
  deriving DecidableEq

def scan : HeadParser → List UInt8 → Scan
  | p, [] => .more p
  | p, b :: bs =>
    match p.push b with
    | (.needMore, p') => scan p' bs
    | (.complete head, _) => .complete head bs
    | (.reject error, _) => .reject error

/-- One round of `get`: read a chunk and feed it to the parser. -/
def headChunk (s : Transport × HeadParser) :
    Transport × HeadParser ⊕ Except FetchError (ResponseHead × List UInt8) × Transport :=
  match s.1.readTimed readChunk with
  | (.error e, t) => .inr (.error e, t)
  | (.ok data, t) =>
    if data = [] then
      .inr (.error .closed, t)
    else
      match scan s.2 data with
      | .more parser => .inl (t, parser)
      | .complete head extra => .inr (.ok (head, extra), t)
      | .reject error => .inr (.error (.head (headCode error)), t)

theorem headChunk_decreases {s s' : Transport × HeadParser} (h : headChunk s = .inl s') :
    s'.1.pending.length < s.1.pending.length := by
  unfold headChunk at h
  rcases s.1.readTimed_cases readChunk with ⟨-, hread⟩ | ⟨data, rest, hpending, -, hne, hread⟩
  · rw [hread] at h
    cases hending : s.1.peer.ending <;> simp [hending, Ending.result] at h
  · have hne := hne (by decide)
    simp only [hread, if_neg hne] at h
    cases hscan : scan s.2 data with
    | more parser =>
      simp only [hscan, Sum.inl.injEq] at h
      have := List.length_pos_iff.mpr hne
      rw [← h, hpending, List.length_append]
      simp only [Transport.deliver]
      omega
    | complete head extra => simp [hscan] at h
    | reject error => simp [hscan] at h

def headLoop : Loop (Transport × HeadParser)
    (Except FetchError (ResponseHead × List UInt8) × Transport) where
  body := headChunk
  variant s := s.1.pending.length
  decreases := headChunk_decreases

/-- Write the request, flush, then feed every read byte to the head parser.  The
length returned is that of the body bytes in the front of the leftover buffer. -/
def get {n : Nat} (t : Transport) (request : List UInt8) (leftover : Vector UInt8 n) :
    Except FetchError (ResponseHead × Nat) × Vector UInt8 n × Transport :=
  match t.peer.write with
  | .timedOut => (.error .timeout, leftover, t)
  | .failed => (.error .write, leftover, t)
  | .done =>
    let t := { t with sent := t.sent ++ request }
    match t.peer.flush with
    | .timedOut => (.error .timeout, leftover, t)
    | .failed => (.error .flush, leftover, t)
    | .done =>
      match headLoop.run (t, HeadParser.new) with
      | (.error e, t) => (.error e, leftover, t)
      | (.ok (head, extra), t) =>
        if n < extra.length then
          (.error .leftover, leftover, t)
        else
          (.ok (head, extra.length), overwrite leftover extra, t)

/-! ## The body -/

/-- One round of `read_small`; `out` is what is filled so far. -/
def smallChunk (len : Nat) (s : List UInt8 × Transport) :
    List UInt8 × Transport ⊕ Except FetchError (List UInt8) × Transport :=
  if s.1.length < len then
    match s.2.readTimed (len - s.1.length) with
    | (.error e, t) => .inr (.error e, t)
    | (.ok data, t) => if data = [] then .inr (.ok s.1, t) else .inl (s.1 ++ data, t)
  else
    .inr (.ok s.1, s.2)

theorem smallChunk_decreases {len : Nat} {s s' : List UInt8 × Transport}
    (h : smallChunk len s = .inl s') : len - s'.1.length < len - s.1.length := by
  unfold smallChunk at h
  by_cases hlt : s.1.length < len
  · rw [if_pos hlt] at h
    rcases hread : s.2.readTimed (len - s.1.length) with ⟨result, t⟩
    rw [hread] at h
    cases result with
    | error e => cases h
    | ok data =>
      by_cases hnil : data = []
      · simp [hnil] at h
      · simp only [if_neg hnil, Sum.inl.injEq] at h
        have := List.length_pos_iff.mpr hnil
        rw [← h, List.length_append]
        omega
  · rw [if_neg hlt] at h
    cases h

def smallLoop (len : Nat) :
    Loop (List UInt8 × Transport) (Except FetchError (List UInt8) × Transport) where
  body := smallChunk len
  variant s := len - s.1.length
  decreases := smallChunk_decreases

/-- Read a body of `len` bytes into a buffer of `capacity` bytes, the leftover
first.  Stops early at the end of the stream; the result is the filled front of
the buffer. -/
def readSmall (t : Transport) (leftover : List UInt8) (len capacity : Nat) :
    Except FetchError (List UInt8) × Transport :=
  if capacity < len then
    (.error .bodyTooLarge, t)
  else
    (smallLoop len).run (leftover.take (min leftover.length len), t)

/-- Body source for `applyUpdate`: the leftover first, then the connection. -/
structure HttpBody where
  link : Transport
  leftover : List UInt8

def HttpBody.read (r : HttpBody) (slice : List UInt8) :
    (Except FetchError Nat × List UInt8) × HttpBody :=
  if r.leftover ≠ [] then
    let n := min slice.length r.leftover.length
    ((.ok n, r.leftover.take n ++ slice.drop n), { r with leftover := r.leftover.drop n })
  else
    match r.link.readTimed slice.length with
    | (.error e, link) => ((.error e, slice), { r with link })
    | (.ok data, link) => ((.ok data.length, data ++ slice.drop data.length), { r with link })

theorem HttpBody.read_length (r : HttpBody) (slice : List UInt8) :
    (r.read slice).1.2.length = slice.length := by
  unfold HttpBody.read
  by_cases hleft : r.leftover ≠ []
  · simp only [if_pos hleft, List.length_append, List.length_take, List.length_drop]
    omega
  · rw [if_neg hleft]
    rcases r.link.readTimed_cases slice.length with
      ⟨-, hread⟩ | ⟨data, rest, -, hle, -, hread⟩
    · rw [hread]
      cases r.link.peer.ending <;> rfl
    · simp only [hread, List.length_append, List.length_drop]
      omega

def httpBody : BodyReader HttpBody FetchError where
  read := HttpBody.read
  read_length := HttpBody.read_length

end Ota
end GarageDoor
