/-
OTA requests: the server's address, the connection to it and the text sent over it.
-/
import GarageDoor.App.Ota.Transport
import GarageDoor.Core.Ota.Policy

namespace GarageDoor
namespace Ota

open Library Ascii

/-- The server and the credentials a firmware is built with. -/
structure Secrets where
  otaUrl : Text
  otaProject : Text
  otaUser : Text
  otaPassword : Text

/-- Why a check did not complete. -/
inductive OtaError where
  | url
  | dns
  | connect
  | tls
  | timeout
  | request
  | auth
  | head
  | version
  | sha
  | transport (error : FetchError)
  | update (code : String)
  deriving DecidableEq, Repr

/-! ## Fixed-capacity texts -/

structure TextBuf (n : Nat) where
  bytes : Text
  length_le : bytes.length ≤ n

namespace TextBuf

variable {n : Nat}

def new : TextBuf n where
  bytes := []
  length_le := Nat.zero_le n

def asStr (t : TextBuf n) : Text := (fromUtf8 t.bytes).getD []

def writeStr (t : TextBuf n) (s : Text) : Option (TextBuf n) :=
  if h : t.bytes.length + s.length ≤ n then
    some { bytes := t.bytes ++ s, length_le := by rwa [List.length_append] }
  else
    none

/-- `write!` with these pieces. -/
def write (t : TextBuf n) (pieces : List Text) : Option (TextBuf n) := pieces.foldlM writeStr t

theorem bytes_of_write {t t' : TextBuf n} {pieces : List Text} (h : t.write pieces = some t') :
    t'.bytes = t.bytes ++ pieces.flatten := by
  induction pieces generalizing t with
  | nil =>
    cases h
    simp
  | cons piece pieces ih =>
    simp only [write, List.foldlM_cons, Option.bind_eq_bind, Option.bind_eq_some_iff] at h
    obtain ⟨mid, hmid, hrest⟩ := h
    unfold writeStr at hmid
    by_cases hfits : t.bytes.length + piece.length ≤ n
    · rw [dif_pos hfits] at hmid
      cases hmid
      rw [ih hrest]
      simp
    · rw [dif_neg hfits] at hmid
      cases hmid

theorem write_of_fits (t : TextBuf n) (pieces : List Text)
    (h : t.bytes.length + pieces.flatten.length ≤ n) : ∃ t', t.write pieces = some t' := by
  induction pieces generalizing t with
  | nil => exact ⟨t, rfl⟩
  | cons piece pieces ih =>
    rw [List.flatten_cons, List.length_append] at h
    have hfits : t.bytes.length + piece.length ≤ n := by omega
    have hrest : (t.bytes ++ piece).length + pieces.flatten.length ≤ n := by
      rw [List.length_append]
      omega
    obtain ⟨t', ht'⟩ := ih ⟨t.bytes ++ piece, by rwa [List.length_append]⟩ hrest
    refine ⟨t', ?_⟩
    simp only [write, List.foldlM_cons, writeStr, dif_pos hfits, Option.bind_eq_bind,
      Option.bind_some]
    exact ht'

end TextBuf

/-! ## The server's address -/

structure Ipv4Addr where
  a : Nat
  b : Nat
  c : Nat
  d : Nat
  deriving DecidableEq

structure Endpoint where
  address : Ipv4Addr
  port : Nat

/-- One to three digits without a leading zero. -/
def parseOctet (s : Text) : Option Nat :=
  if s = [] ∨ 3 < s.length ∨ ¬ s.all isDigit ∨ (s.head? = some 48 ∧ s.length ≠ 1) then none
  else checkedDecimal 256 0 s

/-- Rust's `Ipv4Addr::from_str`. -/
def parseIpv4 (s : Text) : Option Ipv4Addr :=
  match (s.splitOn 46).map parseOctet with
  | [some a, some b, some c, some d] => some { a, b, c, d }
  | _ => none

inductive DnsAnswer where
  | addresses (addrs : List Ipv4Addr)
  | failed
  | timedOut

/-- An IPv4 literal bypasses DNS. -/
def resolve (dns : Text → DnsAnswer) (uri : Uri) : Except OtaError Endpoint :=
  match parseIpv4 uri.host with
  | some ip => .ok { address := ip, port := uri.port }
  | none =>
    match dns uri.host with
    | .addresses [] => .error .dns
    | .addresses (v4 :: _) => .ok { address := v4, port := uri.port }
    | .failed => .error .dns
    | .timedOut => .error .timeout

/-! ## Connections -/

/-- How connecting ends; the handshake only takes place over TLS. -/
inductive Connection where
  | established (handshake : IoResult) (peer : Peer)
  | failed
  | timedOut

def openConnection (uri : Uri) : Connection → Except OtaError Transport
  | .failed => .error .connect
  | .timedOut => .error .timeout
  | .established handshake peer =>
    if ¬ uri.tls then
      .ok (.connect peer)
    else
      match handshake with
      | .done => .ok (.connect peer)
      | .failed => .error .tls
      | .timedOut => .error .timeout

/-! ## The request -/

def authMaxBytes : Nat := 192

def requestMaxBytes : Nat := 512

/-- The `Authorization` line, if there are credentials. -/
def writeAuthorization (secrets : Secrets) (out : TextBuf requestMaxBytes) :
    Except OtaError (TextBuf requestMaxBytes) :=
  if secrets.otaUser ≠ [] ∨ secrets.otaPassword ≠ [] then
    match basicAuthorization secrets.otaUser secrets.otaPassword
        (List.replicate authMaxBytes 0) with
    | (none, _) => .error .auth
    | (some n, auth) =>
      match fromUtf8 (auth.take n) with
      | none => .error .auth
      | some auth =>
        match out.write [text "Authorization: ", auth, text "\r\n"] with
        | none => .error .request
        | some out => .ok out
  else
    .ok out

/-- `GET {path}/{name} HTTP/1.0` with `Host`, optional authorization and
`Connection: close`. -/
def buildRequest (secrets : Secrets) (uri : Uri) (name : Text) :
    Except OtaError (TextBuf requestMaxBytes) :=
  match TextBuf.new.write [text "GET ", uri.pathText, text "/", name,
      text " HTTP/1.0\r\nHost: ", uri.host, text "\r\n"] with
  | none => .error .request
  | some out =>
    match writeAuthorization secrets out with
    | .error e => .error e
    | .ok out =>
      match out.write [text "Connection: close\r\n\r\n"] with
      | none => .error .request
      | some out => .ok out

/-- Without credentials only the length of the names decides. -/
theorem buildRequest_of_fits (secrets : Secrets) (uri : Uri) (name : Text)
    (huser : secrets.otaUser = []) (hpassword : secrets.otaPassword = [])
    (hfits : uri.path.bytes.length + name.length + uri.host.length ≤ 400) :
    ∃ request, buildRequest secrets uri name = .ok request := by
  have hlengths : (text "GET ").length = 4 ∧ (text "/").length = 1 ∧
      (text " HTTP/1.0\r\nHost: ").length = 17 ∧ (text "\r\n").length = 2 ∧
      (text "Connection: close\r\n\r\n").length = 21 := by decide
  obtain ⟨out, hout⟩ := TextBuf.write_of_fits (TextBuf.new : TextBuf requestMaxBytes)
    [text "GET ", uri.pathText, text "/", name, text " HTTP/1.0\r\nHost: ", uri.host,
      text "\r\n"] (by
    simp only [TextBuf.new, Uri.pathText_eq, List.flatten_cons, List.flatten_nil,
      List.length_append, List.length_nil, requestMaxBytes]
    omega)
  have hbytes := TextBuf.bytes_of_write hout
  have hauth : writeAuthorization secrets out = .ok out := by
    unfold writeAuthorization
    rw [if_neg (by simp [huser, hpassword])]
  obtain ⟨out', hout'⟩ := TextBuf.write_of_fits out [text "Connection: close\r\n\r\n"] (by
    simp only [hbytes, TextBuf.new, Uri.pathText_eq, List.flatten_cons, List.flatten_nil,
      List.length_append, List.length_nil, requestMaxBytes]
    omega)
  exact ⟨out', by simp only [buildRequest, hout, hauth, hout']⟩

end Ota
end GarageDoor
