/-
The text of an OTA request, and why nothing configured can split it.

A request is one text whose line ends are those of its own lines: host, path, name and
header value have no carriage return or line feed, whatever the credentials are.
-/
import GarageDoor.App.Ota.Guarded
import GarageDoor.Core.Ota.Authorization
import GarageDoor.Core.Ota.Url

namespace GarageDoor
namespace Ota

open Library Ascii

/-! ## The text -/

def crlf : Text := text "\r\n"

/-- The names that a check asks for. -/
inductive FileName : Text → Prop where
  | version : FileName (text "version")
  | image (v : Nat) (hv : v < 2 ^ 32) : FileName (numeral v ++ text ".bin")
  | checksum (v : Nat) (hv : v < 2 ^ 32) : FileName (numeral v ++ text ".bin.sha256")

def Secrets.HasCredentials (secrets : Secrets) : Prop :=
  secrets.otaUser ≠ [] ∨ secrets.otaPassword ≠ []

instance (secrets : Secrets) : Decidable secrets.HasCredentials :=
  inferInstanceAs (Decidable (_ ∨ _))

section

variable (secrets : Secrets) (uri : Uri) (name : Text)

def requestTarget : Text := uri.pathText ++ text "/" ++ name

def authorizationLines : List Text :=
  if secrets.HasCredentials then
    [text "Authorization: " ++ authorization secrets.otaUser secrets.otaPassword]
  else
    []

/-- The lines of a request; the empty one ends its head. -/
def requestLines : List Text :=
  [text "GET " ++ requestTarget uri name ++ text " HTTP/1.0", text "Host: " ++ uri.host] ++
    authorizationLines secrets ++ [text "Connection: close", []]

def requestText : Text := (requestLines secrets uri name).flatMap (· ++ crlf)

/-- Text and header value fit their buffers. -/
def RequestFits : Prop :=
  (requestText secrets uri name).length ≤ requestMaxBytes ∧
    (secrets.HasCredentials →
      (authorization secrets.otaUser secrets.otaPassword).length ≤ authMaxBytes)

end

/-! ## What is built -/

namespace TextBuf

variable {n : Nat}

theorem eq_of_bytes {t t' : TextBuf n} (h : t.bytes = t'.bytes) : t = t' := by
  cases t
  cases t'
  cases h
  rfl

/-- A text is written whole or not at all. -/
theorem write_eq_some {t t' : TextBuf n} {pieces : List Text} :
    t.write pieces = some t' ↔ t'.bytes = t.bytes ++ pieces.flatten := by
  constructor
  · exact bytes_of_write
  · intro h
    have hfits : t.bytes.length + pieces.flatten.length ≤ n := by
      have := t'.length_le
      rwa [h, List.length_append] at this
    obtain ⟨t'', ht''⟩ := t.write_of_fits pieces hfits
    rw [ht'', eq_of_bytes ((bytes_of_write ht'').trans h.symm)]

end TextBuf

/-- The header value is ASCII without line ends. -/
theorem mem_authorization {user pass : Text} {b : UInt8} (h : b ∈ authorization user pass) :
    b < 128 ∧ b ≠ 13 ∧ b ≠ 10 := by
  have hscheme : ∀ b ∈ text "Basic ", b < 128 ∧ b ≠ 13 ∧ b ≠ 10 := by
    have hbytes : text "Basic " = [66, 97, 115, 105, 99, 32] := by decide
    intro b hb
    rw [hbytes] at hb
    simp only [List.mem_cons, List.not_mem_nil, or_false] at hb
    rcases hb with rfl | rfl | rfl | rfl | rfl | rfl <;> decide
  have hsymbol : ∀ v < 64, Base64.symbol v < 128 ∧ Base64.symbol v ≠ 13 ∧ Base64.symbol v ≠ 10 := by
    decide
  rcases List.mem_append.mp h with h | h
  · exact hscheme b h
  · rcases Base64.mem_encode h with rfl | ⟨v, hv, rfl⟩
    · decide
    · exact hsymbol v hv

variable {secrets : Secrets} {uri : Uri} {name : Text}

theorem authorizationLines_of_credentials (h : secrets.HasCredentials) :
    (authorizationLines secrets).flatMap (· ++ crlf) =
      [text "Authorization: ", authorization secrets.otaUser secrets.otaPassword,
        text "\r\n"].flatten := by
  rw [authorizationLines, if_pos h]
  simp [crlf]

/-- The `Authorization` line is appended, if it fits. -/
theorem writeAuthorization_eq_ok {out out' : TextBuf requestMaxBytes} :
    writeAuthorization secrets out = .ok out' ↔
      out'.bytes = out.bytes ++ (authorizationLines secrets).flatMap (· ++ crlf) ∧
        (secrets.HasCredentials →
          (authorization secrets.otaUser secrets.otaPassword).length ≤ authMaxBytes) := by
  by_cases hcredentials : secrets.HasCredentials
  · have hsome : secrets.otaUser ≠ [] ∨ secrets.otaPassword ≠ [] := hcredentials
    have hempty : ¬ (secrets.otaUser = [] ∧ secrets.otaPassword = []) := not_and_or.mpr hsome
    obtain ⟨-, hnone, hexact⟩ := basicAuthorization_exact secrets.otaUser secrets.otaPassword
      (List.replicate authMaxBytes 0)
    rw [List.length_replicate] at hnone
    rw [authorizationLines_of_credentials hcredentials, writeAuthorization, if_pos hsome]
    rcases hrun : basicAuthorization secrets.otaUser secrets.otaPassword
      (List.replicate authMaxBytes 0) with ⟨n | n, buf⟩ <;> rw [hrun] at hnone hexact
    · have hlong := (hnone.mp rfl).resolve_left hempty
      simp only [reduceCtorEq, false_iff, not_and]
      intro _ hfits
      have := hfits hcredentials
      omega
    · obtain ⟨-, htake, -⟩ := hexact n rfl
      have hfits : (authorization secrets.otaUser secrets.otaPassword).length ≤ authMaxBytes := by
        have hroom := mt hnone.mpr (by simp)
        omega
      have hutf8 : ValidUtf8 (authorization secrets.otaUser secrets.otaPassword) :=
        validUtf8_of_ascii fun b hb => (mem_authorization hb).1
      simp only [htake, fromUtf8_of_valid hutf8]
      rw [← TextBuf.write_eq_some]
      cases out.write [text "Authorization: ", authorization secrets.otaUser secrets.otaPassword,
          text "\r\n"] with
      | none => simp
      | some out'' => simp [hfits]
  · have hnone : ¬ (secrets.otaUser ≠ [] ∨ secrets.otaPassword ≠ []) := hcredentials
    rw [writeAuthorization, if_neg hnone, authorizationLines, if_neg hcredentials,
      List.flatMap_nil, List.append_nil, Except.ok.injEq]
    constructor
    · intro h
      exact ⟨congrArg TextBuf.bytes h.symm, fun h => absurd h hcredentials⟩
    · exact fun h => TextBuf.eq_of_bytes h.1.symm

theorem buildRequest_steps {request : TextBuf requestMaxBytes} :
    buildRequest secrets uri name = .ok request ↔
      ∃ out out', TextBuf.new.write [text "GET ", uri.pathText, text "/", name,
          text " HTTP/1.0\r\nHost: ", uri.host, text "\r\n"] = some out ∧
        writeAuthorization secrets out = .ok out' ∧
        out'.write [text "Connection: close\r\n\r\n"] = some request := by
  unfold buildRequest
  cases hout : TextBuf.new.write [text "GET ", uri.pathText, text "/", name,
      text " HTTP/1.0\r\nHost: ", uri.host, text "\r\n"] with
  | none => simp
  | some out =>
    cases hauth : writeAuthorization secrets out with
    | error e => simp [hauth]
    | ok out' =>
      simp only [hauth, Option.some.injEq]
      constructor
      · intro h
        cases hlast : out'.write [text "Connection: close\r\n\r\n"] with
        | none => simp [hlast] at h
        | some last =>
          simp only [hlast, Except.ok.injEq] at h
          exact ⟨out, out', rfl, hauth, by rw [hlast, h]⟩
      · intro ⟨first, second, hfirst, hsecond, hlast⟩
        subst hfirst
        obtain rfl := Except.ok.inj (hauth.symm.trans hsecond)
        simp only [hlast]

/-- A request is built exactly if it fits, and it is the whole text. -/
theorem buildRequest_eq_ok {request : TextBuf requestMaxBytes} :
    buildRequest secrets uri name = .ok request ↔
      request.bytes = requestText secrets uri name ∧ RequestFits secrets uri name := by
  have hfirst : [text "GET ", uri.pathText, text "/", name, text " HTTP/1.0\r\nHost: ", uri.host,
      text "\r\n"].flatten =
        [text "GET " ++ requestTarget uri name ++ text " HTTP/1.0",
          text "Host: " ++ uri.host].flatMap (· ++ crlf) := by
    have hjoin : text " HTTP/1.0\r\nHost: " = text " HTTP/1.0" ++ crlf ++ text "Host: " := by decide
    simp [hjoin, crlf, requestTarget]
  have hlast : [text "Connection: close\r\n\r\n"].flatten =
      [text "Connection: close", []].flatMap (· ++ crlf) := by decide
  have hwhole : requestText secrets uri name =
      ([text "GET " ++ requestTarget uri name ++ text " HTTP/1.0",
          text "Host: " ++ uri.host].flatMap (· ++ crlf) ++
        (authorizationLines secrets).flatMap (· ++ crlf)) ++
          [text "Connection: close", []].flatMap (· ++ crlf) := by
    rw [requestText, requestLines, List.flatMap_append, List.flatMap_append]
  simp only [buildRequest_steps, TextBuf.write_eq_some, writeAuthorization_eq_ok, hfirst, hlast]
  constructor
  · intro ⟨out, out', hout, ⟨hauth, hfits⟩, hrequest⟩
    have hbytes : request.bytes = requestText secrets uri name := by
      rw [hrequest, hauth, hout, hwhole]
      rfl
    exact ⟨hbytes, hbytes ▸ request.length_le, hfits⟩
  · intro ⟨hbytes, hlength, hfits⟩
    rw [hwhole] at hbytes hlength
    simp only [List.length_append] at hlength
    refine ⟨⟨_, ?_⟩, ⟨_, ?_⟩, rfl, ⟨rfl, hfits⟩, hbytes⟩
    · show ([] ++ _ : Text).length ≤ _
      rw [List.nil_append]
      omega
    · show ([] ++ _ ++ _ : Text).length ≤ _
      rw [List.nil_append, List.length_append]
      omega

/-! ## Nothing splits it -/

/-- The name of a file is made of the bytes that a path segment may have. -/
theorem FileName.valid (h : FileName name) : ∀ b ∈ name, validHostByte b = true := by
  have happend : ∀ (v : Nat) (suffix : Text), suffix.all validHostByte = true →
      ∀ b ∈ numeral v ++ suffix, validHostByte b = true := by
    intro v suffix hsuffix b hb
    rcases List.mem_append.mp hb with hb | hb
    · simp [validHostByte, isDigit_numeral v b hb]
    · exact List.all_eq_true.mp hsuffix b hb
  cases h with
  | version => exact List.all_eq_true.mp (by decide)
  | image v _ => exact happend v _ (by decide)
  | checksum v _ => exact happend v _ (by decide)

theorem not_mem_of_valid {c : UInt8} {t : Text} (hc : validHostByte c = false)
    (h : ∀ b ∈ t, validHostByte b = true) : c ∉ t := by
  intro hmem
  rw [h c hmem] at hc
  cases hc

/-- The target has slashes and the bytes of segments, nothing else. -/
theorem FileName.not_mem_target (h : FileName name) {c : UInt8} (hslash : c ≠ slash)
    (hc : validHostByte c = false) : c ∉ requestTarget uri name := by
  have hpath : c ∉ uri.pathText := by
    rw [Uri.pathText_eq]
    intro hmem
    rcases uri.path.clean c hmem with heq | hvalid
    · exact hslash heq
    · rw [hvalid] at hc
      cases hc
  have hjoint : c ∉ text "/" := by
    rw [show text "/" = [slash] by decide]
    simpa using hslash
  simp only [requestTarget, List.mem_append, not_or]
  exact ⟨⟨hpath, hjoint⟩, not_mem_of_valid hc h.valid⟩

/-- No carriage return and no line feed. -/
def Unbroken (line : Text) : Prop := (13 : UInt8) ∉ line ∧ (10 : UInt8) ∉ line

instance (line : Text) : Decidable (Unbroken line) := inferInstanceAs (Decidable (_ ∧ _))

theorem Unbroken.append {s t : Text} (hs : Unbroken s) (ht : Unbroken t) : Unbroken (s ++ t) := by
  simp only [Unbroken, List.mem_append, not_or]
  exact ⟨⟨hs.1, ht.1⟩, hs.2, ht.2⟩

theorem unbroken_authorization (user pass : Text) : Unbroken (authorization user pass) :=
  ⟨fun h => (mem_authorization h).2.1 rfl, fun h => (mem_authorization h).2.2 rfl⟩

theorem requestLines_unbroken (h : FileName name) (hhost : ∀ b ∈ uri.host, validHostByte b = true) :
    ∀ line ∈ requestLines secrets uri name, Unbroken line := by
  have hget : Unbroken (text "GET " ++ requestTarget uri name ++ text " HTTP/1.0") :=
    (Unbroken.append (by decide)
      ⟨h.not_mem_target (by decide) (by decide), h.not_mem_target (by decide) (by decide)⟩).append
        (by decide)
  have hhostLine : Unbroken (text "Host: " ++ uri.host) :=
    Unbroken.append (by decide)
      ⟨not_mem_of_valid (by decide) hhost, not_mem_of_valid (by decide) hhost⟩
  have hauth : ∀ line ∈ authorizationLines secrets, Unbroken line := by
    intro line hline
    unfold authorizationLines at hline
    split at hline
    · rw [List.mem_singleton.mp hline]
      exact Unbroken.append (by decide) (unbroken_authorization _ _)
    · cases hline
  intro line hline
  simp only [requestLines, List.mem_append, List.mem_cons, List.not_mem_nil, or_false] at hline
  rcases hline with ((rfl | rfl) | hline) | rfl | rfl
  · exact hget
  · exact hhostLine
  · exact hauth line hline
  · decide
  · decide

/-- What `ask` sends is the whole text of a request that fits, or nothing. -/
theorem ask_sends (secrets : Secrets) (uri : Uri) (connect : Fetch → Connection) (fetch : Fetch)
    (name : Text) (s : Scratch) :
    (ask secrets uri connect fetch name s).2.log = s.log ∨
      RequestFits secrets uri name ∧ (ask secrets uri connect fetch name s).2.log =
        s.log ++ [.request (requestText secrets uri name)] := by
  have hstep := ask_step secrets uri connect fetch name s
  generalize ask secrets uri connect fetch name s = step at hstep ⊢
  have hsent : ∀ bytes, Asks secrets uri name bytes →
      RequestFits secrets uri name ∧ bytes = requestText secrets uri name := by
    intro bytes ⟨request, hrequest, hbytes⟩
    obtain ⟨htext, hfits⟩ := buildRequest_eq_ok.mp hrequest
    exact ⟨hfits, hbytes ▸ htext⟩
  rcases step with ⟨result | answer, s'⟩
  · rcases hstep with hlog | ⟨bytes, hasks, hlog⟩
    · exact .inl hlog
    · obtain ⟨hfits, rfl⟩ := hsent bytes hasks
      exact .inr ⟨hfits, hlog⟩
  · obtain ⟨⟨bytes, hasks, hlog⟩, -⟩ := hstep
    obtain ⟨hfits, rfl⟩ := hsent bytes hasks
    exact .inr ⟨hfits, hlog⟩

/-- A request for a target that was parsed is one request, written whole or not sent. -/
theorem buildRequest_framed {base project : Text} (hparse : parseUrl base project = .ok uri)
    (hname : FileName name) (secrets : Secrets) :
    (∀ request, buildRequest secrets uri name = .ok request →
      request.bytes = text "GET " ++ uri.pathText ++ text "/" ++ name ++ text " HTTP/1.0" ++ crlf ++
        text "Host: " ++ uri.host ++ crlf ++
        (if secrets.otaUser ≠ [] ∨ secrets.otaPassword ≠ [] then
          text "Authorization: Basic " ++
            Base64.encode (secrets.otaUser ++ 58 :: secrets.otaPassword) ++ crlf
        else []) ++ text "Connection: close" ++ crlf ++ crlf ∧
      request.bytes = (requestLines secrets uri name).flatMap (· ++ crlf)) ∧
    (∀ line ∈ requestLines secrets uri name, Unbroken line) ∧
    (32 : UInt8) ∉ requestTarget uri name ∧
    ((∃ request, buildRequest secrets uri name = .ok request) ↔ RequestFits secrets uri name) ∧
    ∀ connect fetch s, (ask secrets uri connect fetch name s).2.log = s.log ∨
      RequestFits secrets uri name ∧ (ask secrets uri connect fetch name s).2.log =
        s.log ++ [.request (requestText secrets uri name)] := by
  obtain ⟨u, hu, hshows⟩ := accepted_of_parseUrl hparse
  have hhost : ∀ b ∈ uri.host, validHostByte b = true := hshows.host ▸ hu.host_valid
  refine ⟨?_, requestLines_unbroken hname hhost, hname.not_mem_target (by decide) (by decide),
    ⟨?_, ?_⟩, fun connect fetch s => ask_sends secrets uri connect fetch name s⟩
  · intro request hrequest
    obtain ⟨hbytes, -⟩ := buildRequest_eq_ok.mp hrequest
    have hscheme : text "Authorization: Basic " = text "Authorization: " ++ text "Basic " := by
      decide
    refine ⟨?_, hbytes⟩
    rw [hbytes, requestText, requestLines, authorizationLines, hscheme]
    by_cases hcredentials : secrets.otaUser ≠ [] ∨ secrets.otaPassword ≠ []
    · rw [if_pos hcredentials, if_pos (show secrets.HasCredentials from hcredentials)]
      simp [requestTarget, authorization]
    · rw [if_neg hcredentials, if_neg (show ¬ secrets.HasCredentials from hcredentials)]
      simp [requestTarget]
  · rintro ⟨request, hrequest⟩
    exact (buildRequest_eq_ok.mp hrequest).2
  · intro hfits
    exact ⟨⟨_, hfits.1⟩, buildRequest_eq_ok.mpr ⟨rfl, hfits⟩⟩

/-- The image of version 7 from a server that wants a user. -/
theorem buildRequest_framed_user :
    (32 : UInt8) ∉ requestTarget localUri (numeral 7 ++ text ".bin") :=
  (buildRequest_framed parseUrl_local (.image 7 (by decide))
    { localSecrets with otaUser := text "user" }).2.2.1

end Ota
end GarageDoor
