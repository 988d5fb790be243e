/-
Flash and the reset stand behind a fully consistent server.
-/
import GarageDoor.App.Ota.Consistent
import GarageDoor.App.Ota.Download
import GarageDoor.Core.Ota.Session.Empty

namespace GarageDoor
namespace Ota

open Library Ascii Flash

/-- All of the image arrived, was written and has the digest. -/
structure Verified {η ε : Type} (sha : StreamingDigest η Digest) (d : Digest) (len : Nat)
    (body : List UInt8) (calls : List (FlashCall ε)) : Prop where
  complete : len ≤ body.length
  written : image calls = body.take len
  hash : sha.hash (body.take len) = d

/-- The server that a check turns to. -/
def Reached (secrets : Secrets) (net : Network) (uri : Uri) (connect : Fetch → Connection) :
    Prop :=
  ∃ endpoint, parseUrl secrets.otaUrl secrets.otaProject = .ok uri ∧
    resolve net.dns uri = .ok endpoint ∧ connect = net.connect endpoint

section

variable {η φ ε : Type} {sha : StreamingDigest η Digest} {F : Flasher φ ε}

/-- The record of a sink holds the image written to it. -/
def recordedSink (F : Flasher φ ε) : Sink F.recorded where
  Holds done s := image s.2 = done
  written := by
    intro done s data s' hdone hwrite
    rw [recorded_write hwrite, image_append, image_write_ok, hdone]
  failed := by
    intro done s data e s' hdone hwrite
    rw [recorded_write hwrite, image_append, image_write_error, List.append_nil, hdone]
  marked := by
    intro done s result s' hdone hmark
    rw [recorded_mark hmark, image_append, image_mark, List.append_nil, hdone]

theorem imageOutcome_eq_reset {result : Except (UpdateError ε FetchError) Unit} :
    imageOutcome result = .reset ↔ result = .ok () := by
  cases result <;> simp [imageOutcome]

/-- Whatever becomes of an image, what was written of it is its front. -/
theorem applyImage_front {peer : Peer} {body : List UInt8} {a : Answer} {s : Scratch}
    (sha : StreamingDigest η Digest) (F : Flasher φ ε) (h : Holds peer body a s) (d : Digest)
    (f : φ) :
    ∃ k, image (applyImage sha F.recorded d a (f, []) s).flasher.2 = body.take k := by
  have hbody : (httpDelivery peer body a.len).At 0
      { link := a.link, leftover := s.leftover.toList.take a.extra } :=
    ⟨h.view, Nat.zero_le _, h.link.mono (Nat.le_add_right _ _)⟩
  have hsink : (recordedSink F).Holds [] (f, []) := image_nil
  have hrun :=
    (applyUpdate_of_delivery sha (recordedSink F) (httpDelivery peer body a.len) hsink hbody d).2
  rw [applyImage_eq]
  rcases hrun with ⟨e, k, -, hfront⟩ | ⟨-, hfront⟩
  · exact ⟨k, hfront⟩
  · refine ⟨if activeBytes < a.len then 0 else a.len, hfront.trans ?_⟩
    unfold streamImage
    by_cases hsize : activeBytes < a.len
    · rw [if_pos hsize, if_pos hsize, List.take_zero]
    · rw [if_neg hsize, if_neg hsize]

/-- An image is marked only once it is verified. -/
theorem applyImage_marked {peer : Peer} {body : List UInt8} {a : Answer} {s : Scratch}
    (h : Holds peer body a s) {d : Digest} {f : φ} {result : Except ε Unit}
    (hmark : .markUpdated result ∈ (applyImage sha F.recorded d a (f, []) s).flasher.2) :
    Verified sha d a.len body (applyImage sha F.recorded d a (f, []) s).flasher.2 := by
  obtain ⟨k, hfront⟩ := applyImage_front sha F h d f
  have hends := (applyUpdate_ends sha F httpBody f
    { link := a.link, leftover := s.leftover.toList.take a.extra } a.len d).2
  rw [applyImage_eq] at hmark hfront ⊢
  obtain ⟨pre, post, hcalls⟩ := List.append_of_mem hmark
  obtain ⟨rfl, -, hlength, hhash⟩ := hends.of_mark hcalls
  have hpre : image pre = body.take k := by
    rw [← hfront, hcalls, image_append, image_mark, List.append_nil]
  rw [hpre] at hlength hhash
  have htake : body.take k = body.take a.len := by
    rw [List.length_take] at hlength
    rw [List.take_eq_take_min, ← hlength]
  rw [htake, List.length_take] at hlength
  exact ⟨by omega, hfront.trans htake, htake ▸ hhash⟩

theorem applyImage_reset_iff (sha : StreamingDigest η Digest) (F : Flasher φ ε) (d : Digest)
    (a : Answer) (f : φ) (s : Scratch) :
    let run := applyImage sha F.recorded d a (f, []) s
    run.outcome = .reset ↔ .markUpdated (.ok ()) ∈ run.flasher.2 := by
  have hends := (applyUpdate_ends sha F httpBody f
    { link := a.link, leftover := s.leftover.toList.take a.extra } a.len d).2
  simp only [applyImage_eq]
  rw [imageOutcome_eq_reset]
  exact hends.ok_iff

/-- An empty image whose commit fails. -/
theorem applyImage_unmarkable {d : Digest} {a : Answer} {flasher flasher' : φ} {s : Scratch} {e : ε}
    (hlen : a.len = 0) (hhash : sha.hash [] = d)
    (hmark : F.markUpdated flasher = (.error e, flasher')) :
    applyImage sha F d a flasher s =
      { outcome := .returned (.error (.update "flash")), flasher := flasher', log := s.log } := by
  simp only [applyImage_eq]
  rw [hlen, applyUpdate_empty sha F httpBody flasher _ hhash, hmark]
  rfl

theorem applyImage_oversize {d : Digest} {a : Answer} {flasher : φ} {s : Scratch}
    (h : activeBytes < a.len) : (applyImage sha F d a flasher s).flasher = flasher := by
  simp only [applyImage_eq, applyUpdate, if_pos h]

/-- A check ends without a call to the sink, or streams the image of a consistent
server. -/
theorem checkAndUpdate_cases (sha : StreamingDigest η Digest) (F : Flasher φ ε) (version : Nat)
    (secrets : Secrets) (net : Network) (flasher : φ) :
    let run := checkAndUpdate sha F version secrets net flasher
    (run.log = [] ∨ ∃ uri connect, Reached secrets net uri connect ∧
      Course secrets uri connect run.log) ∧
    ((∃ result, run.outcome = .returned result ∧ run.flasher = flasher) ∨
      ∃ uri connect remote d a s peer body, Reached secrets net uri connect ∧
        (a.len ≤ activeBytes → Consistent version uri connect remote d a.len body) ∧
        Holds peer body a s ∧ run = applyImage sha F d a flasher s) := by
  unfold checkAndUpdate
  cases hurl : parseUrl secrets.otaUrl secrets.otaProject with
  | error e => exact ⟨.inl rfl, .inl ⟨_, rfl, rfl⟩⟩
  | ok uri =>
    cases hresolve : resolve net.dns uri with
    | error e =>
      simp only [hresolve]
      exact ⟨.inl trivial, .inl ⟨_, rfl, trivial⟩⟩
    | ok endpoint =>
      have hreached : Reached secrets net uri (net.connect endpoint) :=
        ⟨endpoint, hurl, hresolve, rfl⟩
      have hserver :=
        checkServer_cases sha F version secrets uri (net.connect endpoint) flasher
      simp only [hresolve]
      obtain ⟨hcourse, hleft | himage⟩ := hserver
      · exact ⟨.inr ⟨uri, _, hreached, hcourse⟩, .inl hleft⟩
      · obtain ⟨remote, d, a, s, peer, body, hremote, hdiffers, hdigest, hanswered, hholds,
          hrun⟩ := himage
        refine ⟨.inr ⟨uri, _, hreached, hcourse⟩, .inr ⟨uri, _, remote, d, a, s, peer, body,
          hreached, fun hfits => ?_, hholds, hrun⟩⟩
        exact ⟨hremote, hdiffers, hdigest, ⟨peer, hanswered⟩, hfits⟩

/-- A check touches flash only with a fully consistent server, and resets exactly when
the image was verified and marked. -/
theorem checkAndUpdate_guarded (sha : StreamingDigest η Digest) (F : Flasher φ ε) (version : Nat)
    (secrets : Secrets) (net : Network) (f : φ) :
    let run := checkAndUpdate sha F.recorded version secrets net (f, [])
    let calls := run.flasher.2
    (calls ≠ [] → ∃ uri connect remote d len body, Reached secrets net uri connect ∧
      Consistent version uri connect remote d len body) ∧
    (run.outcome = .reset ↔
      (∃ uri connect remote d len body, Reached secrets net uri connect ∧
        Consistent version uri connect remote d len body ∧ Verified sha d len body calls) ∧
      .markUpdated (.ok ()) ∈ calls) ∧
    (run.log = [] ∨ ∃ uri connect, Reached secrets net uri connect ∧
      Course secrets uri connect run.log) ∧
    (run.outcome ≠ .reset → (∃ result, run.outcome = .returned result) ∧
      ∀ result, .markUpdated result ∈ calls → (∃ e, result = .error e) ∧
        ∃ uri connect remote d len body, Reached secrets net uri connect ∧
          Consistent version uri connect remote d len body ∧
          Verified sha d len body calls) := by
  obtain ⟨hlog, hcases⟩ := checkAndUpdate_cases sha F.recorded version secrets net (f, [])
  simp only
  generalize checkAndUpdate sha F.recorded version secrets net (f, []) = run at hlog hcases ⊢
  rcases hcases with
    ⟨result, houtcome, hcalls⟩ | ⟨uri, connect, remote, d, a, s, peer, body, hreached,
      hconsistent, hholds, rfl⟩
  · simp [houtcome, hcalls, hlog]
  · have hreset := applyImage_reset_iff sha F d a f s
    simp only at hreset
    have hfits : (applyImage sha F.recorded d a (f, []) s).flasher.2 ≠ [] →
        a.len ≤ activeBytes := by
      intro hne
      by_contra hsize
      rw [applyImage_oversize (Nat.not_le.mp hsize)] at hne
      exact hne rfl
    have hverified : ∀ result,
        .markUpdated result ∈ (applyImage sha F.recorded d a (f, []) s).flasher.2 →
        ∃ uri connect remote d' len body, Reached secrets net uri connect ∧
          Consistent version uri connect remote d' len body ∧
          Verified sha d' len body (applyImage sha F.recorded d a (f, []) s).flasher.2 := by
      intro result hmark
      exact ⟨uri, connect, remote, d, a.len, body, hreached,
        hconsistent (hfits (List.ne_nil_of_mem hmark)), applyImage_marked hholds hmark⟩
    refine ⟨fun hne => ?_, ?_, hlog, fun hleft => ⟨?_, fun result hmark => ⟨?_, ?_⟩⟩⟩
    · exact ⟨uri, connect, remote, d, a.len, body, hreached, hconsistent (hfits hne)⟩
    · rw [hreset]
      exact ⟨fun hmark => ⟨hverified _ hmark, hmark⟩, And.right⟩
    · cases houtcome : (applyImage sha F.recorded d a (f, []) s).outcome with
      | returned result => exact ⟨result, rfl⟩
      | reset => exact absurd houtcome hleft
    · cases result with
      | error e => exact ⟨e, rfl⟩
      | ok u => exact absurd (hreset.mpr hmark) hleft
    · exact hverified result hmark

end

/-! ## A commit that fails -/

def okHead (len : String) : Text :=
  text "HTTP/1.0 200 OK\r\nContent-Length: " ++ text len ++ text "\r\n\r\n"

def localSecrets : Secrets where
  otaUrl := text "http://10.0.0.1"
  otaProject := text "garagedoor"
  otaUser := []
  otaPassword := []

/-- The digest of the empty image as `sha256sum` prints it. -/
def emptyChecksum : Text :=
  text "e3b0c44298fc1c149afbf4c8996fb92427ae41e4649b934ca495991b7852b855"

/-- A server that publishes an empty image as version 1. -/
def emptyImage : Fetch → List UInt8
  | .version => okHead "1" ++ text "1"
  | .checksum => okHead "64" ++ emptyChecksum
  | .image => okHead "0"

/-- A network on which every connection is answered in full and then closed. -/
def serving (response : Fetch → List UInt8) : Network where
  dns _ := .failed
  connect _ fetch := .established .done (answering (response fetch) .closed wholesale)

/-- A sink that takes every write but cannot be marked. -/
def unmarkable : Flasher Unit Unit where
  write _ _ _ := (.ok (), ())
  markUpdated _ := (.error (), ())

set_option maxRecDepth 4000 in
/-- The target of `localSecrets`. -/
def localUri : Uri where
  tls := false
  host := text "10.0.0.1"
  port := 80
  path :=
    { bytes := text "/garagedoor"
      length_le := by decide
      clean := by decide }

def localEndpoint : Endpoint where
  address := { a := 10, b := 0, c := 0, d := 1 }
  port := 80

theorem parseUrl_local : parseUrl localSecrets.otaUrl localSecrets.otaProject = .ok localUri :=
  rfl

theorem resolve_local (dns : Text → DnsAnswer) : resolve dns localUri = .ok localEndpoint := rfl

theorem asks_local (name : Text) (h : name.length ≤ 300) :
    ∃ bytes, Asks localSecrets localUri name bytes := by
  obtain ⟨request, hrequest⟩ :=
    buildRequest_of_fits localSecrets localUri name rfl rfl (by
      have : localUri.path.bytes.length = 11 ∧ localUri.host.length = 8 := by decide
      omega)
  exact ⟨request.bytes, request, hrequest, rfl⟩

theorem answered_local {response : Fetch → List UInt8} {fetch : Fetch} (endpoint : Endpoint)
    (len : Nat) (body : List UInt8)
    (h : headOf (answering (response fetch) .closed wholesale) =
      .ok ({ status := 200, contentLength := some len }, body)) :
    Answered localUri ((serving response).connect endpoint fetch)
      (answering (response fetch) .closed wholesale) len body :=
  ⟨rfl, h⟩

set_option maxRecDepth 4000 in
theorem emptyImage_consistent (endpoint : Endpoint) :
    Consistent 0 localUri ((serving emptyImage).connect endpoint) 1 emptyDigest 0 [] where
  declared :=
    ⟨text "1", ⟨_, 1, text "1", answered_local endpoint 1 _ rfl, by decide, rfl⟩, by decide⟩
  differs := by decide
  checksum :=
    ⟨emptyChecksum, ⟨_, 64, _, answered_local endpoint 64 _ rfl, by decide, rfl⟩, by decide⟩
  image := ⟨_, answered_local endpoint 0 [] rfl⟩
  fits := Nat.zero_le _

/-- A commit that fails leaves `mark_updated` called on a path without a reset. -/
theorem marked_without_reset :
    let run := checkAndUpdate agreeingOnEmpty unmarkable.recorded 0 localSecrets
      (serving emptyImage) ((), [])
    run.outcome = .returned (.error (.update "flash")) ∧
      .markUpdated (.error ()) ∈ run.flasher.2 := by
  obtain ⟨a, s, hlen, hflasher, houtcome⟩ :=
    checkServer_streams agreeingOnEmpty unmarkable.recorded
      (emptyImage_consistent localEndpoint)
      (asks_local _ (by decide))
      (fun suffix hsuffix => by
        simp only [List.mem_cons, List.not_mem_nil, or_false] at hsuffix
        rcases hsuffix with rfl | rfl
        · exact ⟨rfl, asks_local _ (by decide)⟩
        · exact ⟨rfl, asks_local _ (by decide)⟩) ((), [])
  rw [applyImage_unmarkable hlen agreeingOnEmpty_hash rfl] at hflasher houtcome
  simp only [checkAndUpdate, parseUrl_local, resolve_local, hflasher, houtcome]
  exact ⟨trivial, List.mem_singleton_self _⟩

end Ota
end GarageDoor
