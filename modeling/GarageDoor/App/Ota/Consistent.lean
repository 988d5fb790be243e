/-
What one OTA check asks of the server before it touches flash.

Each step of a check either leaves it or goes on with what a fully accepted
response says; a check that streams an image has gone through all of them.
-/
import GarageDoor.App.Ota.Response
import GarageDoor.App.Ota.Task
import GarageDoor.Core.Ota.Session.Recorded

namespace GarageDoor
namespace Ota

open Library Ascii Flash

/-! ## One response -/

/-- The response over this connection is accepted with status 200 and a declared
length; `body` is all that the peer sends after the head. -/
structure Answered (uri : Uri) (c : Connection) (peer : Peer) (len : Nat)
    (body : List UInt8) : Prop where
  opened : openConnection uri c = .ok (.connect peer)
  accepted : headOf peer = .ok ({ status := 200, contentLength := some len }, body)

/-- The body bytes received of an answer that declares at most `maxBytes`. -/
def Served (uri : Uri) (c : Connection) (maxBytes : Nat) (received : List UInt8) : Prop :=
  ∃ peer len body, Answered uri c peer len body ∧ len ≤ maxBytes ∧
    smallBody body peer.ending len = .ok received

/-- The version that the server declares. -/
def DeclaresVersion (uri : Uri) (connect : Fetch → Connection) (remote : Nat) : Prop :=
  ∃ received, Served uri (connect .version) versionMaxBytes received ∧
    parseVersion received = some remote

/-- The digest that the server declares. -/
def DeclaresDigest (uri : Uri) (connect : Fetch → Connection) (d : Digest) : Prop :=
  ∃ received, Served uri (connect .checksum) shaMaxBytes received ∧
    parseSha256Hex received = some d

/-- The front of the leftover buffer and the connection hold the body. -/
structure Holds (peer : Peer) (body : List UInt8) (a : Answer) (s : Scratch) : Prop where
  view : s.leftover.toList.take a.extra ++ a.link.pending = body
  link : Open peer (peer.stream.length - body.length) a.link

/-- The request for `name`. -/
def Asks (secrets : Secrets) (uri : Uri) (name : Text) (bytes : List UInt8) : Prop :=
  ∃ request, buildRequest secrets uri name = .ok request ∧ request.bytes = bytes

/-- A step that requests `name` writes that request or none, and goes on only to
what `P` says. -/
def StepOf {α : Type} (secrets : Secrets) (uri : Uri) (name : Text) (s : Scratch)
    (P : α → Scratch → Prop) : Step α → Prop
  | (.inl _, s') => s'.log = s.log ∨
      ∃ bytes, Asks secrets uri name bytes ∧ s'.log = s.log ++ [.request bytes]
  | (.inr a, s') =>
      (∃ bytes, Asks secrets uri name bytes ∧ s'.log = s.log ++ [.request bytes]) ∧ P a s'

section

variable {secrets : Secrets} {uri : Uri} {connect : Fetch → Connection} {fetch : Fetch}
  {name : Text}

theorem openConnection_fresh {c : Connection} {link : Transport}
    (h : openConnection uri c = .ok link) : ∃ peer, link = .connect peer := by
  unfold openConnection at h
  cases c with
  | failed => cases h
  | timedOut => cases h
  | established handshake peer =>
    refine ⟨peer, ?_⟩
    cases huri : uri.tls with
    | false =>
      simp only [huri, Bool.false_eq_true, not_false_eq_true, if_true, Except.ok.injEq] at h
      exact h.symm
    | true =>
      cases handshake with
      | done =>
        simp only [huri, not_true_eq_false, if_false, Except.ok.injEq] at h
        exact h.symm
      | timedOut => simp [huri] at h
      | failed => simp [huri] at h

theorem ask_answered {request : TextBuf requestMaxBytes} {peer : Peer} {len : Nat}
    {body : List UInt8} (hrequest : buildRequest secrets uri name = .ok request)
    (h : Answered uri (connect fetch) peer len body) (s : Scratch) :
    ∃ a s', ask secrets uri connect fetch name s = (.inr a, s') ∧
      s'.log = s.log ++ [.request request.bytes] ∧ a.len = len ∧ Holds peer body a s' := by
  have hget := get_connect peer request.bytes s.leftover
  rw [h.accepted] at hget
  obtain ⟨extra, t, hget, hextra, hview, hopen⟩ := hget
  refine ⟨⟨len, extra.length, t⟩,
    ⟨overwrite s.leftover extra, s.log ++ [.request request.bytes]⟩, ?_, rfl, rfl, ?_, hopen⟩
  · simp only [ask, hrequest, h.opened, hget]
    rfl
  · show (overwrite s.leftover extra).toList.take extra.length ++ t.pending = body
    rw [take_overwrite (Nat.le_of_lt hextra), hview]

/-- A step goes on only with an accepted response. -/
theorem ask_step (secrets : Secrets) (uri : Uri) (connect : Fetch → Connection)
    (fetch : Fetch) (name : Text) (s : Scratch) :
    StepOf secrets uri name s
      (fun a s' => ∃ peer body, Answered uri (connect fetch) peer a.len body ∧
        Holds peer body a s')
      (ask secrets uri connect fetch name s) := by
  cases hrequest : buildRequest secrets uri name with
  | error e =>
    simp only [ask, hrequest]
    exact .inl rfl
  | ok request =>
    cases hopened : openConnection uri (connect fetch) with
    | error e =>
      simp only [ask, hrequest, hopened]
      exact .inl rfl
    | ok link =>
      obtain ⟨peer, rfl⟩ := openConnection_fresh hopened
      have hlogged : Asks secrets uri name request.bytes := ⟨request, hrequest, rfl⟩
      have hget := get_connect peer request.bytes s.leftover
      cases hhead : headOf peer with
      | error e =>
        rw [hhead] at hget
        obtain ⟨leftover', t, hget⟩ := hget
        simp only [ask, hrequest, hopened, hget]
        exact .inr ⟨_, hlogged, rfl⟩
      | ok answer =>
        obtain ⟨⟨status, contentLength⟩, body⟩ := answer
        by_cases hstatus : status = 200
        · subst hstatus
          cases contentLength with
          | some len =>
            have hanswered : Answered uri (connect fetch) peer len body := ⟨hopened, hhead⟩
            obtain ⟨a, s', hask, hlog, rfl, hholds⟩ := ask_answered hrequest hanswered s
            rw [hask]
            exact ⟨⟨_, hlogged, hlog⟩, peer, body, hanswered, hholds⟩
          | none =>
            rw [hhead] at hget
            obtain ⟨extra, t, hget, -⟩ := hget
            simp only [ask, hrequest, hopened, hget, ne_eq, not_true_eq_false, if_false]
            exact .inr ⟨_, hlogged, rfl⟩
        · rw [hhead] at hget
          obtain ⟨extra, t, hget, -⟩ := hget
          simp only [ask, hrequest, hopened, hget, ne_eq, hstatus, not_false_eq_true, if_true]
          exact .inr ⟨_, hlogged, rfl⟩

theorem askText_answered {request : TextBuf requestMaxBytes} {peer : Peer} {len : Nat}
    {body : List UInt8} (hrequest : buildRequest secrets uri name = .ok request)
    (h : Answered uri (connect fetch) peer len body) (maxBytes : Nat) (s : Scratch) :
    ∃ s', s'.log = s.log ++ [.request request.bytes] ∧
      askText secrets uri connect fetch name maxBytes s =
        if maxBytes < len then (.inl (.error .head), s')
        else
          match smallBody body peer.ending len with
          | .error e => (.inl (.error (.transport e)), s')
          | .ok received => (.inr received, s') := by
  obtain ⟨a, s', hask, hlog, rfl, hholds⟩ := ask_answered hrequest h s
  refine ⟨s', hlog, ?_⟩
  simp only [askText, hask]
  by_cases hmax : maxBytes < a.len
  · rw [if_pos hmax, if_pos hmax]
  · have hread := readSmall_result hholds.view (Nat.not_lt.mp hmax)
    rw [hholds.link.peer] at hread
    cases hsmall : smallBody body peer.ending a.len with
    | error e => simp only [if_neg hmax, hread, hsmall]
    | ok received => simp only [if_neg hmax, hread, hsmall]

theorem askText_step (secrets : Secrets) (uri : Uri) (connect : Fetch → Connection)
    (fetch : Fetch) (name : Text) (maxBytes : Nat) (s : Scratch) :
    StepOf secrets uri name s
      (fun received _ => Served uri (connect fetch) maxBytes received)
      (askText secrets uri connect fetch name maxBytes s) := by
  have hask := ask_step secrets uri connect fetch name s
  unfold askText
  generalize ask secrets uri connect fetch name s = step at hask ⊢
  rcases step with ⟨result | a, s'⟩
  · exact hask
  · obtain ⟨hlogged, peer, body, hanswered, hholds⟩ := hask
    by_cases hmax : maxBytes < a.len
    · simp only [if_pos hmax]
      exact .inr hlogged
    · have hread := readSmall_result hholds.view (Nat.not_lt.mp hmax)
      rw [hholds.link.peer] at hread
      simp only [if_neg hmax, hread]
      cases hsmall : smallBody body peer.ending a.len with
      | error e => exact .inr hlogged
      | ok received =>
        exact ⟨hlogged, peer, a.len, body, hanswered, Nat.not_lt.mp hmax, hsmall⟩

/-- A served text is what the step goes on with. -/
theorem askText_served {bytes : List UInt8} {maxBytes : Nat} {received : List UInt8}
    (hasks : Asks secrets uri name bytes) (h : Served uri (connect fetch) maxBytes received)
    (s : Scratch) :
    ∃ s', askText secrets uri connect fetch name maxBytes s = (.inr received, s') := by
  obtain ⟨request, hrequest, -⟩ := hasks
  obtain ⟨peer, len, body, hanswered, hmax, hsmall⟩ := h
  obtain ⟨s', -, hask⟩ := askText_answered hrequest hanswered maxBytes s
  rw [if_neg (Nat.not_lt.mpr hmax), hsmall] at hask
  exact ⟨s', hask⟩

/-! ## The steps of a check -/

theorem fetchRemote_step (secrets : Secrets) (uri : Uri) (connect : Fetch → Connection)
    (s : Scratch) :
    StepOf secrets uri (text "version") s
      (fun remote _ => DeclaresVersion uri connect remote)
      (fetchRemote secrets uri connect s) := by
  have hask := askText_step secrets uri connect .version (text "version") versionMaxBytes s
  unfold fetchRemote
  generalize askText secrets uri connect .version (text "version") versionMaxBytes s = step
    at hask ⊢
  rcases step with ⟨result | received, s'⟩
  · exact hask
  · simp only
    cases hparse : parseVersion received with
    | none => exact .inr hask.1
    | some remote => exact ⟨hask.1, received, hask.2, hparse⟩

theorem fetchRemote_declared {bytes : List UInt8} {remote : Nat}
    (hasks : Asks secrets uri (text "version") bytes) (h : DeclaresVersion uri connect remote)
    (s : Scratch) : ∃ s', fetchRemote secrets uri connect s = (.inr remote, s') := by
  obtain ⟨received, hserved, hparse⟩ := h
  obtain ⟨s', hask⟩ := askText_served hasks hserved s
  exact ⟨s', by simp only [fetchRemote, hask, hparse]⟩

/-- The name under which a file of a version is published. -/
def published (remote : Nat) (suffix : String) : Text := text (toString remote) ++ text suffix

theorem fileName_published {remote : Nat} {suffix : String} {name : Text}
    (h : fileName remote suffix = some name) : name = published remote suffix := by
  simp only [fileName, Option.map_eq_some_iff] at h
  obtain ⟨buf, hwrite, rfl⟩ := h
  have hbytes : buf.bytes = published remote suffix := by
    rw [TextBuf.bytes_of_write hwrite]
    simp [TextBuf.new, published]
  rw [TextBuf.asStr, hbytes, published,
    fromUtf8_of_valid (validUtf8_append (validUtf8_text _) (validUtf8_text _)), Option.getD_some]

theorem fetchExpected_declared {bytes : List UInt8} {remote : Nat} {d : Digest}
    (hname : (fileName remote ".bin.sha256").isSome = true)
    (hasks : Asks secrets uri (published remote ".bin.sha256") bytes)
    (h : DeclaresDigest uri connect d) (s : Scratch) :
    ∃ s', fetchExpected secrets uri connect remote s = (.inr d, s') := by
  obtain ⟨name, hname⟩ := Option.isSome_iff_exists.mp hname
  obtain rfl := fileName_published hname
  obtain ⟨received, hserved, hparse⟩ := h
  obtain ⟨s', hask⟩ := askText_served hasks hserved s
  exact ⟨s', by simp only [fetchExpected, hname, hask, hparse]⟩

theorem fetchImage_answered {bytes body : List UInt8} {remote len : Nat} {peer : Peer}
    (hname : (fileName remote ".bin").isSome = true)
    (hasks : Asks secrets uri (published remote ".bin") bytes)
    (h : Answered uri (connect .image) peer len body) (s : Scratch) :
    ∃ a s', fetchImage secrets uri connect remote s = (.inr a, s') ∧ a.len = len ∧
      Holds peer body a s' := by
  obtain ⟨name, hname⟩ := Option.isSome_iff_exists.mp hname
  obtain rfl := fileName_published hname
  obtain ⟨request, hrequest, -⟩ := hasks
  obtain ⟨a, s', hask, -, hlen, hholds⟩ := ask_answered hrequest h s
  exact ⟨a, s', by simp only [fetchImage, hname, hask], hlen, hholds⟩

theorem fetchExpected_step (secrets : Secrets) (uri : Uri) (connect : Fetch → Connection)
    (remote : Nat) (s : Scratch) :
    StepOf secrets uri (published remote ".bin.sha256") s
      (fun expected _ => DeclaresDigest uri connect expected)
      (fetchExpected secrets uri connect remote s) := by
  unfold fetchExpected
  cases hname : fileName remote ".bin.sha256" with
  | none => exact .inl rfl
  | some name =>
    obtain rfl := fileName_published hname
    have hask := askText_step secrets uri connect .checksum (published remote ".bin.sha256")
      shaMaxBytes s
    simp only
    generalize askText secrets uri connect .checksum _ shaMaxBytes s = step at hask ⊢
    rcases step with ⟨result | received, s'⟩
    · exact hask
    · simp only
      cases hparse : parseSha256Hex received with
      | none => exact .inr hask.1
      | some expected => exact ⟨hask.1, received, hask.2, hparse⟩

theorem fetchImage_step (secrets : Secrets) (uri : Uri) (connect : Fetch → Connection)
    (remote : Nat) (s : Scratch) :
    StepOf secrets uri (published remote ".bin") s
      (fun a s' => ∃ peer body, Answered uri (connect .image) peer a.len body ∧
        Holds peer body a s')
      (fetchImage secrets uri connect remote s) := by
  unfold fetchImage
  cases hname : fileName remote ".bin" with
  | none => exact .inl rfl
  | some name =>
    obtain rfl := fileName_published hname
    exact ask_step secrets uri connect .image (published remote ".bin") s

end

/-! ## The whole check -/

/-- The server's answers agree with each other and call for an update that fits. -/
structure Consistent (version : Nat) (uri : Uri) (connect : Fetch → Connection) (remote : Nat)
    (d : Digest) (len : Nat) (body : List UInt8) : Prop where
  declared : DeclaresVersion uri connect remote
  differs : remote ≠ version
  checksum : DeclaresDigest uri connect d
  image : ∃ peer, Answered uri (connect .image) peer len body
  fits : len ≤ activeBytes

/-- The events of a check: the requested names are those of the version decided on. -/
inductive Course (secrets : Secrets) (uri : Uri) (connect : Fetch → Connection) :
    List CheckEvent → Prop where
  | idle : Course secrets uri connect []
  | version {rv} (hv : Asks secrets uri (text "version") rv) :
      Course secrets uri connect [.request rv]
  | decided {rv remote} (hv : Asks secrets uri (text "version") rv)
      (hremote : DeclaresVersion uri connect remote) :
      Course secrets uri connect [.request rv, .decide remote]
  | checksum {rv remote rs} (hv : Asks secrets uri (text "version") rv)
      (hremote : DeclaresVersion uri connect remote)
      (hs : Asks secrets uri (published remote ".bin.sha256") rs) :
      Course secrets uri connect [.request rv, .decide remote, .request rs]
  | image {rv remote rs ri} (hv : Asks secrets uri (text "version") rv)
      (hremote : DeclaresVersion uri connect remote)
      (hs : Asks secrets uri (published remote ".bin.sha256") rs)
      (hi : Asks secrets uri (published remote ".bin") ri) :
      Course secrets uri connect [.request rv, .decide remote, .request rs, .request ri]

theorem decide_eq_update {version remote : Nat} :
    decide version remote = .update ↔ remote ≠ version := by
  unfold decide
  by_cases h : remote ≠ version
  · simp [h]
  · simp [not_not.mp h]

section

variable {η φ ε : Type} (sha : StreamingDigest η Digest) (F : Flasher φ ε)

/-- How a check ends once the image was streamed. -/
def imageOutcome : Except (UpdateError ε FetchError) Unit → Outcome
  | .error e => .returned (.error (.update (updateCode e)))
  | .ok () => .reset

theorem applyImage_eq (d : Digest) (a : Answer) (flasher : φ) (s : Scratch) :
    let out := applyUpdate sha F httpBody flasher
      { link := a.link, leftover := s.leftover.toList.take a.extra } a.len d
    applyImage sha F d a flasher s =
      { outcome := imageOutcome out.1, flasher := out.2.1, log := s.log } := by
  unfold applyImage
  simp only
  rcases applyUpdate sha F httpBody flasher _ a.len d with ⟨result, flasher', body'⟩
  cases result <;> rfl

/-- A check leaves the sink alone or gets to stream an image. -/
theorem checkServer_cases (version : Nat) (secrets : Secrets) (uri : Uri)
    (connect : Fetch → Connection) (flasher : φ) :
    let run := checkServer sha F version secrets uri connect flasher
    Course secrets uri connect run.log ∧
      ((∃ result, run.outcome = .returned result ∧ run.flasher = flasher) ∨
        ∃ remote d a s peer body, DeclaresVersion uri connect remote ∧ remote ≠ version ∧
          DeclaresDigest uri connect d ∧ Answered uri (connect .image) peer a.len body ∧
          Holds peer body a s ∧ run = applyImage sha F d a flasher s) := by
  unfold checkServer
  have hversion := fetchRemote_step secrets uri connect
    { leftover := Vector.replicate readChunk 0, log := [] }
  generalize fetchRemote secrets uri connect _ = step at hversion ⊢
  rcases step with ⟨result | remote, s⟩
  · refine ⟨?_, .inl ⟨result, rfl, rfl⟩⟩
    rcases hversion with hlog | ⟨rv, hv, hlog⟩ <;> simp only [hlog]
    · exact .idle
    · exact .version hv
  obtain ⟨⟨rv, hv, hlog⟩, hremote⟩ := hversion
  have hlog : s.log = [.request rv] := hlog
  cases hdecide : decide version remote with
  | skip =>
    simp only [hdecide, hlog]
    exact ⟨.decided hv hremote, .inl ⟨_, rfl, trivial⟩⟩
  | update =>
    have hdiffers := decide_eq_update.mp hdecide
    simp only [hdecide]
    have hchecksum := fetchExpected_step secrets uri connect remote
      { s with log := s.log ++ [.decide remote] }
    generalize fetchExpected secrets uri connect remote _ = step at hchecksum ⊢
    simp only [StepOf, hlog, List.cons_append, List.nil_append] at hchecksum
    rcases step with ⟨result | d, s⟩
    · refine ⟨?_, .inl ⟨result, rfl, rfl⟩⟩
      rcases hchecksum with hlog | ⟨rs, hs, hlog⟩ <;> simp only [hlog]
      · exact .decided hv hremote
      · exact .checksum hv hremote hs
    obtain ⟨⟨rs, hs, hlog⟩, hdigest⟩ := hchecksum
    have himage := fetchImage_step secrets uri connect remote s
    simp only
    generalize fetchImage secrets uri connect remote s = step at himage ⊢
    simp only [StepOf, hlog, List.cons_append, List.nil_append] at himage
    rcases step with ⟨result | a, s⟩
    · refine ⟨?_, .inl ⟨result, rfl, rfl⟩⟩
      rcases himage with hlog | ⟨ri, hi, hlog⟩ <;> simp only [hlog]
      · exact .checksum hv hremote hs
      · exact .image hv hremote hs hi
    obtain ⟨⟨ri, hi, hlog⟩, peer, body, hanswered, hholds⟩ := himage
    refine ⟨?_, .inr ⟨remote, d, a, s, peer, body, hremote, hdiffers, hdigest, hanswered, hholds,
      rfl⟩⟩
    simp only [applyImage_eq, hlog]
    exact .image hv hremote hs hi

/-- A check with a consistent server streams the image. -/
theorem checkServer_streams {version remote len : Nat} {secrets : Secrets} {uri : Uri}
    {connect : Fetch → Connection} {d : Digest} {body : List UInt8}
    (h : Consistent version uri connect remote d len body)
    (hversion : ∃ bytes, Asks secrets uri (text "version") bytes)
    (hsuffix : ∀ suffix ∈ [".bin.sha256", ".bin"], (fileName remote suffix).isSome = true ∧
      ∃ bytes, Asks secrets uri (published remote suffix) bytes) (flasher : φ) :
    ∃ a s, a.len = len ∧
      (checkServer sha F version secrets uri connect flasher).flasher =
        (applyImage sha F d a flasher s).flasher ∧
      (checkServer sha F version secrets uri connect flasher).outcome =
        (applyImage sha F d a flasher s).outcome := by
  obtain ⟨rv, hrv⟩ := hversion
  obtain ⟨hsname, rs, hrs⟩ := hsuffix _ List.mem_cons_self
  obtain ⟨hiname, ri, hri⟩ := hsuffix ".bin" (by simp)
  obtain ⟨peer, hanswered⟩ := h.image
  obtain ⟨s, hremote⟩ := fetchRemote_declared hrv h.declared
    { leftover := Vector.replicate readChunk 0, log := [] }
  obtain ⟨s', hexpected⟩ := fetchExpected_declared hsname hrs h.checksum
    { s with log := s.log ++ [.decide remote] }
  obtain ⟨a, s'', himage, hlen, -⟩ := fetchImage_answered hiname hri hanswered s'
  have hrun : checkServer sha F version secrets uri connect flasher =
      applyImage sha F d a flasher s'' := by
    rw [checkServer, hremote]
    simp only [decide_eq_update.mpr h.differs, hexpected, himage]
  exact ⟨a, s'', hlen, congrArg Check.flasher hrun, congrArg Check.outcome hrun⟩

end

end Ota
end GarageDoor
