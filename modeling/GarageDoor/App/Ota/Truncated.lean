/-
Version responses that end early.

`read_small` takes a plain end of the stream for the end of the body, so what
arrived of a truncated version is parsed as if it were all of it.
-/
import GarageDoor.App.Ota.Guarded

namespace GarageDoor
namespace Ota

open Library Ascii

section

variable {secrets : Secrets} {uri : Uri} {connect : Fetch → Connection}

/-- A connection has one answer. -/
theorem Answered.unique {c : Connection} {peer peer' : Peer} {len len' : Nat}
    {body body' : List UInt8} (h : Answered uri c peer len body)
    (h' : Answered uri c peer' len' body') : peer = peer' ∧ len = len' ∧ body = body' := by
  have hlink := h.opened.symm.trans h'.opened
  simp only [Except.ok.injEq] at hlink
  obtain rfl : peer = peer' := congrArg Transport.peer hlink
  have hhead := h.accepted.symm.trans h'.accepted
  simp only [Except.ok.injEq, Prod.mk.injEq, ResponseHead.mk.injEq, Option.some.injEq,
    true_and] at hhead
  exact ⟨rfl, hhead⟩

/-- The version declared by an answer is what its received body says. -/
theorem declaresVersion_iff {peer : Peer} {len : Nat} {body : List UInt8}
    (h : Answered uri (connect .version) peer len body) (hmax : len ≤ versionMaxBytes)
    (remote : Nat) :
    DeclaresVersion uri connect remote ↔
      ∃ received, smallBody body peer.ending len = .ok received ∧
        parseVersion received = some remote := by
  constructor
  · intro hdeclares
    obtain ⟨received, ⟨peer', len', body', hanswered, -, hsmall⟩, hparse⟩ := hdeclares
    obtain ⟨rfl, rfl, rfl⟩ := h.unique hanswered
    exact ⟨received, hsmall, hparse⟩
  · intro hreceived
    obtain ⟨received, hsmall, hparse⟩ := hreceived
    exact ⟨received, ⟨peer, len, body, h, hmax, hsmall⟩, hparse⟩

/-- A body is received when all of it arrived, or when the stream ends plainly. -/
theorem smallBody_eq_ok {body received : List UInt8} {ending : Ending} {len : Nat} :
    smallBody body ending len = .ok received ↔
      (len ≤ body.length ∧ received = body.take len) ∨
        (body.length < len ∧ ending = .closed ∧ received = body) := by
  unfold smallBody
  by_cases hall : len ≤ body.length
  · have hnot : ¬ body.length < len := by omega
    rw [if_pos hall]
    simp only [hall, hnot, true_and, false_and, or_false, Except.ok.injEq]
    exact eq_comm
  · have hlt : body.length < len := by omega
    rw [if_neg hall]
    simp only [hall, hlt, true_and, false_and, false_or]
    cases ending with
    | closed =>
      simp only [Ending.bodyError, Except.ok.injEq, true_and]
      exact eq_comm
    | timedOut => simp [Ending.bodyError]
    | failed => simp [Ending.bodyError]

theorem Course.declared {log : List CheckEvent} (h : Course secrets uri connect log)
    {remote : Nat} (hmem : .decide remote ∈ log) : DeclaresVersion uri connect remote := by
  cases h with
  | idle => cases hmem
  | version hv => simp at hmem
  | decided hv hremote =>
    simp only [List.mem_cons, CheckEvent.decide.injEq, List.not_mem_nil, or_false,
      reduceCtorEq, false_or] at hmem
    rwa [hmem]
  | checksum hv hremote hs =>
    simp only [List.mem_cons, CheckEvent.decide.injEq, List.not_mem_nil, or_false,
      reduceCtorEq, false_or] at hmem
    rwa [hmem]
  | image hv hremote hs hi =>
    simp only [List.mem_cons, CheckEvent.decide.injEq, List.not_mem_nil, or_false,
      reduceCtorEq, false_or] at hmem
    rwa [hmem]

theorem StepOf.subset {α : Type} {name : Text} {s : Scratch} {P : α → Scratch → Prop}
    {step : Step α} (h : StepOf secrets uri name s P step) : s.log ⊆ step.2.log := by
  rcases step with ⟨result | a, s'⟩
  · rcases h with hlog | ⟨bytes, -, hlog⟩
    · exact fun e he => hlog ▸ he
    · exact fun e he => hlog ▸ List.mem_append_left _ he
  · obtain ⟨⟨bytes, -, hlog⟩, -⟩ := h
    exact fun e he => hlog ▸ List.mem_append_left _ he

variable {η φ ε : Type} (sha : StreamingDigest η Digest) (F : Flasher φ ε)

/-- The version of a check that is gone on with is decided on. -/
theorem checkServer_decides {version remote : Nat} {s : Scratch} (flasher : φ)
    (h : fetchRemote secrets uri connect
      { leftover := Vector.replicate readChunk 0, log := [] } = (.inr remote, s)) :
    .decide remote ∈ (checkServer sha F version secrets uri connect flasher).log := by
  have hdecided : .decide remote ∈ s.log ++ [CheckEvent.decide remote] := by simp
  simp only [checkServer, h]
  cases decide version remote with
  | skip => exact hdecided
  | update =>
    have hchecksum := (fetchExpected_step secrets uri connect remote
      { s with log := s.log ++ [.decide remote] }).subset hdecided
    simp only
    generalize fetchExpected secrets uri connect remote _ = step at hchecksum ⊢
    rcases step with ⟨result | d, s⟩
    · exact hchecksum
    · have himage := (fetchImage_step secrets uri connect remote s).subset hchecksum
      simp only
      generalize fetchImage secrets uri connect remote s = step at himage ⊢
      rcases step with ⟨result | a, s⟩
      · exact himage
      · simp only [applyImage_eq]
        exact himage

/-- A check whose version response declares no version fails after one request. -/
theorem checkServer_undeclared {bytes : List UInt8} {peer : Peer} {len : Nat}
    {body : List UInt8} (version : Nat) (flasher : φ)
    (hasks : Asks secrets uri (text "version") bytes)
    (h : Answered uri (connect .version) peer len body) (hmax : len ≤ versionMaxBytes)
    (hundeclared : ∀ remote, ¬ DeclaresVersion uri connect remote) :
    ∃ e, (checkServer sha F version secrets uri connect flasher).outcome = .returned (.error e) ∧
      (checkServer sha F version secrets uri connect flasher).log = [.request bytes] := by
  obtain ⟨request, hrequest, rfl⟩ := hasks
  obtain ⟨s, hlog, hask⟩ := askText_answered hrequest h versionMaxBytes
    { leftover := Vector.replicate readChunk 0, log := [] }
  rw [if_neg (Nat.not_lt.mpr hmax)] at hask
  cases hsmall : smallBody body peer.ending len with
  | error e =>
    simp only [hsmall] at hask
    simp only [checkServer, fetchRemote, hask, hlog]
    exact ⟨_, rfl, rfl⟩
  | ok received =>
    have hparse : parseVersion received = none := by
      cases hparse : parseVersion received with
      | none => rfl
      | some remote =>
        exact absurd ((declaresVersion_iff h hmax remote).mpr ⟨received, hsmall, hparse⟩)
          (hundeclared remote)
    simp only [hsmall] at hask
    simp only [checkServer, fetchRemote, hask, hparse, hlog]
    exact ⟨_, rfl, rfl⟩

/-- A version is acted on only when all of it arrived, unless what arrived before a
plain end of the stream is itself a version. -/
theorem version_complete_iff (sha : StreamingDigest η Digest) (F : Flasher φ ε) (version : Nat)
    (secrets : Secrets) (net : Network) (flasher : φ) {uri : Uri} {connect : Fetch → Connection}
    {peer : Peer} {len : Nat} {body : List UInt8} (hreached : Reached secrets net uri connect)
    (hasks : ∃ bytes, Asks secrets uri (text "version") bytes)
    (hanswered : Answered uri (connect .version) peer len body) (hmax : len ≤ versionMaxBytes) :
    let run := checkAndUpdate sha F version secrets net flasher
    ((∀ remote, .decide remote ∈ run.log →
        len ≤ body.length ∧ parseVersion (body.take len) = some remote) ∧
      (body.length < len →
        ∃ e bytes, run.outcome = .returned (.error e) ∧ run.log = [.request bytes])) ↔
    ¬ (body.length < len ∧ peer.ending = .closed ∧ (parseVersion body).isSome = true) := by
  obtain ⟨endpoint, hurl, hresolve, rfl⟩ := hreached
  obtain ⟨bytes, hbytes⟩ := hasks
  have hdeclares := declaresVersion_iff hanswered hmax
  have hcourse := (checkServer_cases sha F version secrets uri (net.connect endpoint) flasher).1
  simp only [checkAndUpdate, hurl, hresolve]
  constructor
  · intro hcomplete htruncated
    obtain ⟨hshort, hending, hparse⟩ := htruncated
    obtain ⟨remote, hparse⟩ := Option.isSome_iff_exists.mp hparse
    have hdeclared := (hdeclares remote).mpr
      ⟨body, smallBody_eq_ok.mpr (.inr ⟨hshort, hending, rfl⟩), hparse⟩
    obtain ⟨s, hfetch⟩ := fetchRemote_declared hbytes hdeclared
      { leftover := Vector.replicate readChunk 0, log := [] }
    have := (hcomplete.1 remote (checkServer_decides sha F flasher hfetch)).1
    omega
  · intro hwhole
    -- What arrived of a version that ended early declares nothing.
    have hnothing : body.length < len →
        ∀ remote, ¬ DeclaresVersion uri (net.connect endpoint) remote := by
      intro hshort remote hdeclared
      obtain ⟨received, hsmall, hparse⟩ := (hdeclares remote).mp hdeclared
      rcases smallBody_eq_ok.mp hsmall with ⟨hall, -⟩ | ⟨-, hending, rfl⟩
      · omega
      · exact hwhole ⟨hshort, hending, Option.isSome_iff_exists.mpr ⟨remote, hparse⟩⟩
    refine ⟨fun remote hmem => ?_, fun hshort => ?_⟩
    · have hdeclared := hcourse.declared hmem
      obtain ⟨received, hsmall, hparse⟩ := (hdeclares remote).mp hdeclared
      rcases smallBody_eq_ok.mp hsmall with ⟨hall, rfl⟩ | ⟨hshort, -⟩
      · exact ⟨hall, hparse⟩
      · exact absurd hdeclared (hnothing hshort remote)
    · obtain ⟨e, houtcome, hlog⟩ :=
        checkServer_undeclared sha F version flasher hbytes hanswered hmax
          (hnothing hshort)
      exact ⟨e, bytes, houtcome, hlog⟩

end

/-- A server that only gets the body `sent` of a version response of two bytes across. -/
def versionOfTwo (sent : String) : Fetch → List UInt8
  | .version => okHead "2" ++ text sent
  | .checksum => []
  | .image => []

theorem reached_local (response : Fetch → List UInt8) :
    Reached localSecrets (serving response) localUri ((serving response).connect localEndpoint) :=
  ⟨localEndpoint, parseUrl_local, resolve_local _, rfl⟩

set_option maxRecDepth 4000 in
theorem version_complete_iff_whole :
    let run := checkAndUpdate agreeingOnEmpty unmarkable 11 localSecrets
      (serving (versionOfTwo "12")) ()
    ∀ remote, .decide remote ∈ run.log → parseVersion (text "12") = some remote :=
  fun remote hmem =>
    ((version_complete_iff agreeingOnEmpty unmarkable 11 localSecrets
      (serving (versionOfTwo "12")) () (reached_local _) (asks_local _ (by decide))
      (answered_local localEndpoint 2 (text "12") rfl) (by decide)).mpr
      (by decide)).1 remote hmem |>.2

set_option maxRecDepth 4000 in
/-- Of the published version 12 the first digit arrives, and it is acted on as version 1. -/
theorem truncated_version_decided :
    let run := checkAndUpdate agreeingOnEmpty unmarkable 12 localSecrets
      (serving (versionOfTwo "1")) ()
    Answered localUri ((serving (versionOfTwo "1")).connect localEndpoint .version)
        (answering (versionOfTwo "1" .version) .closed wholesale) 2 (text "1") ∧
      .decide 1 ∈ run.log ∧ decide 12 1 = .update := by
  have hanswered : Answered localUri
      ((serving (versionOfTwo "1")).connect localEndpoint .version)
      (answering (versionOfTwo "1" .version) .closed wholesale) 2 (text "1") :=
    answered_local localEndpoint 2 (text "1") rfl
  obtain ⟨bytes, hasks⟩ := asks_local (text "version") (by decide)
  have hdeclared : DeclaresVersion localUri
      ((serving (versionOfTwo "1")).connect localEndpoint) 1 :=
    ⟨text "1", ⟨_, 2, _, hanswered, by decide, rfl⟩, by decide⟩
  obtain ⟨s, hfetch⟩ := fetchRemote_declared hasks hdeclared
    { leftover := Vector.replicate readChunk 0, log := [] }
  exact ⟨hanswered, checkServer_decides _ _ () hfetch, by decide⟩

end Ota
end GarageDoor
